import ResourceApi.Proofs.Search.Fetched
import ResourceApi.Proofs.Search.Measured

/-!
Tables that are alike for a search. Where the records that are not deleted stand one for one in both, with the same cells
in the columns that links, filters and measures go by, so do the records that are related to others, those behind whole
relation paths, and those that filters admit.
-/

namespace ResourceApi

open Outcome Query

namespace Outcome

/-! ## Lists that stand one for one -/

variable {α β γ : Type} {r : α → β → Prop} {firsts : List α} {seconds : List β}

theorem forall₂_filter (related : List.Forall₂ r firsts seconds) {p : α → Bool} {q : β → Bool}
    (same : ∀ a b, r a b → p a = q b) : List.Forall₂ r (firsts.filter p) (seconds.filter q) :=
  List.rel_filter (fun _ _ both => Iff.of_eq (congrArg (· = true) (same _ _ both))) related

theorem any_eq_of_forall₂ (related : List.Forall₂ r firsts seconds) {p : α → Bool} {q : β → Bool}
    (same : ∀ a b, r a b → p a = q b) : firsts.any p = seconds.any q := by
  induction related with
  | nil => rfl
  | cons here _ ih => rw [List.any_cons, List.any_cons, same _ _ here, ih]

theorem map_eq_of_forall₂ (related : List.Forall₂ r firsts seconds) {f : α → γ} {g : β → γ}
    (same : ∀ a b, r a b → f a = g b) : firsts.map f = seconds.map g := by
  induction related with
  | nil => rfl
  | cons here _ ih => rw [List.map_cons, List.map_cons, same _ _ here, ih]

theorem mapM_eq_of_forall₂ (related : List.Forall₂ r firsts seconds) {f : α → Except Failure γ}
    {g : β → Except Failure γ} (same : ∀ a b, r a b → f a = g b) : firsts.mapM f = seconds.mapM g := by
  induction related with
  | nil => rfl
  | cons here _ ih => rw [List.mapM_cons, List.mapM_cons, same _ _ here, ih]

/-- Items that stand one for one do so in order, too, where the two orders agree. -/
theorem forall₂_mergeSort (related : List.Forall₂ r firsts seconds) {le : α → α → Bool} {other : β → β → Bool}
    (same : ∀ a b c d, r a c → r b d → le a b = other c d) :
    List.Forall₂ r (firsts.mergeSort le) (seconds.mergeSort other) := by
  obtain ⟨long, each⟩ := List.forall₂_iff_zip.1 related
  have ofFirsts : ((firsts.zip seconds).mergeSort fun a b => le a.1 b.1).map Prod.fst = firsts.mergeSort le := by
    refine (List.map_mergeSort (s := le) (f := Prod.fst) fun _ _ _ _ => rfl).trans ?_
    rw [List.map_fst_zip long.le]
  have ofSeconds : ((firsts.zip seconds).mergeSort fun a b => le a.1 b.1).map Prod.snd = seconds.mergeSort other := by
    refine (List.map_mergeSort fun _ first _ second => same _ _ _ _ (each first) (each second)).trans ?_
    rw [List.map_snd_zip long.ge]
  rw [← ofFirsts, ← ofSeconds, List.forall₂_map_left_iff, List.forall₂_map_right_iff, List.forall₂_same]
  exact fun pair inside => each (List.mem_mergeSort.1 inside)

end Outcome

/-! ## Columns that are read -/

/-- Rows with the same cells in some columns. -/
def Row.Agrees (columns : String → Prop) (row other : Row) : Prop :=
  ∀ column, columns column → row.cell column = other.cell column

namespace Link

/-- The columns that a link is followed by, each with the name of its table, and the join fields shown along with it. -/
def columns (owner target : Resource) : Link → List (String × String)
  | .child link => (target.table.name, link.foreignKey) :: (owner.table.name, link.localKey) ::
      (link.morphType.toList ++ link.pick.toList.map (·.column)).map (target.table.name, ·)
  | .parent link => (target.table.name, link.ownerKey) :: (owner.table.name, link.foreignKey) ::
      link.morphType.toList.map (owner.table.name, ·)
  | .pivot link => (target.table.name, link.targetKey) :: (owner.table.name, link.localKey) ::
      (link.relatedKey :: link.foreignKey :: link.morph.toList.map (·.1) ++ link.fields).map (link.table.name, ·)
  | .through link => (target.table.name, link.secondKey) :: (owner.table.name, link.localKey) ::
      [(link.table.name, link.secondLocalKey), (link.table.name, link.firstKey)]

/-- The table between the records of the owner and those of the target. -/
def between? : Link → Option Table
  | .child _ | .parent _ => none
  | .pivot link => some link.table
  | .through link => some link.table

/-- Rows on the related side that have the same cells in the columns read of their tables. -/
def Agrees (reads : String → String → Prop) (target : Resource) (link : Link) (frame other : Frame) : Prop :=
  Row.Agrees (reads target.table.name) (frame.getD 0 []) (other.getD 0 []) ∧
    Row.Agrees (reads (link.matchedTable target).name) (frame.getD link.matchedPlace [])
      (other.getD link.matchedPlace [])

end Link

namespace Graph

/-- Columns by which every relation of the graph can be followed. -/
def Follows (graph : Graph) (reads : String → String → Prop) : Prop :=
  ∀ owner ∈ graph.resources, ∀ relation ∈ owner.relations, ∀ target ∈ graph.destinations relation,
    ∀ place ∈ relation.link.columns owner target, reads place.1 place.2

/-- Two contents of the tables that hold, as far as the resources show them, the same records: those that are not deleted
stand one for one, and so do the rows of tables between records, with the same cells in the columns that are read. -/
structure Alike (graph : Graph) (reads : String → String → Prop) (rows others : String → List Row) : Prop where
  live : ∀ resource ∈ graph.resources, List.Forall₂ (Row.Agrees (reads resource.table.name))
    ((rows resource.table.name).filter resource.isLive) ((others resource.table.name).filter resource.isLive)
  between : ∀ owner ∈ graph.resources, ∀ relation ∈ owner.relations, ∀ table, relation.link.between? = some table →
    List.Forall₂ (Row.Agrees (reads table.name)) (rows table.name) (others table.name)

/-- Whether the columns of filters on a field are read: an own column, or one of the resource behind the relations. -/
def Opens (graph : Graph) (reads : String → String → Prop) (resource : Resource) (field : String) : Prop :=
  if Path.points field = 0 then reads resource.table.name field
  else ∀ hops hop target, graph.hops resource (Path.splitLast field).1 = .ok hops → hops.getLast? = some hop →
    graph.target hop.2 = .ok target → reads target.table.name (Path.splitLast field).2

theorem mem_destinations_of_target {graph : Graph} {relation : Relation} {target : Resource}
    (leadsTo : graph.target relation = .ok target) : target ∈ graph.destinations relation := by
  unfold destinations
  split
  · unfold Graph.target at leadsTo
    split at leadsTo
    · cases leadsTo
    · next name rest named =>
      split at leadsTo
      · next found =>
        cases leadsTo
        exact List.mem_filterMap.2 ⟨name, named ▸ List.mem_cons_self, found⟩
      · cases leadsTo
  · simp [leadsTo, Except.toOption]

end Graph

mutual
/-- The fields that a filter speaks of. -/
def Filter.names : Filter → List String
  | ⟨field, _, _, _, nested⟩ =>
    match nested with
    | some filters => Filter.namesOfAll filters
    | none => field.toList
termination_by structural filter => filter

def Filter.namesOfAll : List Filter → List String
  | [] => []
  | filter :: rest => Filter.names filter ++ Filter.namesOfAll rest
termination_by structural filters => filters
end

/-- Relations that a query joins lead to one resource each. -/
theorem RelatedPath.isNestable_of_ofHops {graph : Graph} {parent : Table} {slot : Nat} {hops : List (Resource × Relation)}
    {path : RelatedPath} (joined : ofHops graph parent slot hops = .ok path) : ∀ hop ∈ hops, hop.2.isNestable := by
  have single {owner : Resource} {relation : Relation} {slot : Nat} {related : Related}
      (built : Related.single graph owner relation slot = .ok related) : relation.isNestable := by
    unfold Related.single at built
    split at built
    · cases built
    · next one => simpa [Relation.isNestable, Kind.isNestable] using one
  have further {hops : List (Resource × Relation)} {before after : RelatedPath} {width : Nat}
      (extended : extend graph before width hops = .ok after) : ∀ hop ∈ hops, hop.2.isNestable := by
    induction hops generalizing before width with
    | nil => exact List.forall_mem_nil _
    | cons hop rest ih =>
      obtain ⟨next, made, more⟩ := bind_eq_ok.1 extended
      exact List.forall_mem_cons.2 ⟨single made, ih more⟩
  cases hops with
  | nil => cases joined
  | cons hop rest =>
    obtain ⟨first, made, more⟩ := bind_eq_ok.1 joined
    obtain ⟨conditions, -, extended⟩ := bind_eq_ok.1 more
    exact List.forall_mem_cons.2 ⟨single made, further extended⟩

/-! ## Related records -/

theorem Table.agrees_congr {table second : Table} {row other record another : Row} {column key : String}
    (here : row.cell column = other.cell column) (there : record.cell key = another.cell key) :
    table.agrees row column second record key = table.agrees other column second another key := by
  simp only [Table.agrees, here, there]

namespace Link

variable {rows : String → List Row} {owner target : Resource}

/-- The rows on the related side for one record of the target. -/
def framesOf (rows : String → List Row) (target : Resource) (record : Row) : Link → List Frame
  | .child _ | .parent _ => [[record]]
  | .pivot link => ((rows link.table.name).filter fun between =>
      link.table.agrees between link.relatedKey target.table record link.targetKey).map fun between => [record, between]
  | .through link => ((rows link.table.name).filter fun between =>
      target.table.agrees record link.secondKey link.table between link.secondLocalKey).map fun between =>
        [record, between]

theorem frames_eq_flatMap (link : Link) :
    link.frames rows target = (rows target.table.name).flatMap fun record => link.framesOf rows target record := by
  cases link with
  | child link | parent link => simp [frames, framesOf, List.map_eq_flatMap]
  | pivot link | through link => rfl

theorem head_of_mem_framesOf {link : Link} {record : Row} {frame : Frame}
    (inside : frame ∈ link.framesOf rows target record) : frame.getD 0 [] = record := by
  cases link with
  | child link | parent link =>
    obtain rfl := List.mem_singleton.1 inside
    rfl
  | pivot link | through link =>
    obtain ⟨between, -, rfl⟩ := List.mem_map.1 inside
    rfl

/-- The rows that a link accepts are those for the records that are not deleted, of the right type and picked. -/
theorem filter_accepts (link : Link) :
    (link.frames rows target).filter (link.accepts rows owner target) =
      ((rows target.table.name).filter target.isLive).flatMap fun record =>
        (link.framesOf rows target record).filter fun frame =>
          link.isOfType owner target frame && link.picks rows owner target frame := by
  have accepted (record : Row) : (link.framesOf rows target record).filter (link.accepts rows owner target) =
      (link.framesOf rows target record).filter fun frame => target.isLive record &&
        (link.isOfType owner target frame && link.picks rows owner target frame) := by
    refine List.filter_congr fun frame inside => ?_
    rw [accepts, head_of_mem_framesOf inside, Bool.and_assoc]
  rw [frames_eq_flatMap, List.filter_flatMap, ← flatMap_filter_of_nil (p := target.isLive) fun record deleted => by
    simp [accepted, deleted]]
  refine List.flatMap_congr fun record inside => ?_
  simp only [accepted, (List.mem_filter.1 inside).2, Bool.true_and]

section Agreeing

variable {others : String → List Row} {reads : String → String → Prop} {link : Link}
  (read : ∀ place ∈ link.columns owner target, reads place.1 place.2)
include read

private theorem forall₂_framesOf
    (between : ∀ table, link.between? = some table → List.Forall₂ (Row.Agrees (reads table.name)) (rows table.name)
      (others table.name))
    {record other : Row} (agree : record.Agrees (reads target.table.name) other) :
    List.Forall₂ (link.Agrees reads target) (link.framesOf rows target record) (link.framesOf others target other) := by
  cases link with
  | child link | parent link => exact .cons ⟨agree, agree⟩ .nil
  | pivot link =>
    have matched := agree _ (read (target.table.name, link.targetKey) (by simp [columns]))
    have related : reads link.table.name link.relatedKey := read (link.table.name, link.relatedKey) (by simp [columns])
    rw [framesOf, framesOf, List.forall₂_map_left_iff, List.forall₂_map_right_iff]
    refine (forall₂_filter (between link.table rfl) fun row another both => ?_).imp fun row another both => ⟨agree, both⟩
    exact Table.agrees_congr (both _ related) matched
  | through link =>
    have matched := agree _ (read (target.table.name, link.secondKey) (by simp [columns]))
    have related : reads link.table.name link.secondLocalKey :=
      read (link.table.name, link.secondLocalKey) (by simp [columns])
    rw [framesOf, framesOf, List.forall₂_map_left_iff, List.forall₂_map_right_iff]
    refine (forall₂_filter (between link.table rfl) fun row another both => ?_).imp fun row another both => ⟨agree, both⟩
    exact Table.agrees_congr matched (both _ related)

private theorem isOfType_congr {frame other : Frame} (agree : link.Agrees reads target frame other) :
    link.isOfType owner target frame = link.isOfType owner target other := by
  cases link with
  | child link =>
    cases morph : link.morphType with
    | none => simp only [isOfType, morph, Option.all_none]
    | some column =>
      have told := agree.1 column (read (target.table.name, column) (by simp [columns, morph]))
      simp only [isOfType, morph, Option.all_some, Table.holds, told]
  | pivot link =>
    cases morph : link.morph with
    | none => simp only [isOfType, morph, Option.all_none]
    | some tag =>
      have told : (frame.getD 1 []).cell tag.1 = (other.getD 1 []).cell tag.1 :=
        agree.2 tag.1 (read (link.table.name, tag.1) (by simp [columns, morph]))
      simp only [isOfType, morph, Option.all_some, Table.holds, told]
  | parent link | through link => rfl

private theorem picks_congr
    (live : List.Forall₂ (Row.Agrees (reads target.table.name)) ((rows target.table.name).filter target.isLive)
      ((others target.table.name).filter target.isLive))
    {frame other : Frame} (agree : link.Agrees reads target frame other) :
    link.picks rows owner target frame = link.picks others owner target other := by
  cases link with
  | child link =>
    cases chosen : link.pick with
    | none => simp only [picks, chosen, Option.all_none]
    | some pick =>
      have own : reads target.table.name link.foreignKey := read (target.table.name, link.foreignKey) (by simp [columns])
      have ranked : reads target.table.name pick.column :=
        read (target.table.name, pick.column) (by simp [columns, chosen])
      have rivals (rows : String → List Row) (record : Row) : ((rows target.table.name).filter fun rival =>
          target.table.agrees rival link.foreignKey target.table record link.foreignKey && target.isLive rival &&
            isOfType owner target [rival] (.child link)) =
          ((rows target.table.name).filter target.isLive).filter fun rival =>
            target.table.agrees rival link.foreignKey target.table record link.foreignKey &&
              isOfType owner target [rival] (.child link) := by
        rw [List.filter_filter]
        exact List.filter_congr fun rival _ => Bool.and_right_comm _ _ _
      have cells := map_eq_of_forall₂ (forall₂_filter live
        (p := fun rival => target.table.agrees rival link.foreignKey target.table (frame.getD 0 []) link.foreignKey &&
          isOfType owner target [rival] (.child link))
        (q := fun rival => target.table.agrees rival link.foreignKey target.table (other.getD 0 []) link.foreignKey &&
          isOfType owner target [rival] (.child link))
        fun rival another both => by
          have type : isOfType owner target [rival] (.child link) = isOfType owner target [another] (.child link) :=
            isOfType_congr read ⟨both, both⟩
          rw [Table.agrees_congr (both _ own) (agree.1 _ own), type])
        fun rival another both => both _ ranked
      simp only [picks, chosen, Option.all_some, rivals, agree.1 _ ranked]
      rw [cells]
  | parent link | pivot link | through link => rfl

/-- The rows that a link accepts stand one for one. -/
theorem forall₂_accepts
    (between : ∀ table, link.between? = some table → List.Forall₂ (Row.Agrees (reads table.name)) (rows table.name)
      (others table.name))
    (live : List.Forall₂ (Row.Agrees (reads target.table.name)) ((rows target.table.name).filter target.isLive)
      ((others target.table.name).filter target.isLive)) :
    List.Forall₂ (link.Agrees reads target) ((link.frames rows target).filter (link.accepts rows owner target))
      ((link.frames others target).filter (link.accepts others owner target)) := by
  rw [filter_accepts, filter_accepts]
  refine List.rel_flatMap live fun record other agree => ?_
  refine forall₂_filter (forall₂_framesOf read between agree) fun frame another both => ?_
  rw [isOfType_congr read both, picks_congr read live both]

theorem ties_congr {parent another : Row} (told : parent.Agrees (reads owner.table.name) another) {frame other : Frame}
    (agree : link.Agrees reads target frame other) :
    link.ties owner target parent frame = link.ties owner target another other := by
  have own : reads owner.table.name link.ownColumn :=
    read (owner.table.name, link.ownColumn) (by cases link <;> simp [columns, ownColumn])
  have matched : reads (link.matchedTable target).name link.matchedColumn :=
    read ((link.matchedTable target).name, link.matchedColumn)
      (by cases link <;> simp [columns, matchedTable, matchedColumn])
  rw [ties_eq, ties_eq]
  exact Table.agrees_congr (agree.2 _ matched) (told _ own)

theorem leadsTo_congr {parent another : Row} (told : parent.Agrees (reads owner.table.name) another) :
    link.leadsTo owner target parent = link.leadsTo owner target another := by
  cases link with
  | parent link =>
    cases morph : link.morphType with
    | none => simp only [leadsTo, morph, Option.all_none]
    | some column =>
      have same := told column (read (owner.table.name, column) (by simp [columns, morph]))
      simp only [leadsTo, morph, Option.all_some, Table.holds, same]
  | child link | pivot link | through link => rfl

end Agreeing

end Link

namespace Graph.Alike

variable {graph : Graph} {reads : String → String → Prop} {rows others : String → List Row}
  (alike : graph.Alike reads rows others) (follows : graph.Follows reads)
include alike follows

section Linked

variable {owner target : Resource} {relation : Relation} (member : owner ∈ graph.resources)
  (declared : relation ∈ owner.relations) (leadsTo : target ∈ graph.destinations relation)
include member declared leadsTo

theorem accepted :
    List.Forall₂ (relation.link.Agrees reads target)
      ((relation.link.frames rows target).filter (relation.link.accepts rows owner target))
      ((relation.link.frames others target).filter (relation.link.accepts others owner target)) :=
  Link.forall₂_accepts (follows owner member relation declared target leadsTo)
    (alike.between owner member relation declared) (alike.live target (mem_of_mem_destinations leadsTo))

/-- Records that agree have related records that do. -/
theorem related {parent another : Row} (told : parent.Agrees (reads owner.table.name) another) :
    List.Forall₂ (relation.link.Agrees reads target) (relation.link.related rows owner target parent)
      (relation.link.related others owner target another) := by
  have read := follows owner member relation declared target leadsTo
  have split (rows : String → List Row) (parent : Row) : relation.link.related rows owner target parent =
      ((relation.link.frames rows target).filter (relation.link.accepts rows owner target)).filter fun frame =>
        relation.link.ties owner target parent frame && relation.link.leadsTo owner target parent := by
    rw [List.filter_filter, Link.related]
  rw [split, split]
  refine forall₂_filter (accepted alike follows member declared leadsTo) fun frame other agree => ?_
  rw [Link.ties_congr read told agree, Link.leadsTo_congr read told]

end Linked

/-- Hops lead from records that agree to records that do. -/
theorem reached {resource target : Resource} {hops : List (Resource × Relation)} {hop : Resource × Relation}
    (member : resource ∈ graph.resources) (chained : graph.Chained resource hops)
    (nestable : ∀ hop ∈ hops, hop.2.isNestable) (ends : hops.getLast? = some hop)
    (leadsTo : graph.target hop.2 = .ok target) {record other : Row}
    (agree : record.Agrees (reads resource.table.name) other) :
    List.Forall₂ (Row.Agrees (reads target.table.name)) (graph.reached rows hops record)
      (graph.reached others hops other) := by
  induction hops generalizing resource record other with
  | nil => cases ends
  | cons first rest ih =>
    obtain ⟨owner, relation⟩ := first
    obtain ⟨rfl, declared, later⟩ := chained
    obtain ⟨here, further⟩ := List.forall_mem_cons.1 nestable
    cases behind : graph.target relation with
    | error failure => simp only [Graph.reached, behind, List.Forall₂.nil]
    | ok next =>
      have found := related alike follows member declared (mem_destinations_of_target behind) agree
      simp only [Graph.reached, behind]
      refine List.rel_flatMap found fun frame another both => ?_
      cases rest with
      | nil =>
        obtain rfl : (owner, relation) = hop := by simpa using ends
        obtain rfl := Except.ok.inj (behind.symm.trans leadsTo)
        exact .cons both.1 .nil
      | cons second rest =>
        exact ih (mem_of_target behind) (later here next behind) further (by simpa using ends) both.1

/-! ## Filters -/

section Filters

variable {resource : Resource} (member : resource ∈ graph.resources) {record other : Row}
  (agree : record.Agrees (reads resource.table.name) other)
include member agree

/-- Records that agree compare alike. -/
theorem compares {slot : Nat} {field : Option String} {operator : String} {value : Json} {condition : Cond}
    (made : Plan.leafCondition graph resource slot field operator value = .ok condition)
    (opens : ∀ name, field = some name → graph.Opens reads resource name) :
    graph.compares rows resource record field operator value = graph.compares others resource other field operator value := by
  unfold Plan.leafCondition at made
  split at made
  · next name comparison known =>
    have opened := opens name rfl
    unfold Opens at opened
    by_cases own : Path.points name = 0
    · rw [if_pos own] at opened
      simp only [Graph.compares, known, if_pos own, agree name opened]
    · rw [if_neg own] at opened
      simp only [if_neg own, bind_eq_ok] at made
      obtain ⟨hops, walked, path, joined, -⟩ := made
      obtain ⟨hop, ends, leadsTo⟩ := RelatedPath.target_of_ofHops joined
      have read := opened hops hop _ walked ends leadsTo
      simp only [Graph.compares, known, if_neg own, walked, ends, Option.map_some, leadsTo]
      refine any_eq_of_forall₂ (reached alike follows member (chained_of_walk walked)
        (RelatedPath.isNestable_of_ofHops joined) ends leadsTo agree) fun row another both => ?_
      rw [both _ read]
  · cases made

mutual
private theorem verdict_eq {slot : Nat} : ∀ {filter : Filter} {condition : Option Cond},
    Plan.filterCondition graph resource slot filter = .ok condition →
      (∀ name ∈ filter.names, graph.Opens reads resource name) →
        filter.verdict (graph.compares rows resource record) = filter.verdict (graph.compares others resource other)
  | ⟨field, operator, value, _, nested⟩, condition, made, opens => by
    cases nested with
    | none =>
      rw [Plan.filterCondition] at made
      obtain ⟨leaf, compared, -⟩ := bind_eq_ok.1 made
      rw [Filter.verdict, Filter.verdict, compares alike follows member agree compared fun name named =>
        opens name (by simp [Filter.names, named])]
    | some filters =>
      rw [Plan.filterCondition] at made
      obtain ⟨conditions, inner, -⟩ := bind_eq_ok.1 made
      rw [Filter.verdict, Filter.verdict, verdicts_eq inner fun name named => opens name (by rwa [Filter.names])]

private theorem verdicts_eq {slot : Nat} : ∀ {filters : List Filter} {conditions : List (Joining × Cond)},
    Plan.filterConditions graph resource slot filters = .ok conditions →
      (∀ name ∈ Filter.namesOfAll filters, graph.Opens reads resource name) →
        Filter.verdicts (graph.compares rows resource record) filters =
          Filter.verdicts (graph.compares others resource other) filters
  | [], _, _, _ => rfl
  | filter :: rest, conditions, made, opens => by
    rw [Filter.namesOfAll] at opens
    obtain ⟨here, later⟩ := List.forall_mem_append.1 opens
    rw [Plan.filterConditions] at made
    obtain ⟨first, given, after⟩ := bind_eq_ok.1 made
    have further : ∃ others, Plan.filterConditions graph resource slot rest = .ok others := by
      cases first with
      | none => exact ⟨conditions, after⟩
      | some condition =>
        obtain ⟨others, further, -⟩ := bind_eq_ok.1 after
        exact ⟨others, further⟩
    obtain ⟨_, further⟩ := further
    rw [Filter.verdicts, Filter.verdicts, verdict_eq given here, verdicts_eq further later]
end

/-- Filters admit both of two records that agree, or neither. -/
theorem admits {slot : Nat} {filters : List Filter} {conditions : List Cond}
    (made : Plan.filtersCondition graph resource slot filters = .ok conditions)
    (opens : ∀ name ∈ Filter.namesOfAll filters, graph.Opens reads resource name) :
    graph.admits rows resource filters record = graph.admits others resource filters other := by
  obtain ⟨compiled, given, -⟩ := bind_eq_ok.1 made
  rw [Graph.admits, Graph.admits, verdicts_eq alike follows member agree given opens]

end Filters

end Graph.Alike

end ResourceApi
