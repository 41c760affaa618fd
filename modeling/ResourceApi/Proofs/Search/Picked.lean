import ResourceApi.Proofs.Query.Unordered
import ResourceApi.Proofs.Relation.BroughtIn
import ResourceApi.Proofs.Search.Routes

/-!
One record picked out of many. A relation that picks by the extreme value of a column leads to the records of its parent
whose value no other one beats: to one record where the values are told apart, to several where some share the extreme,
and to none where no record has a value.
-/

namespace ResourceApi

open Outcome Query

/-! ## The best of some records -/

namespace Pick

variable {pick : Pick} {records : List Row} {row : Row}

/-- Whether a record is one of the best of some: it has a value in the column, and none of theirs is preferred to it. -/
def chooses (pick : Pick) (records : List Row) (row : Row) : Bool :=
  row.cell pick.column != .null && records.all fun other =>
    other.cell pick.column == .null || !pick.extreme.prefers (other.cell pick.column) (row.cell pick.column)

/-- Whether the values of some records in the column decide for one: there is one, and no two stand in one place. -/
structure Decides (pick : Pick) (records : List Row) : Prop where
  given : ∃ row ∈ records, row.cell pick.column ≠ .null
  apart : records.Pairwise fun a b =>
    a.cell pick.column = .null ∨ Cell.order (a.cell pick.column) (b.cell pick.column) ≠ .eq

theorem chooses_iff : pick.chooses records row ↔ row.cell pick.column ≠ .null ∧
    ∀ other ∈ records, other.cell pick.column ≠ .null →
      pick.extreme.Tops (row.cell pick.column) (other.cell pick.column) := by
  simp only [chooses, Bool.and_eq_true, bne_iff_ne, List.all_eq_true, Bool.or_eq_true, beq_iff_eq, Bool.not_eq_true',
    ← Bool.not_eq_true, Extreme.prefers_iff, not_not, ← or_iff_not_imp_left, ne_eq]

/-- Where there is a value, there is a best one. -/
theorem exists_chooses (given : ∃ row ∈ records, row.cell pick.column ≠ .null) :
    ∃ row ∈ records, pick.chooses records row := by
  rcases extremeOf_cases pick.extreme (records.map (·.cell pick.column)) with ⟨none, -⟩ | ⟨among, known, tops⟩
  · obtain ⟨row, inside, present⟩ := given
    exact absurd (none _ (List.mem_map_of_mem inside)) present
  · obtain ⟨row, inside, same⟩ := List.mem_map.1 among
    rw [← same] at known tops
    exact ⟨row, inside, chooses_iff.2 ⟨known, fun other there => tops _ (List.mem_map_of_mem there)⟩⟩

theorem filter_chooses_eq_nil (none : ∀ row ∈ records, row.cell pick.column = .null) :
    records.filter (pick.chooses records) = [] := by
  refine List.filter_eq_nil_iff.2 fun row inside best => ?_
  exact (chooses_iff.1 best).1 (none row inside)

/-- Of records whose values are told apart, one is the best. -/
theorem Decides.filter_chooses (decides : pick.Decides records) :
    ∃ row ∈ records, pick.chooses records row ∧ records.filter (pick.chooses records) = [row] := by
  obtain ⟨row, inside, best⟩ := exists_chooses decides.given
  have listed : row ∈ records.filter (pick.chooses records) := List.mem_filter.2 ⟨inside, best⟩
  have alone : (records.filter (pick.chooses records)).Pairwise fun _ _ => False := by
    refine (decides.apart.sublist List.filter_sublist).imp_of_mem fun {a b} first second apart => ?_
    obtain ⟨there, best⟩ := List.mem_filter.1 first
    obtain ⟨thereToo, bestToo⟩ := List.mem_filter.1 second
    obtain ⟨known, tops⟩ := chooses_iff.1 best
    obtain ⟨knownToo, topsToo⟩ := chooses_iff.1 bestToo
    exact apart.resolve_left known ((tops b thereToo knownToo).order_eq (topsToo a there known))
  refine ⟨row, inside, best, ?_⟩
  cases chosen : records.filter (pick.chooses records) with
  | nil => exact absurd listed (chosen ▸ List.not_mem_nil)
  | cons first rest =>
    rw [chosen] at listed alone
    cases rest with
    | nil => rw [List.mem_singleton.1 listed]
    | cons second rest => exact ((List.pairwise_cons.1 alone).1 second List.mem_cons_self).elim

end Pick

/-! ## The records of a parent -/

/-- Cells in one place compare alike with others. -/
theorem Cell.order_congr {a b : Cell} (same : Cell.order a b = .eq) (c : Cell) : Cell.order c a = Cell.order c b := by
  rw [order_eq_cmp, order_eq_cmp, order_eq_iff.1 same]

/-- Records that hold one key agree in their keys, as they agree with it. -/
theorem Table.agrees_of_agrees {table other : Table} {row rival parent : Row} {column key : String}
    (numbers : (other.ref 0 0 key).type.affinity.isNumeric → (table.ref 0 0 column).type.affinity.isNumeric)
    (agrees : table.agrees row column other parent key) :
    table.agrees rival column table row column = table.agrees rival column other parent key := by
  unfold Table.agrees at agrees ⊢
  simp only [Bool.and_eq_true, bne_iff_ne, beq_iff_eq] at agrees
  obtain ⟨⟨present, given⟩, same⟩ := agrees
  have alike : ((table.ref 0 0 column).type.affinity.isNumeric || (other.ref 0 0 key).type.affinity.isNumeric) =
      (table.ref 0 0 column).type.affinity.isNumeric :=
    Bool.or_eq_left_iff_imp.2 numbers
  have through (a : Cell) : Cell.orderBetween (table.ref 0 0 column).type.affinity (table.ref 0 0 column).type.affinity a
        (row.cell column) =
      Cell.orderBetween (table.ref 0 0 column).type.affinity (other.ref 0 0 key).type.affinity a (parent.cell key) := by
    unfold Cell.orderBetween at same ⊢
    rw [alike] at same ⊢
    rw [Bool.or_self]
    split at same
    · next numeric => rw [if_pos numeric, if_pos numeric, Cell.order_congr same]
    · next textual => rw [if_neg textual, if_neg textual, Cell.order_congr same]
  rw [through, bne_iff_ne.2 present, bne_iff_ne.2 given]

/-- The records of a target that belong to a record: live ones that hold its key and tell its type. -/
def ChildLink.children (rows : String → List Row) (owner target : Resource) (link : ChildLink) (parent : Row) : List Row :=
  (rows target.table.name).filter fun row =>
    target.table.agrees row link.foreignKey owner.table parent link.localKey && target.isLive row &&
      Link.isOfType owner target [row] (.child link)

/-- A column that tells all records of the target apart, as their key does, decides for one of those that belong to a
record. -/
theorem ChildLink.decides_of_apart {rows : String → List Row} {owner target : Resource} {link : ChildLink} {pick : Pick}
    {parent : Row} (given : ∀ row ∈ rows target.table.name, row.cell pick.column ≠ .null)
    (apart : (rows target.table.name).Pairwise fun a b => Cell.order (a.cell pick.column) (b.cell pick.column) ≠ .eq)
    (some : link.children rows owner target parent ≠ []) : pick.Decides (link.children rows owner target parent) where
  given := by
    obtain ⟨row, inside⟩ := List.exists_mem_of_ne_nil _ some
    exact ⟨row, inside, given row (List.mem_of_mem_filter inside)⟩
  apart := (apart.sublist List.filter_sublist).imp .inr

namespace Link

variable {rows : String → List Row} {owner target : Resource} {link : ChildLink} {pick : Pick} {parent row : Row}
  (picked : link.pick = some pick)
  (numbers : (owner.table.ref 0 0 link.localKey).type.affinity.isNumeric →
    (target.table.ref 0 0 link.foreignKey).type.affinity.isNumeric)
  (stored : ∀ row ∈ rows target.table.name,
    Cell.IsStored (target.table.ref 0 0 pick.column).type.affinity (row.cell pick.column))
include picked numbers stored

/-- A link picks the best of the records that belong to the same record. -/
theorem picks_eq_chooses (inside : row ∈ link.children rows owner target parent) :
    Link.picks rows owner target [row] (.child link) = pick.chooses (link.children rows owner target parent) row := by
  obtain ⟨listed, met⟩ := List.mem_filter.1 inside
  simp only [Bool.and_eq_true] at met
  have rivals : ((rows target.table.name).filter fun rival =>
      target.table.agrees rival link.foreignKey target.table row link.foreignKey && target.isLive rival &&
        Link.isOfType owner target [rival] (.child link)) = link.children rows owner target parent :=
    List.filter_congr fun rival _ => by rw [Table.agrees_of_agrees numbers met.1.1]
  rw [Bool.eq_iff_iff, Pick.chooses_iff, Link.picks, picked, Option.all_some]
  simp only [List.getD_cons_zero]
  rw [rivals, holds_compare]
  rcases extremeOf_cases pick.extreme ((link.children rows owner target parent).map (·.cell pick.column)) with
    ⟨none, null⟩ | ⟨among, given, tops⟩
  · simp [none _ (List.mem_map_of_mem inside)]
  · obtain ⟨best, there, same⟩ := List.mem_map.1 among
    rw [← same] at given tops ⊢
    rw [Cell.orderFor_of_isStored (stored _ listed) (stored _ (List.mem_of_mem_filter there))]
    simp only [Bool.and_eq_true, bne_iff_ne, beq_iff_eq]
    constructor
    · rintro ⟨⟨present, -⟩, equal⟩
      refine ⟨present, fun other inside known => ?_⟩
      exact (Extreme.Tops.of_order_eq equal).trans (tops _ (List.mem_map_of_mem inside) known)
    · rintro ⟨present, among⟩
      exact ⟨⟨present, given⟩, (among best there given).order_eq (tops _ (List.mem_map_of_mem inside) present)⟩

/-- What a link that picks leads to from a record are the best of the records that belong to it. -/
theorem related_picked : (Link.child link).related rows owner target parent =
    ((link.children rows owner target parent).filter
      (pick.chooses (link.children rows owner target parent))).map ([·]) := by
  rw [Link.related, Link.frames, List.filter_map]
  refine congrArg (List.map _) ?_
  conv_rhs => rw [ChildLink.children, List.filter_filter, ← ChildLink.children]
  refine List.filter_congr fun row listed => ?_
  have parts : (target.table.agrees row link.foreignKey owner.table parent link.localKey && target.isLive row &&
      Link.isOfType owner target [row] (.child link)) = true ↔ row ∈ link.children rows owner target parent := by
    rw [ChildLink.children, List.mem_filter, and_iff_right listed]
  have split : ((fun frame => Link.ties owner target parent frame (.child link) && Link.leadsTo owner target parent (.child link) &&
        Link.accepts rows owner target (.child link) frame) ∘ fun record => [record]) row =
      (Link.picks rows owner target [row] (.child link) &&
        (target.table.agrees row link.foreignKey owner.table parent link.localKey && target.isLive row &&
          Link.isOfType owner target [row] (.child link))) := by
    simp only [Function.comp_apply, Link.ties, Link.leadsTo, Link.accepts, List.getD_cons_zero, Bool.and_true]
    ac_rfl
  rw [split]
  by_cases inside : row ∈ link.children rows owner target parent
  · rw [picks_eq_chooses picked numbers stored inside]
  · rw [Bool.eq_false_iff.2 fun met => inside (parts.1 met), Bool.and_false, Bool.and_false]

end Link

/-! ## What is attached to a record -/

namespace Plan

variable {graph : Graph} {owner target : Resource} {relation : Relation}

section Step

variable (sound : graph.Sound) (nestable : relation.isNestable) (leadsTo : graph.target relation = .ok target)
  (free : ∀ column, target.table.hasColumn column → IsFree column) {includes : List Include} {hops : List Hop} {hop : Hop}
  {step : IncludeStep} (made : loadHop graph includes hops hop = .ok step) (owned : hop.owner = owner)
  (isOf : hop.step.relation = relation) (noScopes : (requested includes hop.step.path).scopes = [])
  (unlimited : (requested includes hop.step.path).limit = none) {records : List Row} {parents : List Members}
  {work after : Work} {found : List (List Loaded)} (typed : relation.link.Typed work.database.rows owner target)
  (stand : List.Forall₂ (Stands work.database.rows owner relation) records parents)
  (ran : (step.queries.mapM (loadQuery step parents)).runOn work = (.ok found, after))
include sound nestable leadsTo free made owned isOf noScopes unlimited typed stand ran

/-- A step without scopes and a limit loads for each record what its relation links with it. -/
theorem loaded_linked :
    List.Forall₂ (fun (given : Nat × Frame) loaded => loaded.parent = given.1 ∧
        target.table.Shows (askedFields target (requested includes hop.step.path).selects) (given.2.getD 0 []) loaded.row)
      (records.zipIdx.flatMap fun entry => (graph.linked work.database.rows owner target relation.link
        (requested includes hop.step.path) entry.1).map (entry.2, ·)) found.flatten := by
  subst owned isOf
  obtain ⟨limit, loads⟩ := loads_of_loadHop made
  have whole : searchOf hop.step.relation (requested includes hop.step.path) = requested includes hop.step.path :=
    if_pos nestable
  rw [destinations_eq nestable leadsTo, whole] at loads
  rw [whole] at limit
  obtain ⟨query, none, ⟨member, ofTarget⟩, empty, only⟩ := List.forall₂_cons_left_iff.1 loads
  obtain rfl := List.forall₂_nil_left_iff.1 empty
  rw [only] at ran
  obtain ⟨_, results⟩ := @Job.mapM_eq_ok _ _ _ _ _ _ _ (fun reached => reached.database = work.database) rfl
    (fun _ _ _ _ kept ran => (loadQuery_database ran).trans kept) ran
  obtain ⟨children, last, ⟨before, _, same, ranQuery⟩, nothing, rfl⟩ := List.forall₂_cons_left_iff.1 results
  obtain rfl := List.forall₂_nil_left_iff.1 nothing
  rw [← same] at typed stand ⊢
  have given := loadQuery_eq_ok sound member ofTarget noScopes limit (by simp [unlimited]) (askedFields target _)
    (fun _ => .inl) (fun name asked => free name (ofTarget.hasColumn (.inl asked))) typed stand ranQuery
  simp only [unlimited, limited] at given
  rwa [List.flatten_singleton]

/-- The record at some place is attached what its relation links with it. -/
theorem attached_linked {rows : List Loaded} (shown : rows.map (·.row) = parents) {place : Nat} {record : Row}
    (stands : records[place]? = some record) :
    ∃ loaded children, (attach step found.flatten rows)[place]? = some loaded ∧
      loaded.row.get? step.name = some (attachment relation.kind.cardinality children) ∧
      List.Forall₂ (fun frame child =>
          target.table.Shows (askedFields target (requested includes hop.step.path).selects) (frame.getD 0 []) child)
        (graph.linked work.database.rows owner target relation.link (requested includes hop.step.path) record) children := by
  have given := loaded_linked sound nestable leadsTo free made owned isOf noScopes unlimited typed stand ran
  have own := List.rel_filter (p := fun (entry : Nat × Frame) => entry.1 == place) (q := (·.parent == place))
    (fun _ _ both => Iff.of_eq (congrArg (fun at_ => (at_ == place) = true) both.1.symm)) given
  obtain ⟨parent, standsToo⟩ : ∃ parent, rows[place]? = some parent := by
    have inside : place < rows.length := by
      rw [← List.length_map (f := (·.row)), shown, ← stand.length_eq]
      exact (List.getElem?_eq_some_iff.1 stands).1
    exact ⟨_, List.getElem?_eq_getElem inside⟩
  have put : (attach step found.flatten rows)[place]? = some { parent with
      row := Members.put step.name (attachment step.relation.kind.cardinality
        ((found.flatten.filter (·.parent == place)).map (·.row))) parent.row } := by
    simp [attach, standsToo]
  refine ⟨_, (found.flatten.filter (·.parent == place)).map (·.row), put, ?_, ?_⟩
  · rw [(step_of_loadHop made).2.2.2, isOf, Members.get?_put_self]
  · have listed : (record, place) ∈ records.zipIdx := List.mk_mem_zipIdx_iff_getElem?.2 stands
    rw [← given_at (graph.linked work.database.rows owner target relation.link (requested includes hop.step.path)) listed,
      List.forall₂_map_left_iff, List.forall₂_map_right_iff]
    exact own.imp fun entry child both => both.2

end Step

end Plan

namespace Graph

variable {graph : Graph} {owner target : Resource} {relation : Relation} {rows : String → List Row} {parent : Row}

/-- Records of a relation are counted, and asked for, without fail. -/
theorem exists_aggregate (sound : owner.Sound graph) (declared : relation ∈ owner.relations) (nestable : relation.isNestable)
    (plain : Path.IsPlain relation.name) (leadsTo : graph.target relation = .ok target) {measure : Measure}
    (whole : measure = .count ∨ measure = .presence) :
    ∃ output, Plan.aggregate graph owner 0 { relation := relation.name, measure } = .ok output := by
  obtain ⟨related, built⟩ := Related.ofTarget_total owner target relation 0
  obtain ⟨conditions, linked⟩ := related.correlated_total owner.table 1 0
  have joined : RelatedPath.ofHops graph owner.table 0 [(owner, relation)] =
      .ok ⟨related, related.source, conditions⟩ := by
    rw [RelatedPath.ofHops, Related.single_eq nestable, leadsTo, ok_bind, built, ok_bind, linked]
    rfl
  rw [Plan.aggregate, hops_name sound declared nestable leadsTo plain, ok_bind, joined]
  rcases whole with rfl | rfl <;> exact ⟨_, rfl⟩

theorem reachedBy_child {link : ChildLink} (child : relation.link = .child link) (leadsTo : graph.target relation = .ok target) :
    graph.reachedBy rows [(owner, relation)] target [] parent =
      ((Link.child link).related rows owner target parent).map (·.getD 0 []) := by
  have unfiltered : graph.admits rows target [] = fun _ => true := rfl
  rw [reachedBy, unfiltered, List.filter_true]
  simp [reached, leadsTo, child, List.map_eq_flatMap]

theorem linked_child {link : ChildLink} {item : Include} (unfiltered : item.filters = []) :
    graph.linked rows owner target (.child link) item parent =
      firstInOrder (Plan.fullOrder target item.sorts) ((Link.child link).related rows owner target parent) := by
  rw [linked, Link.related, unfiltered]
  refine congrArg (firstInOrder _) (List.filter_congr fun frame _ => ?_)
  rw [show graph.admits rows target [] (frame.getD 0 []) = true from rfl, Bool.and_true]
  rfl

/-- Whether includes of a relation attach some rows to a record. Whenever a step that loads the relation without filters,
scopes and a limit is run for rows that stand for records, the row that stands for this one carries under the name of the
step what the rows show, in the order of the include; the first of them alone where the relation is to one. -/
def Attaches (graph : Graph) (owner target : Resource) (relation : Relation) (database : Database) (parent : Row)
    (rows : List Row) : Prop :=
  ∀ (includes : List Include) (hops : List Plan.Hop) (hop : Plan.Hop) (step : IncludeStep),
    hop.owner = owner → hop.step.relation = relation → Plan.loadHop graph includes hops hop = .ok step →
    let item := Plan.requested includes hop.step.path
    item.filters = [] → item.scopes = [] → item.limit = none →
    ∀ (records : List Row) (parents : List Plan.Loaded) (work after : Work) (found : List (List Plan.Loaded)),
      work.database = database →
      List.Forall₂ (Plan.Stands database.rows owner relation) records (parents.map (·.row)) →
      (step.queries.mapM (Plan.loadQuery step (parents.map (·.row)))).runOn work = (.ok found, after) →
      ∀ place : Nat, records[place]? = some parent → ∃ loaded children,
        (Plan.attach step found.flatten parents)[place]? = some loaded ∧
          loaded.row.get? step.name = some (Plan.attachment relation.kind.cardinality children) ∧
          List.Forall₂ (fun frame child =>
              target.table.Shows (Plan.askedFields target item.selects) (frame.getD 0 []) child)
            (firstInOrder (Plan.fullOrder target item.sorts) (rows.map ([·]))) children

/-- What a relation provides for a record: the rows that queries bring in, how many an aggregate counts and whether there
are any, and what includes attach. -/
structure Provides (graph : Graph) (owner target : Resource) (relation : Relation) (database : Database) (parent : Row)
    (rows : List Row) : Prop where
  brought : Related.broughtIn owner target relation database parent = .ok rows
  counted : Path.IsPlain relation.name → ∃ output,
    Plan.aggregate graph owner 0 { relation := relation.name, measure := .count } = .ok output ∧
      ∀ (ground : Ground) (frame : Frame), ground.rows = database.rows → frame.getD 0 [] = parent →
        outputValue ground frame output = .ok (.int rows.length)
  present : Path.IsPlain relation.name → ∃ output,
    Plan.aggregate graph owner 0 { relation := relation.name, measure := .presence } = .ok output ∧
      ∀ (ground : Ground) (frame : Frame), ground.rows = database.rows → frame.getD 0 [] = parent →
        outputValue ground frame output = .ok (.bool !rows.isEmpty)
  attached : relation.link.Typed database.rows owner target →
    (∀ column, target.table.hasColumn column → Plan.IsFree column) →
    graph.Attaches owner target relation database parent rows

section Picking

variable {schema : Schema} {declarations : List ResourceDeclaration} (built : Graph.build schema declarations = .ok graph)
  (member : owner ∈ graph.resources) (declared : relation ∈ owner.relations) (kind : relation.kind = .morphOneOfMany)
  {link : ChildLink} {pick : Pick} (child : relation.link = .child link) (picked : link.pick = some pick)
  (leadsTo : graph.target relation = .ok target)
  (numbers : (owner.table.ref 0 0 link.localKey).type.affinity.isNumeric →
    (target.table.ref 0 0 link.foreignKey).type.affinity.isNumeric)
  {database : Database} (stored : ∀ row ∈ database.rows target.table.name,
    Cell.IsStored (target.table.ref 0 0 pick.column).type.affinity (row.cell pick.column))
include built member declared kind child picked leadsTo numbers stored

/-- A relation that picks provides the best of the records that belong to a record. -/
theorem provides_chosen (parent : Row) : graph.Provides owner target relation database parent
    ((link.children database.rows owner target parent).filter
      (pick.chooses (link.children database.rows owner target parent))) := by
  have sound := sound_of_build built
  have nestable : relation.isNestable := by rw [Relation.isNestable, kind]; rfl
  have related : (Link.child link).related database.rows owner target parent = _ :=
    Link.related_picked picked numbers stored
  have measured (plain : Path.IsPlain relation.name) {measure : Measure} (whole : measure = .count ∨ measure = .presence) :
      ∃ output, Plan.aggregate graph owner 0 { relation := relation.name, measure } = .ok output ∧
        ∀ (ground : Ground) (frame : Frame), ground.rows = database.rows → frame.getD 0 [] = parent →
          outputValue ground frame output = measure.taken target.table none
            ((link.children database.rows owner target parent).filter
              (pick.chooses (link.children database.rows owner target parent))) := by
    obtain ⟨output, made⟩ := exists_aggregate (sound _ member) declared nestable plain leadsTo whole
    refine ⟨output, made, fun ground frame same stands => ?_⟩
    rw [(Plan.outputValue_single sound member declared nestable plain leadsTo rfl made ground frame).2, same, stands,
      reachedBy_child child leadsTo, related]
    simp [Function.comp_def]
  constructor
  · rw [Related.broughtIn_eq, child, related]
    simp [Function.comp_def]
  · exact fun plain => measured plain (.inl rfl)
  · exact fun plain => measured plain (.inr rfl)
  · intro typed free includes hops hop step owned isOf made item unfiltered noScopes unlimited records parents work after
      found same stand ran place stands
    subst same
    have attached := Plan.attached_linked sound nestable leadsTo free made owned isOf noScopes unlimited typed stand ran rfl stands
    rwa [child, linked_child unfiltered, related] at attached

/-- A relation that picks provides the records that belong to a record and whose value no other one of them beats: none if
there is none with a value, and one where the values are told apart. -/
theorem provides_of_pick (parent : Row) :
    let children := link.children database.rows owner target parent
    graph.Provides owner target relation database parent (children.filter (pick.chooses children)) ∧
      ((∀ row ∈ children, row.cell pick.column = .null) → graph.Provides owner target relation database parent []) ∧
      (pick.Decides children →
        ∃ row ∈ children, pick.chooses children row ∧ graph.Provides owner target relation database parent [row]) := by
  have chosen := provides_chosen built member declared kind child picked leadsTo numbers stored parent
  refine ⟨chosen, fun none => ?_, fun decides => ?_⟩
  · rwa [Pick.filter_chooses_eq_nil none] at chosen
  · obtain ⟨row, inside, best, only⟩ := decides.filter_chooses
    rw [only] at chosen
    exact ⟨row, inside, best, chosen⟩

end Picking

end Graph

/-! ### Covers of albums -/

namespace Graph.Albums

def albums : Table where
  name := "albums"
  columns := [⟨"id", .integer, true, false, .null⟩]

def photos : Table where
  name := "photos"
  columns := [⟨"id", .integer, true, false, .null⟩, ⟨"subject_id", .integer, false, true, .null⟩,
    ⟨"subject_type", .string, false, true, .null⟩, ⟨"stars", .integer, false, true, .null⟩,
    ⟨"deleted_at", .datetime, false, true, .null⟩]

def schema : Schema := { tables := [albums, photos] }

/-- Albums, each with the photo of most stars among its own as its cover. -/
def declarations : List ResourceDeclaration := [
  { name := "Album", table := albums, options := [("fields", .list [.text "id"])], scopes := []
    relations := [{
      name := "cover", kind := .morphOneOfMany, targets := [.text "Photo"], foreignKey := .text "subject_id"
      morphType := some "subject_type", ofMany := some (.text "stars", .text "max") }] },
  { name := "Photo", table := photos, options := [("fields", .list [.text "id"]), ("soft_deletes", .bool true)]
    scopes := [], relations := [] }]

def resource (name : String) (table : Table) (deletedAt : Option String) (relations : List Relation) : Resource where
  name := name
  table := table
  key := "id"
  fields := ["id"]
  scopes := []
  limits := [.int 10, .int 25, .int 50]
  defaultLimit := .int 50
  defaultOrder := [("id", .desc)]
  relations := relations
  fillable := []
  softDeletes := .bool deletedAt.isSome
  deletedAt := deletedAt
  morphAlias := .text table.name
  gates := true

def stars : Pick := ⟨"stars", .max⟩

def link : ChildLink := ⟨"subject_id", "id", some "subject_type", some stars⟩

def cover : Relation := ⟨"cover", .morphOneOfMany, ["Photo"], .child link⟩

def album : Resource := resource "Album" albums none [cover]

def photo : Resource := resource "Photo" photos (some "deleted_at") []

def graph : Graph := ⟨[album, photo]⟩

theorem graph_of_declarations : Graph.build schema declarations = .ok graph := rfl

/-- The album. -/
def first : Row := [("id", .int 1)]

/-- A photo of the first of something, of some type. -/
def shot (id : Int) (type : String) (stars deletedAt : Cell) : Row :=
  [("id", .int id), ("subject_id", .int 1), ("subject_type", .text type), ("stars", stars), ("deleted_at", deletedAt)]

def database (shots : List Row) : Database := ⟨[⟨albums, [first]⟩, ⟨photos, shots⟩]⟩

/-- Two photos of an album; one with more stars was deleted, and another one is of something else. -/
def several : List Row := [shot 1 "albums" (.int 3) .null, shot 2 "albums" (.int 4) .null,
  shot 3 "albums" (.int 5) (.text "2024-01-01 00:00:00.000000"), shot 4 "people" (.int 9) .null]

theorem stored_of_several : ∀ row ∈ (database several).rows photo.table.name,
    Cell.IsStored (photo.table.ref 0 0 stars.column).type.affinity (row.cell stars.column) := by
  change ∀ row ∈ several, _
  simp only [several, List.forall_mem_cons]
  exact ⟨rfl, rfl, rfl, rfl, List.forall_mem_nil _⟩

theorem typed_of_several : cover.link.Typed (database several).rows album photo where
  one := rfl
  own := List.forall_mem_singleton.2 (.int rfl)
  matched := by
    change ∀ row ∈ several, _
    simp only [several, List.forall_mem_cons]
    exact ⟨.int rfl, .int rfl, .int rfl, .int rfl, List.forall_mem_nil _⟩

theorem children_of_several : link.children (database several).rows album photo first =
    [shot 1 "albums" (.int 3) .null, shot 2 "albums" (.int 4) .null] := by
  rfl

private theorem free (column : String) (present : photo.table.hasColumn column) : Plan.IsFree column := by
  have listed : column ∈ photos.columnNames := Table.mem_of_hasColumn present
  simp only [photos, Table.columnNames, List.map_cons, List.map_nil, List.mem_cons, List.not_mem_nil, or_false] at listed
  rcases listed with rfl | rfl | rfl | rfl | rfl <;> exact ⟨by decide, by decide, by rw [Bool.not_eq_true]; cbv⟩

/-- An album is given the one of its photos that has the most stars, and includes attach that one. -/
theorem provides_of_several :
    graph.Provides album photo cover (database several) first [shot 2 "albums" (.int 4) .null] ∧
      graph.Attaches album photo cover (database several) first [shot 2 "albums" (.int 4) .null] := by
  have member : album ∈ graph.resources := List.mem_cons_self
  have declared : cover ∈ album.relations := List.mem_cons_self
  have leadsTo : graph.target cover = .ok photo := rfl
  have child : cover.link = .child link := rfl
  obtain ⟨-, -, one⟩ := provides_of_pick graph_of_declarations member declared rfl child rfl leadsTo (by decide)
    stored_of_several first
  have decides : stars.Decides (link.children (database several).rows album photo first) := by
    refine ChildLink.decides_of_apart ?_ ?_ (by rw [children_of_several]; exact List.cons_ne_nil _ _)
    · change ∀ row ∈ several, _
      decide
    · change several.Pairwise _
      decide
  obtain ⟨row, inside, best, provides⟩ := one decides
  rw [children_of_several] at inside best
  obtain rfl : row = shot 2 "albums" (.int 4) .null := by
    rcases List.mem_pair.1 inside with rfl | rfl
    · exact absurd best (by decide)
    · rfl
  exact ⟨provides, provides.attached typed_of_several free⟩

/-- Two photos that share the most stars. -/
def tied : List Row := [shot 1 "albums" (.int 3) .null, shot 2 "albums" (.int 3) .null]

/-- A photo without stars. -/
def plain : List Row := [shot 1 "albums" .null .null]

/-- Photos that share the most stars are all brought in and counted; of photos without stars none is brought in. -/
theorem tied_or_plain :
    Graph.build schema declarations = .ok graph ∧ album ∈ graph.resources ∧ cover ∈ album.relations ∧
      link.children (database tied).rows album photo first = tied ∧
      Related.broughtIn album photo cover (database tied) first = .ok tied ∧
      (∃ output, Plan.aggregate graph album 0 { relation := "cover", measure := .count } = .ok output ∧
        outputValue ⟨(database tied).rows, []⟩ [first] output = .ok (.int 2)) ∧
      link.children (database plain).rows album photo first = plain ∧
      Related.broughtIn album photo cover (database plain) first = .ok [] :=
  ⟨graph_of_declarations, List.mem_cons_self, List.mem_cons_self, rfl, rfl, ⟨_, rfl, rfl⟩, rfl, rfl⟩

end Graph.Albums

end ResourceApi
