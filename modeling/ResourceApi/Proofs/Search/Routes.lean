import ResourceApi.Proofs.Search.Carried
import ResourceApi.Proofs.Search.Measured

/-!
Three routes through a relation. What an aggregate counts, what an include brings without a limit, and what a filter on a
field of related records asks for are the same records, whether a query joins them or they are read apart and given back
to the records that they belong to.
-/

namespace ResourceApi

open Outcome Query

namespace Plan

variable {graph : Graph} {resource target : Resource} {relation : Relation} {rows : String → List Row}

/-! ## The page -/

theorem mem_matching_of_frames {query : Query} {ground : Ground} {frame : Frame} (inside : frame ∈ query.frames ground) :
    frame ∈ matching ground [] query.source query.conditions := by
  have listed : frame ∈ sorted query.order (matching ground [] query.source query.conditions) := by
    unfold Query.frames paged at inside
    split at inside
    · exact inside
    · dsimp only at inside
      split at inside
      · exact List.mem_of_mem_drop inside
      · exact List.mem_of_mem_drop (List.mem_of_mem_take inside)
  exact List.mem_mergeSort.1 listed

/-- The rows of a query for the records of one table hold one record of the table each. -/
theorem eq_singleton_of_frames {query : Query} {name : String} (source : query.source = .table name) {ground : Ground}
    {frame : Frame} (inside : frame ∈ query.frames ground) : ∃ record ∈ ground.rows name, frame = [record] := by
  have listed := mem_matching_of_frames inside
  rw [source, matching_eq_filter, extend] at listed
  obtain ⟨record, present, rfl⟩ := List.mem_map.1 (List.mem_of_mem_filter listed)
  exact ⟨record, present, rfl⟩

/-! ## Includes of the root -/

/-- Each step is that of its path, made when those before it were there. -/
theorem forall₂_of_includeHops {paths : List String} {hops : List Hop}
    (walked : includeHops graph resource paths = .ok hops) :
    List.Forall₂ (fun path hop => ∃ before, includeHop graph resource before path = .ok hop) paths hops := by
  have loop (rest : List String) (done : List Hop) (folded : rest.foldlM (fun hops path => do
        return hops ++ [← includeHop graph resource hops path]) done = (.ok hops : Except Failure (List Hop))) :
      ∃ added, hops = done ++ added ∧
        List.Forall₂ (fun path hop => ∃ before, includeHop graph resource before path = .ok hop) rest added := by
    induction rest generalizing done with
    | nil =>
      obtain rfl := pure_eq_ok.1 folded
      exact ⟨[], (List.append_nil _).symm, .nil⟩
    | cons path rest ih =>
      rw [List.foldlM_cons] at folded
      obtain ⟨next, stepped, folded⟩ := bind_eq_ok.1 folded
      obtain ⟨hop, made, same⟩ := bind_eq_ok.1 stepped
      obtain rfl := pure_eq_ok.1 same
      obtain ⟨added, rfl, others⟩ := ih _ folded
      exact ⟨hop :: added, by simp, .cons ⟨done, made⟩ others⟩
  obtain ⟨added, rfl, each⟩ := loop paths [] walked
  exact each

/-- The step of a plain path is for the records of the page, and puts in its relation under the path. -/
theorem includeHop_of_isPlain {before : List Hop} {path : String} {hop : Hop} (plain : Path.IsPlain path)
    (made : includeHop graph resource before path = .ok hop) :
    hop.step.path = path ∧ hop.step.name = path ∧ start hop.step = "" ∧ hop.step.parentPath = none ∧
      hop.owner = resource ∧ resource.relation? path = some hop.step.relation := by
  rw [includeHop, Path.splitLast_of_isPlain plain] at made
  obtain ⟨owner, owned, made⟩ := bind_eq_ok.1 made
  obtain rfl : resource = owner := Except.ok.inj owned
  split at made
  · cases made
  · next relation found =>
    obtain ⟨target, -, same⟩ := bind_eq_ok.1 made
    obtain rfl := pure_eq_ok.1 same
    exact ⟨rfl, rfl, rfl, rfl, rfl, found⟩

/-! ## Yields -/

/-- How many rows the query of an include yields for each of the records that it is run for. -/
def Yields (graph : Graph) (database : Database) (owner target : Resource) (relation : Relation) (item : Include)
    (number : Row → Nat) : Prop :=
  ∀ (step : IncludeStep) (required : List String) (query : IncludeQuery) (records : List Row) (parents : List Members)
    (work after : Work) (found : List Loaded), step.limit = item.limit →
      Loads graph owner target relation item required query → work.database = database →
      List.Forall₂ (Stands database.rows owner relation) records parents →
      (loadQuery step parents query).runOn work = (.ok found, after) →
      ∀ entry ∈ records.zipIdx, (found.filter (·.parent == entry.2)).length = number entry.1

/-- An include without a limit yields for each record as many rows as are linked with it. -/
theorem yields_linked (sound : graph.Sound) (member : target ∈ graph.resources) {owner : Resource} {database : Database}
    (typed : relation.link.Typed database.rows owner target) {item : Include} (unlimited : item.limit = none)
    (noScopes : item.scopes = []) :
    Yields graph database owner target relation item fun record =>
      (graph.linked database.rows owner target relation.link item record).length := by
  rintro step required query records parents work after found limit loads rfl stand ran ⟨record, place⟩ stands
  have given := loadQuery_eq_ok sound member loads noScopes limit (by simp [unlimited]) [] (by simp) (by simp) typed stand ran
  simp only [unlimited, limited] at given
  have there := List.rel_filter (p := fun (entry : Nat × Frame) => entry.1 == place) (q := (·.parent == place))
    (fun _ _ both => Iff.of_eq (congrArg (fun at_ => (at_ == place) = true) both.1.symm)) given
  dsimp only
  rw [← there.length_eq, ← given_at (graph.linked work.database.rows owner target relation.link item) stands,
    List.length_map]

/-! ## Attached lists -/

/-- A row that has under the name of a relation what is attached there, made of so many records. -/
def Bears (relation : Relation) (number : Row → Nat) (record : Row) (loaded : Loaded) : Prop :=
  ∃ children, loaded.row.get? relation.name = some (attachment relation.kind.cardinality children) ∧
    children.length = number record

/-- What a step attaches to a record is made of the rows that were loaded for it. -/
private theorem bears_of_attach {step : IncludeStep} (named : step.name = relation.name)
    (isOf : step.relation = relation) {children : List Loaded} {number : Row → Nat} {records : List Row}
    {loaded : List Loaded} (same : loaded.length = records.length)
    (counted : ∀ entry ∈ records.zipIdx, (children.filter (·.parent == entry.2)).length = number entry.1) :
    List.Forall₂ (Bears relation number) records (attach step children loaded) := by
  refine List.forall₂_iff_get.2 ⟨by simp [attach, same], fun place inside _ => ?_⟩
  have listed : (records[place], place) ∈ records.zipIdx := List.mk_mem_zipIdx_iff_getElem?.2 (List.getElem?_eq_getElem inside)
  refine ⟨(children.filter (·.parent == place)).map (·.row), ?_, by rw [List.length_map]; exact counted _ listed⟩
  simp [attach, named, isOf, Members.get?_put_self]

section Loading

variable {owner : Resource} {step : IncludeStep} {number : Row → Nat} {database : Database} {work after : Work}

theorem mapM_loadQuery_database {step : IncludeStep} {parents : List Members} {queries : List IncludeQuery}
    {found : List (List Loaded)} (ran : (queries.mapM (loadQuery step parents)).runOn work = (.ok found, after)) :
    after.database = work.database :=
  (@Job.mapM_eq_ok _ _ _ _ _ _ _ (fun reached => reached.database = work.database) rfl
    (fun _ _ _ _ kept ran => (loadQuery_database ran).trans kept) ran).1

/-- The records of the page bear what a step for them brings, though others come before and after it. -/
theorem bears_of_loadAll (named : step.name = relation.name) (isOf : step.relation = relation) (root : start step = "")
    {before rest : List IncludeStep}
    (apart : ∀ other ∈ before, start other = "" ∧ other.path ≠ "" ∧ other.name ≠ relation.name ∧
      other.name ∉ relation.parentColumns) {records : List Row}
    (counted : ∀ parents (work after : Work) found, work.database = database →
      List.Forall₂ (Stands database.rows owner relation) records parents →
      (step.queries.mapM (loadQuery step parents)).runOn work = (.ok found, after) →
      ∀ entry ∈ records.zipIdx, (found.flatten.filter (·.parent == entry.2)).length = number entry.1)
    {shelf completed : Shelf} (same : work.database = database)
    (stand : List.Forall₂ (Stands database.rows owner relation) records ((rowsAt shelf "").map (·.row)))
    (ran : (loadAll (before ++ step :: rest) shelf).runOn work = (.ok completed, after)) :
    List.Forall₂ (Bears relation number) records (rowsAt completed "") := by
  induction before generalizing work shelf completed with
  | nil =>
    obtain ⟨found, middle, later, ranStep, ranRest, rfl⟩ := loadAll_cons_eq_ok ran
    rw [root] at ranStep
    have lengths := counted _ _ _ _ same stand ranStep
    obtain ⟨⟨_, children⟩, shelf', ⟨-, kept⟩, grown, rfl⟩ := List.forall₂_cons_left_iff.1 (loadAll_grown ranRest)
    have parents := (kept_of_grown grown "").length_eq.symm.trans
      (kept_of_grown (attachAt_grown step found.flatten shelf) "").length_eq.symm
    dsimp only at kept ⊢
    rw [rowsAt_attachAt, if_pos root]
    refine bears_of_attach named isOf ?_ fun entry inside => ?_
    · rw [parents]
      simpa using stand.length_eq.symm
    · rw [← lengths entry inside]
      refine (List.rel_filter (fun old new changed => ?_) kept).length_eq.symm
      exact Iff.of_eq (congrArg (fun at_ => (at_ == entry.2) = true) changed.1.symm)
  | cons other before ih =>
    obtain ⟨⟨rootToo, otherPath, otherName, otherColumn⟩, apart⟩ := List.forall_mem_cons.1 apart
    obtain ⟨found, middle, later, ranOther, ranRest, rfl⟩ := loadAll_cons_eq_ok ran
    have unnamed : ("" == other.path) = false := beq_eq_false_iff_ne.2 (Ne.symm otherPath)
    have standToo : List.Forall₂ (Stands database.rows owner relation) records
        ((rowsAt ((other.path, found.flatten) :: attachAt other found.flatten shelf) "").map (·.row)) := by
      have kept := kept_of_grown (attachAt_grown other found.flatten shelf) ""
      simp only [rowsAt, List.lookup, unnamed] at kept stand ⊢
      rw [List.forall₂_map_right_iff] at stand ⊢
      refine forall₂_trans stand kept fun record old new stands changed => ⟨stands.1, ?_⟩
      refine shows_of_kept stands.2 changed fun name needed puts => ?_
      obtain ⟨_, only, -, rfl⟩ := puts
      obtain rfl := List.mem_singleton.1 only
      exact otherColumn needed
    have bears := ih apart ((mapM_loadQuery_database ranOther).trans same) standToo ranRest
    obtain ⟨⟨path, children⟩, shelf', ⟨samePath, -⟩, -, rfl⟩ := List.forall₂_cons_left_iff.1 (loadAll_grown ranRest)
    obtain rfl : path = other.path := samePath
    have kept := kept_of_grown (attachAt_grown other children shelf') ""
    simp only [rowsAt, List.lookup, unnamed] at bears kept ⊢
    refine forall₂_trans bears kept fun record old new borne changed => ?_
    obtain ⟨children, found, length⟩ := borne
    refine ⟨children, ?_, length⟩
    rw [changed.2 _ ?_, found]
    rintro ⟨_, only, -, sameName⟩
    obtain rfl := List.mem_singleton.1 only
    exact otherName sameName

end Loading

end Plan

/-- A search includes a relation with some filters and no limit, and nothing else that it includes takes the place of what
the relation goes by or of the page. -/
structure Specification.Brings (spec : Specification) (relation : Relation) (filters : List Filter) : Prop where
  listed : relation.name ∈ Plan.includePaths spec.includes
  filters : (Plan.requested spec.includes relation.name).filters = filters
  limit : (Plan.requested spec.includes relation.name).limit = none
  scopes : (Plan.requested spec.includes relation.name).scopes = []
  root : "" ∈ Plan.includePaths spec.includes → relation.name = ""
  columns : ∀ path ∈ Plan.includePaths spec.includes, path ≠ relation.name →
    ∀ column ∈ relation.parentColumns, Path.splitLast path ≠ ("", column)

/-- A row of a search has under the labels of aggregates over a relation and some filters the number of records, or
whether there are any. -/
def Specification.Counts (spec : Specification) (relation : Relation) (filters : List Filter) (number : Nat)
    (row : Members) : Prop :=
  ∀ item ∈ spec.aggregates, item.relation = relation.name → item.filters = filters →
    let label := Text.aggregateLabel item.relation item.measure.name item.field
    (∀ path ∈ Plan.includePaths spec.includes, Path.splitLast path ≠ ("", label)) →
      (item.measure = .count → row.get? label = some (.int number)) ∧
        (item.measure = .presence → row.get? label = some (.bool (0 < number)))

/-- A row of a search tells a number of records, in its aggregates and by what it carries of an include. -/
structure Specification.Tells (spec : Specification) (relation : Relation) (filters : List Filter) (number : Nat)
    (row : Members) : Prop where
  counts : spec.Counts relation filters number row
  carries : spec.Brings relation filters → ∃ children,
    row.get? relation.name = some (Plan.attachment relation.kind.cardinality children) ∧ children.length = number

namespace Plan

variable {graph : Graph} {resource target : Resource} {relation : Relation} {spec : Specification} {plan : Plan}

section Told

variable (sound : graph.Sound) (member : resource ∈ graph.resources) (declared : relation ∈ resource.relations)
  (nestable : relation.isNestable) (plain : Path.IsPlain relation.name) (leadsTo : graph.target relation = .ok target)
include sound member declared nestable plain leadsTo

/-- An aggregate over a relation is one over the records that the relation leads to. -/
theorem outputValue_single {item : Aggregate} {output : Output} (named : item.relation = relation.name)
    (made : aggregate graph resource 0 item = .ok output) (ground : Ground) (frame : Frame) :
    output.key = Text.aggregateLabel item.relation item.measure.name item.field ∧
      outputValue ground frame output = item.measure.taken target.table item.field
        (graph.reachedBy ground.rows [(resource, relation)] target item.filters (frame.getD 0 [])) := by
  obtain ⟨hops, hop, last, walked, ends, leadsToo, key, value⟩ := outputValue_aggregate sound member made
  rw [named, Graph.hops_name (sound _ member) declared nestable leadsTo plain] at walked
  cases walked
  cases ends
  obtain rfl := Except.ok.inj (leadsTo.symm.trans leadsToo)
  exact ⟨key, value ground frame⟩

/-- The step of a relation among the others: those before it put what they bring into the page under other names. -/
private theorem step_of_brings {filters : List Filter} (brings : spec.Brings relation filters) {hops : List Hop}
    (walked : includeHops graph resource (includePaths spec.includes) = .ok hops)
    (loaded : List.Forall₂ (fun hop step => loadHop graph spec.includes hops hop = .ok step) hops plan.includes) :
    ∃ before step rest query, plan.includes = before ++ step :: rest ∧ step.name = relation.name ∧
      step.relation = relation ∧ start step = "" ∧ step.queries = [query] ∧
      step.limit = (requested spec.includes relation.name).limit ∧
      Loads graph resource target relation (requested spec.includes relation.name)
        (requiredColumns hops (some relation.name)) query ∧
      (∀ column ∈ relation.parentColumns, column ∈ requiredColumns hops none) ∧
      ∀ other ∈ before, start other = "" ∧ other.path ≠ "" ∧ other.name ≠ relation.name ∧
        other.name ∉ relation.parentColumns := by
  obtain ⟨earlier, later, split⟩ := List.append_of_mem brings.listed
  have paired : List.Forall₂ (fun path step => ∃ hop ∈ hops, (∃ before, includeHop graph resource before path = .ok hop) ∧
      loadHop graph spec.includes hops hop = .ok step) (includePaths spec.includes) plan.includes :=
    forall₂_trans (forall₂_and_mem (forall₂_of_includeHops walked)) loaded fun path hop step found loads =>
      ⟨hop, found.2.1, found.2.2, loads⟩
  rw [split] at paired
  have before := List.forall₂_take_append _ _ _ paired.flip
  obtain ⟨step, rest, ⟨hop, inside, ⟨_, made⟩, loads⟩, -, after⟩ :=
    List.forall₂_cons_right_iff.1 (List.forall₂_drop_append _ _ _ paired.flip)
  obtain ⟨samePath, sameName, root, parent, rfl, found⟩ := includeHop_of_isPlain plain made
  rw [(sound _ member).relation?_eq declared] at found
  obtain rfl := Option.some.inj found
  obtain ⟨-, sameParent, sameNameToo, sameRelation⟩ := step_of_loadHop loads
  obtain ⟨limit, queries⟩ := loads_of_loadHop loads
  rw [destinations_eq nestable leadsTo] at queries
  obtain ⟨query, none, ⟨-, ofTarget⟩, empty, same⟩ := List.forall₂_cons_left_iff.1 queries
  obtain rfl := List.forall₂_nil_left_iff.1 empty
  have item : searchOf hop.step.relation (requested spec.includes hop.step.path) =
      requested spec.includes hop.step.relation.name := by
    rw [searchOf, if_pos nestable, samePath]
  rw [item, samePath] at ofTarget
  refine ⟨plan.includes.take earlier.length, step, rest, query, ?_, sameNameToo.trans sameName, sameRelation, ?_, same,
    limit.trans (congrArg _ item), ofTarget, fun column needed => ?_, fun other among => ?_⟩
  · rw [← after, List.take_append_drop]
  · rw [start, sameParent, ← start, root]
  · exact List.mem_flatMap.2 ⟨hop, List.mem_filter.2 ⟨inside, by simp [parent]⟩, needed⟩
  · obtain ⟨path, listed, otherHop, -, ⟨_, otherMade⟩, otherLoads⟩ := forall₂_mem_left before among
    have sorted := pairwise_includePaths spec.includes
    have distinct := nodup_includePaths spec.includes
    have among : path ∈ includePaths spec.includes := split ▸ List.mem_append_left _ listed
    rw [split] at sorted distinct
    have short := (List.pairwise_append.1 sorted).2.2 path listed _ List.mem_cons_self
    rw [Path.points_of_isPlain plain, Nat.le_zero, Path.points_eq_zero] at short
    have otherwise : path ≠ hop.step.relation.name := by
      rintro rfl
      exact (List.nodup_append.1 distinct).2.2 _ listed _ List.mem_cons_self rfl
    obtain ⟨pathIs, nameIs, rootToo, -⟩ := includeHop_of_isPlain short otherMade
    obtain ⟨samePathToo, parentToo, nameToo, -⟩ := step_of_loadHop otherLoads
    rw [start, parentToo, ← start, samePathToo, nameToo, pathIs, nameIs]
    refine ⟨rootToo, fun nameless => otherwise ?_, otherwise, fun needed => ?_⟩
    · rw [nameless, brings.root (nameless ▸ among)]
    · exact brings.columns path among otherwise path needed (Path.splitLast_of_isPlain short)

/-- A row that gives the outputs of a query has the number of related records under the labels of aggregates over them. -/
private theorem counted_of_gives {aggregates : List Output} {items : List Aggregate}
    (measured : List.Forall₂ (fun item output => aggregate graph resource 0 item = .ok output) items aggregates)
    {outputs : List Output} (among : aggregates ⊆ outputs) {ground : Ground} {frame : Frame} {row : Members}
    (gives : Gives ground outputs frame row) (nodup : (outputs.map Output.key).Nodup) {item : Aggregate}
    (listed : item ∈ items) (named : item.relation = relation.name) :
    let number := (graph.linked ground.rows resource target relation.link
      { relation := relation.name, filters := item.filters } (frame.getD 0 [])).length
    (item.measure = .count →
      row.get? (Text.aggregateLabel item.relation item.measure.name item.field) = some (.int number)) ∧
    (item.measure = .presence →
      row.get? (Text.aggregateLabel item.relation item.measure.name item.field) = some (.bool (0 < number))) := by
  obtain ⟨output, inside, made⟩ := forall₂_mem_left measured listed
  obtain ⟨key, value⟩ := outputValue_single sound member declared nestable plain leadsTo named made ground frame
  obtain ⟨shown, is, found⟩ := gives.get?_eq nodup (among inside)
  rw [value] at is
  rw [← key, found, Graph.length_linked (sound _ member) declared nestable leadsTo]
  constructor
  · intro same
    rw [same] at is
    exact congrArg some (Except.ok.inj is).symm
  · intro same
    rw [same] at is
    rw [← Except.ok.inj is]
    cases graph.reachedBy ground.rows [(resource, relation)] target item.filters (frame.getD 0 []) <;> simp

/-- The records of the page bear what an include of a relation brings. -/
private theorem bears_of_execute (made : compile graph resource spec = .ok plan) {work after : Work}
    (typed : relation.link.Typed work.database.rows resource target) {filters : List Filter}
    (brings : spec.Brings relation filters) {rows : List Members}
    (results : plan.page.results (ground work.database []) = .ok rows) {shelf : Shelf}
    (loaded : (loadAll plan.includes [("", rows.map (⟨·, 0⟩))]).runOn work.start = (.ok shelf, after)) :
    List.Forall₂ (Bears relation fun record => (graph.linked work.database.rows resource target relation.link
        { relation := relation.name, filters } record).length)
      ((plan.page.frames (ground work.database [])).map (·.getD 0 [])) (rowsAt shelf "") := by
  obtain ⟨hops, shown, aggregates, walked, steps, columns, -, outputs⟩ := outputs_of_compile made
  obtain ⟨before, step, rest, query, split, sameName, sameRelation, root, queries, limit, loads, required, apart⟩ :=
    step_of_brings sound member declared nestable plain leadsTo brings walked steps
  rw [split] at loaded
  have shows : List.Forall₂ (resource.table.Shows relation.parentColumns)
      ((plan.page.frames (ground work.database [])).map (·.getD 0 [])) rows :=
    shows_of_columns columns outputs results fun name needed => .inr (required name needed)
  have stand : List.Forall₂ (Stands work.database.rows resource relation)
      ((plan.page.frames (ground work.database [])).map (·.getD 0 []))
      ((rowsAt [("", rows.map (⟨·, 0⟩))] "").map (·.row)) := by
    simp only [rowsAt, List.lookup, beq_self_eq_true, Option.getD_some, List.map_map, Function.comp_def, List.map_id']
    refine (forall₂_and_mem shows).imp fun record row both => ⟨?_, both.2.2⟩
    have listed := both.1
    obtain ⟨frame, inside, rfl⟩ := List.mem_map.1 listed
    obtain ⟨record, present, rfl⟩ := eq_singleton_of_frames (compiled_of_eq_ok made).source inside
    exact present
  have yields := yields_linked sound (Graph.mem_of_target leadsTo) typed brings.limit brings.scopes
  refine bears_of_loadAll sameName sameRelation root apart (fun parents before after found same stand ran => ?_)
    work.start_database stand loaded
  rw [queries] at ran
  obtain ⟨-, each⟩ := @Job.mapM_eq_ok _ _ _ _ _ _ _ (fun reached => reached.database = work.database) same
    (fun _ _ _ _ kept ran => (loadQuery_database ran).trans kept) ran
  obtain ⟨only, none, ⟨start, finish, kept, running⟩, empty, rfl⟩ := List.forall₂_cons_left_iff.1 each
  obtain rfl := List.forall₂_nil_left_iff.1 empty
  rw [List.flatten_singleton]
  intro entry inside
  refine (yields step _ query _ parents start finish only limit loads kept stand running entry inside).trans ?_
  dsimp only
  rw [Graph.length_linked (sound _ member) declared nestable leadsTo,
    Graph.length_linked (sound _ member) declared nestable leadsTo, brings.filters]

/-- The rows of a page tell the number of the records that a relation leads to, and show the fields of their own. -/
theorem tells_of_execute (made : compile graph resource spec = .ok plan) {work after : Work}
    (typed : relation.link.Typed work.database.rows resource target) (filters : List Filter) {result : SearchResult}
    (ran : plan.execute.runOn work = (.ok result, after)) :
    List.Forall₂ (fun record row => record ∈ work.database.rows resource.table.name ∧
        (∀ fields, spec.Shows resource fields → resource.table.Shows fields record row) ∧
        spec.Tells relation filters (graph.linked work.database.rows resource target relation.link
          { relation := relation.name, filters } record).length row)
      ((plan.page.frames (ground work.database [])).map (·.getD 0 [])) result.rows := by
  have compiled := compiled_of_eq_ok made
  obtain ⟨rows, shelf, results, loaded, rfl⟩ := execute_eq_ok ran
  obtain ⟨hops, shown, aggregates, -, -, columns, measured, outputs⟩ := outputs_of_compile made
  obtain ⟨given, nodup⟩ := Query.gives_of_results results
  have kept : List.Forall₂ (Loaded.Kept (Puts plan.includes "")) (rows.map (⟨·, 0⟩)) (rowsAt shelf "") :=
    kept_of_grown (loadAll_grown loaded) ""
  have each : List.Forall₂ (fun (frame : Frame) (loaded : Loaded) =>
      frame.getD 0 [] ∈ work.database.rows resource.table.name ∧
        (∀ fields, spec.Shows resource fields → resource.table.Shows fields (frame.getD 0 []) loaded.row) ∧
        spec.Counts relation filters (graph.linked work.database.rows resource target relation.link
          { relation := relation.name, filters } (frame.getD 0 [])).length loaded.row)
      (plan.page.frames (ground work.database [])) (rowsAt shelf "") := by
    refine forall₂_trans (forall₂_and_mem given) (List.forall₂_map_left_iff.1 kept)
      fun frame row loaded found same => ?_
    obtain ⟨inside, listed, gives⟩ := found
    refine ⟨?_, fun fields shows => ?_, ?_⟩
    · obtain ⟨record, present, rfl⟩ := eq_singleton_of_frames compiled.source inside
      exact present
    · refine shows_of_kept ?_ same fun name listed => not_puts_of_shows compiled shows listed
      refine shows_of_gives gives (nodup (List.ne_nil_of_mem listed)) fun name asked => ?_
      rw [outputs]
      exact List.mem_append_left _ (mem_columns columns (.inl (shows name asked).1))
    · rintro item asked named rfl label unput
      have among : aggregates ⊆ plan.page.outputs := outputs ▸ List.subset_append_right _ _
      have counted := counted_of_gives sound member declared nestable plain leadsTo measured among gives
        (nodup (List.ne_nil_of_mem listed)) asked named
      rw [same.2 label (not_puts compiled unput)]
      exact counted
  rw [List.forall₂_map_left_iff, List.forall₂_map_right_iff]
  by_cases brings : spec.Brings relation filters
  · have bears := bears_of_execute sound member declared nestable plain leadsTo made typed brings results loaded
    rw [List.forall₂_map_left_iff] at bears
    exact each.mp (fun _ _ found carries => ⟨found.1, found.2.1, found.2.2, fun _ => carries⟩) bears
  · exact each.imp fun _ _ found => ⟨found.1, found.2.1, found.2.2, fun asked => absurd asked brings⟩

end Told

end Plan

namespace Search

/-- Three routes through a relation agree. For each record of its resource one number says how many rows the relation
yields in an include with some filters and no limit, what a search tells by counting and asking for the records that the
filters admit and by including them, and, if the filters are one comparison of a field, whether the record is found by
comparing that field behind the relation. -/
theorem routes_agree {graph : Graph} {resource target : Resource} {relation : Relation} {schema : Schema}
    {declarations : List ResourceDeclaration} {database : Database} (built : Graph.build schema declarations = .ok graph)
    (member : resource ∈ graph.resources) (declared : relation ∈ resource.relations) (nestable : relation.isNestable)
    (plain : Path.IsPlain relation.name) (leadsTo : graph.target relation = .ok target)
    (typed : relation.link.Typed database.rows resource target) (filters : List Filter) :
    let number := fun record => (graph.linked database.rows resource target relation.link
      { relation := relation.name, filters } record).length
    (∀ item : Include, item.filters = filters → item.limit = none → item.scopes = [] →
      Plan.Yields graph database resource target relation item number) ∧
    (∀ spec result, Returned graph resource database spec result → ∃ records : List Row,
      List.Forall₂ (fun record row => record ∈ database.rows resource.table.name ∧
        (∀ fields, spec.Shows resource fields → resource.table.Shows fields record row) ∧
        spec.Tells relation filters (number record) row) records result.rows) ∧
    ∀ field operator value joining, filters = [⟨some field, operator, value, joining, none⟩] →
      ∀ spec result, Returned graph resource database spec result → spec.scopes = [] →
        ∀ joinedBy, spec.filters = [⟨some (relation.name ++ "." ++ field), operator, value, joinedBy, none⟩] →
          let found := inOrder (Plan.fullOrder resource spec.sorts) ((database.rows resource.table.name).filter fun record =>
            resource.isLive record && decide (0 < number record))
          result.total = found.length ∧ ∃ records : List Row, (∀ record ∈ records, record ∈ found) ∧
            List.Forall₂ (fun record row => ∀ fields, spec.Shows resource fields → resource.table.Shows fields record row)
              records result.rows := by
  have sound := Graph.sound_of_build built
  have same (record : Row) (item : Include) : (graph.linked database.rows resource target relation.link item record).length =
      (graph.reachedBy database.rows [(resource, relation)] target item.filters record).length :=
    Graph.length_linked (sound _ member) declared nestable leadsTo item
  intro number
  refine ⟨?_, fun spec result returned => ?_, ?_⟩
  · rintro item rfl unlimited noScopes
    have yields := Plan.yields_linked sound (Graph.mem_of_target leadsTo) typed unlimited noScopes
    simpa only [number, same] using yields
  · obtain ⟨plan, started, finished, made, executed, rfl⟩ := returned.planned
    exact ⟨_, Plan.tells_of_execute sound member declared nestable plain leadsTo made typed filters executed⟩
  · rintro field operator value joining rfl spec result returned noScopes joinedBy asked found
    obtain ⟨plan, started, finished, made, executed, rfl⟩ := returned.planned
    have compiled := Plan.compiled_of_eq_ok made
    have admitted : graph.found started.database.rows resource spec.filters spec.sorts = found := by
      refine congrArg (inOrder _) (List.filter_congr fun record _ => ?_)
      rw [asked, Graph.admits_leaf, Graph.compares_under (sound _ member) declared nestable leadsTo plain]
      refine congrArg (resource.isLive record && ·) (Bool.eq_iff_iff.2 ?_)
      simp [number, same, Graph.reachedBy, Graph.admits_leaf, List.length_pos_iff_exists_mem]
    rw [← admitted]
    have counted : (matching (Plan.ground started.database []) [] (.table plan.resource.table.name) plan.counted).length =
        (graph.found started.database.rows resource spec.filters spec.sorts).length := by
      rw [compiled.isOf]
      exact Plan.length_counted sound member compiled noScopes
    have told := Plan.tells_of_execute sound member declared nestable plain leadsTo made typed
      [⟨some field, operator, value, joining, none⟩] executed
    obtain ⟨rows, shelf, -, -, rfl⟩ := Plan.execute_eq_ok executed
    refine ⟨congrArg _ counted, _, fun record listed => ?_, told.imp fun _ _ both => both.2.1⟩
    obtain ⟨frame, inside, rfl⟩ := List.mem_map.1 listed
    have isFound := Plan.mem_found_of_frames sound member compiled noScopes inside
    exact isFound

/-! ### Persons with children that are compared -/

namespace Counted

open Family

/-- Numbers above one. -/
def compared (field : String) : Filter := ⟨some field, ">", .int 1, .and, none⟩

def comparing (field : String) : Json :=
  .list [.object [("field", .text field), ("operator", .text ">"), ("value", .int 1)]]

/-- A body that counts the children whose number is above one, asks whether there are any, and includes them. -/
def body : Json := .object [
  ("aggregates", .list [
    .object [("relation", .text "children"), ("type", .text "count"), ("filters", comparing "id")],
    .object [("relation", .text "children"), ("type", .text "exists"), ("filters", comparing "id")]]),
  ("includes", .list [.object [("relation", .text "children"), ("filters", comparing "id")]])]

def spec : Specification where
  aggregates := [
    { relation := "children", measure := .count, filters := [compared "id"] },
    { relation := "children", measure := .presence, filters := [compared "id"] }]
  includes := [{ relation := "children", filters := [compared "id"] }]

private theorem accepted : validate graph person body = .ok spec := by rfl

private theorem paths : Plan.includePaths spec.includes = ["children"] := List.mergeSort_singleton _

def isCompared : Cond := .compare .greater Family.id ⟨.integer, .int 1⟩

/-- The value of a measure over the children of a person that are compared. -/
def measuring (label : String) (measure : Measure) (argument : Option ColumnRef) : Output :=
  .measure label measure argument (.table "people") [.linked parentId ⟨1, 0, "id", .integer⟩, isCompared]

def plan : Plan where
  resource := person
  page := {
    outputs := [.column Family.id none, measuring "children_count" .count none,
      measuring "children_exists" .presence (some parentId)]
    source := .table "people"
    aliased := false
    conditions := []
    order := [(Family.id, .desc)]
    page := some (50, 0) }
  counted := []
  key := Family.id
  limit := 50
  pageNumber := 1
  offset := 0
  includes := [
    { path := "children", parentPath := none, name := "children", relation := children,
      queries := [{
        query := {
          outputs := [.column Family.id none, .column parentId (some "__parent_key")]
          source := .table "people"
          aliased := true
          conditions := [.amongParents parentId, isCompared]
          order := [(Family.id, .desc)]
          page := none }
        parentColumn := "id"
        parentType := none }] }]


private theorem aggregates : spec.aggregates.mapM (Plan.aggregate graph person 0) =
    .ok [measuring "children_count" .count none, measuring "children_exists" .presence (some parentId)] := by
  have walked : graph.hops person "children" = .ok [(person, children)] := rfl
  have counts : Text.aggregateLabel "children" Measure.count.name none = "children_count" := by decide +kernel
  have asks : Text.aggregateLabel "children" Measure.presence.name none = "children_exists" := by decide +kernel
  simp only [spec, List.mapM_cons, List.mapM_nil, Plan.aggregate, walked, ok_bind, counts, asks]
  rfl

private theorem plan_of_spec : Plan.compile graph person spec = .ok plan := by
  rw [Plan.compile, paths, aggregates]
  cbv

def result : SearchResult where
  rows := [
    [("id", .int 2), ("children_count", .int 0), ("children_exists", .bool false), ("children", .list [])],
    [("id", .int 1), ("children_count", .int 1), ("children_exists", .bool true),
      ("children", .list [.object [("id", .int 2)]])]]
  total := 2
  limit := 50
  page := 1
  offset := 0

private theorem executed : (plan.execute.runOn { database, events := [.compiled "Person" 50 1 ["children"]] }).1 =
    .ok result := by cbv

private theorem returned : Returned graph person database spec result :=
  .of_execute rfl accepted plan_of_spec executed

/-- A body that asks for the persons who have such children. -/
def bodyBehind : Json := .object [("filters", comparing "children.id")]

def specBehind : Specification := { filters := [compared "children.id"] }

def planBehind : Plan where
  resource := person
  page := {
    outputs := [.column Family.id none]
    source := .table "people"
    aliased := false
    conditions := [.exist parentId (.table "people") [.linked parentId ⟨1, 0, "id", .integer⟩, isCompared]]
    order := [(Family.id, .desc)]
    page := some (50, 0) }
  counted := [.exist parentId (.table "people") [.linked parentId ⟨1, 0, "id", .integer⟩, isCompared]]
  key := Family.id
  limit := 50
  pageNumber := 1
  offset := 0
  includes := []

def resultBehind : SearchResult := { rows := [[("id", .int 1)]], total := 1, limit := 50, page := 1, offset := 0 }

private theorem returnedBehind : Returned graph person database specBehind resultBehind := by
  have accepted : validate graph person bodyBehind = .ok specBehind := by rfl
  have none : Plan.includePaths specBehind.includes = [] := List.mergeSort_nil
  have compiled : Plan.compile graph person specBehind = .ok planBehind := by
    rw [Plan.compile, none]
    cbv
  exact .of_execute rfl accepted compiled (by cbv)

/-- One of two persons has a child with a number above one; all three routes tell so. -/
theorem routes_agree_counted :
    let number := fun record => (graph.linked database.rows person person children.link
      { relation := "children", filters := [compared "id"] } record).length
    Plan.Yields graph database person person children { relation := "children", filters := [compared "id"] } number ∧
      (∃ records : List Row, List.Forall₂ (fun record row => record ∈ database.rows "people" ∧
        (∀ fields, spec.Shows person fields → table.Shows fields record row) ∧
        spec.Tells children [compared "id"] (number record) row) records result.rows) ∧
      resultBehind.total = (inOrder (Plan.fullOrder person []) ((database.rows "people").filter fun record =>
        person.isLive record && decide (0 < number record))).length := by
  intro number
  have declared : children ∈ person.relations := List.mem_cons_of_mem _ (List.mem_singleton_self children)
  have agree := routes_agree graph_of_declaration (List.mem_singleton_self person) declared rfl (by decide) rfl
    (Family.typed person (List.mem_singleton_self _) children declared person (List.mem_singleton_self _)) [compared "id"]
  obtain ⟨yields, tells, behind⟩ := agree
  exact ⟨yields _ rfl rfl rfl, tells spec result returned,
    (behind "id" ">" (.int 1) .and rfl specBehind resultBehind returnedBehind rfl .and rfl).1⟩

end Counted

end Search

end ResourceApi
