import ResourceApi.Proofs.Search.Alike

/-!
What queries answer on tables that are alike. A query for the page of a search, or for the records of an include, goes by
the columns that its filters, order, aggregates and relations read; where these have the same cells, its rows are the same.
-/

namespace ResourceApi

open Outcome Query

/-! ## Orders and measures -/

theorem Query.sortOrder_congr {columns : String → Prop} {keys : List (String × Direction)}
    (read : ∀ key ∈ keys, columns key.1) {a b c d : Row} (first : a.Agrees columns c) (second : b.Agrees columns d) :
    sortOrder keys a b = sortOrder keys c d := by
  induction keys with
  | nil => rfl
  | cons key rest ih =>
    obtain ⟨here, later⟩ := List.forall_mem_cons.1 read
    simp only [sortOrder, first _ here, second _ here, ih later]

theorem Query.forall₂_firstInOrder {columns : String → Prop} {r : Frame → Frame → Prop} {frames others : List Frame}
    (related : List.Forall₂ r frames others)
    (agree : ∀ frame other, r frame other → Row.Agrees columns (frame.getD 0 []) (other.getD 0 []))
    {keys : List (String × Direction)} (read : ∀ key ∈ keys, columns key.1) :
    List.Forall₂ r (firstInOrder keys frames) (firstInOrder keys others) :=
  forall₂_mergeSort related fun _ _ _ _ first second => by
    rw [sortOrder_congr read (agree _ _ first) (agree _ _ second)]

theorem Measure.taken_congr {measure : Measure} {table : Table} {field : Option String} {columns : String → Prop}
    {records others : List Row} (agree : List.Forall₂ (Row.Agrees columns) records others)
    (read : measure ∈ Measure.ofField → ∃ name, field = some name ∧ columns name) :
    measure.taken table field records = measure.taken table field others := by
  have ofField (listed : measure ∈ Measure.ofField) :
      records.map (·.cell (field.getD "")) = others.map (·.cell (field.getD "")) := by
    obtain ⟨name, rfl, present⟩ := read listed
    exact map_eq_of_forall₂ agree fun row other both => both _ present
  cases measure with
  | count => simp only [taken, agree.length_eq]
  | presence => cases agree <;> rfl
  | min | max | avg | sum =>
    have cells := ofField (by decide)
    simp only [taken, cells]

/-! ## What a search reads -/

/-- Whether the columns that an aggregate goes by are read, of the resource behind its relations. -/
def Aggregate.Opens (graph : Graph) (reads : String → String → Prop) (resource : Resource) (item : Aggregate) : Prop :=
  ∀ hops hop target, graph.hops resource item.relation = .ok hops → hops.getLast? = some hop →
    graph.target hop.2 = .ok target →
      (item.measure ∈ Measure.ofField → ∀ name, item.field = some name → reads target.table.name name) ∧
        ∀ name ∈ Filter.namesOfAll item.filters, graph.Opens reads target name

/-- Whether the columns that a search or an include of a resource goes by are read. -/
structure Search.Opens (graph : Graph) (reads : String → String → Prop) (resource : Resource) (filters : List Filter)
    (sorts : List SortKey) (selects : List String) (aggregates : List Aggregate) : Prop where
  filters : ∀ name ∈ Filter.namesOfAll filters, graph.Opens reads resource name
  order : ∀ key ∈ Plan.fullOrder resource sorts, reads resource.table.name key.1
  shown : ∀ name ∈ Plan.askedFields resource selects, reads resource.table.name name
  aggregates : ∀ item ∈ aggregates, item.Opens graph reads resource

/-- Where all columns are read, any search goes by columns that are. -/
theorem Search.Opens.all (graph : Graph) (resource : Resource) (filters : List Filter) (sorts : List SortKey)
    (selects : List String) (aggregates : List Aggregate) :
    Search.Opens graph (fun _ _ => True) resource filters sorts selects aggregates := by
  have field (resource : Resource) (name : String) : graph.Opens (fun _ _ => True) resource name := by
    unfold Graph.Opens
    split
    · trivial
    · exact fun _ _ _ _ _ _ => trivial
  exact {
    filters := fun name _ => field resource name
    order := fun _ _ => trivial
    shown := fun _ _ => trivial
    aggregates := fun _ _ _ _ target _ _ _ => ⟨fun _ _ _ => trivial, fun name _ => field target name⟩ }

/-! ## Rows of queries -/

/-- Queries whose rows stand one for one, and whose outputs have the same values for them, have the same result. -/
theorem Query.results_congr {query : Query} {ground other : Ground} {r : Frame → Frame → Prop}
    (rows : List.Forall₂ r (query.frames ground) (query.frames other))
    (values : ∀ output ∈ query.outputs, ∀ frame another, r frame another →
      outputValue ground frame output = outputValue other another output) :
    query.results ground = query.results other := by
  have found := mapM_eq_of_forall₂ rows
    (f := fun frame => query.outputs.mapM fun output => do return (output.key, ← outputValue ground frame output))
    (g := fun frame => query.outputs.mapM fun output => do return (output.key, ← outputValue other frame output))
    fun frame another both => mapM_eq_of_forall₂ (r := fun a b => a = b ∧ a ∈ query.outputs)
      (List.forall₂_same.2 fun output inside => ⟨rfl, inside⟩) fun output _ found => by
        obtain ⟨rfl, inside⟩ := found
        rw [values output inside frame another both]
  rw [Query.results, Query.results, found]

namespace Plan

variable {graph : Graph} {reads : String → String → Prop} {rows others : String → List Row} {resource : Resource}
  (sound : graph.Sound) (alike : graph.Alike reads rows others) (follows : graph.Follows reads)
include sound alike follows

/-- An aggregate has the same value for rows that agree. -/
theorem outputValue_aggregate_congr (member : resource ∈ graph.resources) {slot : Nat} {item : Aggregate} {output : Output}
    (made : aggregate graph resource slot item = .ok output) (opens : item.Opens graph reads resource)
    {frame other : Frame} (agree : Row.Agrees (reads resource.table.name) (frame.getD slot []) (other.getD slot []))
    (parents : List Cell) : outputValue ⟨rows, parents⟩ frame output = outputValue ⟨others, parents⟩ other output := by
  obtain ⟨hops, hop, target, walked, ends, leadsTo, -, value⟩ := outputValue_aggregate sound member made
  simp only [aggregate, bind_eq_ok, pure_eq_ok] at made
  obtain ⟨_, walkedToo, path, joined, filtered, ofFilters, _, ofField, -⟩ := made
  obtain rfl := Except.ok.inj (walked.symm.trans walkedToo)
  obtain ⟨_, endsToo, leadsToo⟩ := RelatedPath.target_of_ofHops joined
  obtain rfl := Option.some.inj (ends.symm.trans endsToo)
  obtain rfl := Except.ok.inj (leadsTo.symm.trans leadsToo)
  obtain ⟨fieldRead, filtersRead⟩ := opens _ _ _ walked ends leadsTo
  have reached := alike.reached follows member (Graph.chained_of_walk walked) (RelatedPath.isNestable_of_ofHops joined) ends
    leadsTo agree
  rw [value, value]
  refine Measure.taken_congr (forall₂_filter reached fun record another both => ?_) fun listed => ?_
  · exact alike.admits follows (Graph.mem_of_target leadsTo) both ofFilters filtersRead
  · rcases argument_eq_ok ofField with presence | ⟨count, -⟩ | ⟨-, name, named, -⟩
    · exact absurd (presence ▸ listed) (by decide)
    · exact absurd (count ▸ listed) (by decide)
    · exact ⟨name, named, fieldRead listed name named⟩

/-! ### The page -/

section Page

variable (member : resource ∈ graph.resources) {spec : Specification} {plan : Plan}
  (compiled : Compiled graph resource spec plan) (noScopes : spec.scopes = [])
  (filtersRead : ∀ name ∈ Filter.namesOfAll spec.filters, graph.Opens reads resource name) (parents : List Cell)
include member compiled noScopes filtersRead

/-- The rows that meet the conditions of a search stand one for one. -/
theorem forall₂_counted :
    List.Forall₂ (fun frame other => Row.Agrees (reads resource.table.name) (frame.getD 0 []) (other.getD 0 []))
      (matching ⟨rows, parents⟩ [] (.table resource.table.name) plan.counted)
      (matching ⟨others, parents⟩ [] (.table resource.table.name) plan.counted) := by
  obtain ⟨scopes, filters, -, ofFilters, -⟩ := compiled.counted
  have split (rows : String → List Row) :
      (matching ⟨rows, parents⟩ [] (.table resource.table.name) plan.counted).map (·.getD 0 []) =
        ((rows resource.table.name).filter resource.isLive).filter (graph.admits rows resource spec.filters) := by
    rw [matching_counted sound member compiled noScopes, List.filter_filter]
    exact List.filter_congr fun record _ => Bool.and_comm _ _
  have found := forall₂_filter (alike.live resource member) fun record other agree =>
    alike.admits follows member agree ofFilters filtersRead
  rwa [← split, ← split, List.forall₂_map_left_iff, List.forall₂_map_right_iff] at found

/-- The rows of the page stand one for one. -/
theorem forall₂_page (orderRead : ∀ key ∈ fullOrder resource spec.sorts, reads resource.table.name key.1) :
    List.Forall₂ (fun frame other => Row.Agrees (reads resource.table.name) (frame.getD 0 []) (other.getD 0 []))
      (plan.page.frames ⟨rows, parents⟩) (plan.page.frames ⟨others, parents⟩) := by
  obtain ⟨own, same⟩ := sortOrder_of_order compiled.order
  have paged {frames others : List Frame} {r : Frame → Frame → Prop} (related : List.Forall₂ r frames others) :
      List.Forall₂ r (paged plan.page.page frames) (paged plan.page.page others) := by
    unfold Query.paged
    split
    · exact related
    · dsimp only
      split
      · exact List.forall₂_drop _ related
      · exact List.forall₂_take _ (List.forall₂_drop _ related)
  have sorted (frames : List Frame) : sorted plan.page.order frames = firstInOrder (fullOrder resource spec.sorts) frames := by
    rw [sorted_eq_firstInOrder own]
    simp only [firstInOrder, same]
  rw [Query.frames, Query.frames, compiled.source, compiled.conditions, sorted, sorted]
  exact paged (forall₂_firstInOrder (forall₂_counted sound alike follows member compiled noScopes filtersRead parents)
    (fun _ _ => id) orderRead)

end Page

/-- The query of the page gives the same rows. -/
theorem results_page (member : resource ∈ graph.resources) {spec : Specification} {plan : Plan}
    (made : compile graph resource spec = .ok plan) (noScopes : spec.scopes = [])
    (opens : Search.Opens graph reads resource spec.filters spec.sorts spec.selects spec.aggregates)
    (needed : ∀ hops, includeHops graph resource (includePaths spec.includes) = .ok hops →
      ∀ name ∈ requiredColumns hops none, reads resource.table.name name) (parents : List Cell) :
    plan.page.results ⟨rows, parents⟩ = plan.page.results ⟨others, parents⟩ := by
  obtain ⟨hops, shown, aggregates, walked, -, columns, measured, outputs⟩ := outputs_of_compile made
  refine results_congr (forall₂_page sound alike follows member (compiled_of_eq_ok made) noScopes opens.filters parents
    opens.order) fun output inside frame other agree => ?_
  rw [outputs] at inside
  rcases List.mem_append.1 inside with column | aggregated
  · obtain ⟨name, label, asked, rfl⟩ := exists_of_mem_columns columns column
    have read : reads resource.table.name name := asked.elim (opens.shown name) (needed hops walked name)
    simp only [outputValue, cellOf, Table.ref, List.getD_cons_zero, agree name read]
  · obtain ⟨item, asked, made⟩ := forall₂_mem_right measured aggregated
    exact outputValue_aggregate_congr sound alike follows member made (opens.aggregates item asked) agree parents

/-! ### Includes -/

omit sound alike follows in
/-- What an include shows of the related side beside its records are columns of its link. -/
theorem column_of_added {owner target : Resource} {relation : Relation} {slot : Nat} {related : Related}
    (built : Related.ofTarget owner relation target slot = .ok related) {column : ColumnRef}
    (inside : column ∈ related.matching :: related.pivotColumns) :
    ∃ name, ((relation.link.matchedTable target).name, name) ∈ relation.link.columns owner target ∧
      column = (relation.link.matchedTable target).ref 0 (slot + relation.link.matchedPlace) name := by
  rcases List.mem_cons.1 inside with rfl | joined
  · refine ⟨relation.link.matchedColumn, ?_, (Related.matching_eq built).1⟩
    cases relation.link <;> simp [Link.columns, Link.matchedTable, Link.matchedColumn]
  · unfold Related.ofTarget at built
    cases same : relation.link with
    | child link =>
      simp only [same, Related.ofChild, bind_eq_ok, pure_eq_ok] at built
      obtain ⟨_, -, _, -, rfl⟩ := built
      cases joined
    | parent link | through link =>
      simp only [same] at built
      cases built
      cases joined
    | pivot link =>
      simp only [same, Related.ofPivot, bind_eq_ok, pure_eq_ok] at built
      obtain ⟨_, -, rfl⟩ := built
      obtain ⟨name, listed, rfl⟩ := List.mem_map.1 joined
      exact ⟨name, by simp [Link.columns, Link.matchedTable, listed], rfl⟩

section Include

variable {owner target : Resource} {relation : Relation} (member : owner ∈ graph.resources)
  (declared : relation ∈ owner.relations) (leadsTo : target ∈ graph.destinations relation) {related : Related}
  (built : Related.ofTarget owner relation target 0 = .ok related)
include member declared leadsTo built

omit sound alike in
private theorem cellOf_added {column : ColumnRef} (inside : column ∈ related.matching :: related.pivotColumns)
    {frame other : Frame} (agree : relation.link.Agrees reads target frame other) :
    cellOf [frame] column = cellOf [other] column := by
  obtain ⟨name, listed, rfl⟩ := column_of_added built inside
  have read := follows owner member relation declared target leadsTo _ listed
  simpa [cellOf, Table.ref] using agree.2 name read

variable {item : Include} {required : List String} {query : Query}
  (made : includeQuery graph related item required = .ok query) (noScopes : item.scopes = [])
include made noScopes

/-- The rows of an include stand one for one. -/
theorem forall₂_included (filtersRead : ∀ name ∈ Filter.namesOfAll item.filters, graph.Opens reads target name)
    (orderRead : ∀ key ∈ fullOrder target item.sorts, reads target.table.name key.1) (parents : List Cell) :
    List.Forall₂ (relation.link.Agrees reads target) (query.frames ⟨rows, parents⟩) (query.frames ⟨others, parents⟩) := by
  have targetMember := Graph.mem_of_mem_destinations leadsTo
  obtain ⟨filters, -, -, ofFilters, -⟩ := includeQuery_eq_ok made noScopes
  obtain ⟨-, sameTarget, -⟩ := Related.ofTarget_eq_ok built
  rw [sameTarget] at ofFilters
  have split (rows : String → List Row) : query.frames ⟨rows, parents⟩ = firstInOrder (fullOrder target item.sorts)
      (((relation.link.frames rows target).filter (relation.link.accepts rows owner target)).filter fun frame =>
        holds ⟨rows, parents⟩ [frame] (.amongParents related.matching) &&
          graph.admits rows target item.filters (frame.getD 0 [])) := by
    rw [frames_includeQuery sound targetMember built made noScopes, List.filter_filter]
    refine congrArg (firstInOrder _) (List.filter_congr fun frame _ => ?_)
    exact Bool.and_right_comm _ _ _
  rw [split, split]
  refine forall₂_firstInOrder (forall₂_filter (alike.accepted follows member declared leadsTo) fun frame other agree => ?_)
    (fun frame other agree => agree.1) orderRead
  have cells := cellOf_added follows member declared leadsTo built List.mem_cons_self agree
  simp only [holds, truth, cells, alike.admits follows targetMember agree.1 ofFilters filtersRead]

/-- The query of an include gives the same rows. -/
theorem results_included
    (opens : Search.Opens graph reads target item.filters item.sorts item.selects item.aggregates)
    (needed : ∀ name ∈ required, reads target.table.name name) (parents : List Cell) :
    query.results ⟨rows, parents⟩ = query.results ⟨others, parents⟩ := by
  obtain ⟨-, shown, aggregates, -, columns, -, -, -, -, measured, outputs⟩ := includeQuery_eq_ok made noScopes
  obtain ⟨-, rfl, start⟩ := Related.ofTarget_eq_ok built
  rw [start] at columns measured
  refine results_congr (forall₂_included sound alike follows member declared leadsTo built made noScopes opens.filters
    opens.order parents) fun output inside frame other agree => ?_
  rw [outputs, List.append_assoc] at inside
  rcases List.mem_append.1 inside with column | inside
  · obtain ⟨name, label, asked, rfl⟩ := exists_of_mem_columns columns column
    have present : reads related.target.table.name name := asked.elim (opens.shown name) (needed name)
    simp only [outputValue, cellOf, Table.ref, List.getD_cons_zero, agree.1 name present]
  rcases List.mem_append.1 inside with aggregated | added
  · obtain ⟨item, asked, made⟩ := forall₂_mem_right measured aggregated
    exact outputValue_aggregate_congr sound alike follows (Graph.mem_of_mem_destinations leadsTo) made
      (opens.aggregates item asked) agree.1 parents
  · obtain ⟨column, label, listed, rfl⟩ : ∃ column label,
        column ∈ related.matching :: related.pivotColumns ∧ output = .column column label := by
      rcases List.mem_cons.1 added with rfl | joined
      · exact ⟨_, _, List.mem_cons_self, rfl⟩
      · obtain ⟨column, listed, rfl⟩ := List.mem_map.1 joined
        exact ⟨column, _, List.mem_cons_of_mem _ listed, rfl⟩
    rw [outputValue, outputValue, cellOf_added follows member declared leadsTo built listed agree]

end Include

end Plan

end ResourceApi
