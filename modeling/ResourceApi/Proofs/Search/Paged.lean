import ResourceApi.Proofs.Search.Shown

/-!
The records of a search and the page of them that its query takes. Counting and paging go by the same records: those
that are not deleted and that the filters admit, in an order in which the key comes last.
-/

namespace ResourceApi

open Outcome Query

namespace Plan

/-- The order of the records of a search: the one asked for, then the key. -/
def fullOrder (resource : Resource) (sorts : List SortKey) : List (String × Direction) :=
  askedOrder resource sorts ++ [(resource.key, .asc)]

end Plan

/-- The records that a search finds, in their order. -/
def Graph.found (graph : Graph) (rows : String → List Row) (resource : Resource) (filters : List Filter)
    (sorts : List SortKey) : List Row :=
  inOrder (Plan.fullOrder resource sorts) <|
    (rows resource.table.name).filter fun record =>
      resource.isLive record && graph.admits rows resource filters record

/-- A search finds the records that are not deleted and that its filters admit. -/
theorem Graph.mem_found {graph : Graph} {rows : String → List Row} {resource : Resource} {filters : List Filter}
    {sorts : List SortKey} {record : Row} : record ∈ graph.found rows resource filters sorts ↔
      record ∈ rows resource.table.name ∧ resource.isLive record ∧ graph.admits rows resource filters record := by
  rw [Graph.found, (inOrder_perm _ _).mem_iff, List.mem_filter, Bool.and_eq_true]

theorem Graph.mem_rows_of_found {graph : Graph} {rows : String → List Row} {resource : Resource} {filters : List Filter}
    {sorts : List SortKey} {record : Row} (found : record ∈ graph.found rows resource filters sorts) :
    record ∈ rows resource.table.name :=
  (mem_found.1 found).1

namespace Plan

variable {graph : Graph} {resource : Resource}

/-! ## The order -/

private theorem keyColumn_eq_ok {slot : Nat} {ref : ColumnRef} (found : keyColumn resource slot = .ok ref) :
    ref = resource.table.ref 0 slot resource.key := by
  unfold keyColumn at found
  cases present : resource.table.column? resource.key with
  | none =>
    rw [present] at found
    cases found
  | some column =>
    rw [present] at found
    cases found
    simp [Table.ref, present]

private theorem listed_of_order {asked : List (String × Direction)} {listed : List (ColumnRef × Direction)}
    (made : List.Forall₂ (fun entry result => (do return (← ownColumn resource 0 entry.1, entry.2)) = Except.ok result)
      asked listed) : (∀ entry ∈ listed, IsOwn entry.1) ∧ orderKeys listed = asked := by
  induction made with
  | nil => simp [orderKeys]
  | @cons entry result asked listed here _ ih =>
    obtain ⟨own, keys⟩ := ih
    simp only [bind_eq_ok, pure_eq_ok] at here
    obtain ⟨ref, found, rfl⟩ := here
    obtain rfl := ownColumn_eq_ok found
    refine ⟨List.forall_mem_cons.2 ⟨⟨rfl, rfl⟩, own⟩, ?_⟩
    rw [orderKeys, List.map_cons, ← orderKeys, keys]
    rfl

/-- A compiled order is one of own columns, and it is the order asked for with the key behind it. -/
theorem sortOrder_of_order {sorts : List SortKey} {compiled : List (ColumnRef × Direction)}
    (made : order resource 0 sorts = .ok compiled) :
    (∀ entry ∈ compiled, IsOwn entry.1) ∧
      ∀ a b, sortOrder (orderKeys compiled) a b = sortOrder (fullOrder resource sorts) a b := by
  obtain ⟨listed, found, after⟩ := bind_eq_ok.1 made
  obtain ⟨own, keys⟩ := listed_of_order (mapM_eq_ok.1 found)
  split at after
  · next present =>
    cases after
    refine ⟨own, fun a b => ?_⟩
    have again : resource.key ∈ (askedOrder resource sorts).map (·.1) := by simpa using present
    rw [keys, fullOrder, sortOrder_again again]
  · simp only [bind_eq_ok, pure_eq_ok] at after
    obtain ⟨ref, key, rfl⟩ := after
    obtain rfl := keyColumn_eq_ok key
    refine ⟨?_, fun a b => ?_⟩
    · intro entry inside
      rcases List.mem_append.1 inside with asked | last
      · exact own entry asked
      · rw [List.mem_singleton.1 last]
        exact ⟨rfl, rfl⟩
    · have same : orderKeys (listed ++ [(resource.table.ref 0 0 resource.key, .asc)]) = fullOrder resource sorts := by
        rw [fullOrder, ← keys]
        simp [orderKeys, Table.ref]
      rw [same]

/-! ## The page -/

/-- The parts of a plan. -/
structure Compiled (graph : Graph) (resource : Resource) (spec : Specification) (plan : Plan) : Prop where
  isOf : plan.resource = resource
  pageNumber : plan.pageNumber = max spec.page 1
  limit : pageLimit resource spec.limit = .ok plan.limit
  offset : plan.offset = (plan.pageNumber - 1) * plan.limit
  source : plan.page.source = .table resource.table.name
  counted : ∃ scopes filters, scopeConditions resource 0 spec.scopes = .ok scopes ∧
    filtersCondition graph resource 0 spec.filters = .ok filters ∧
    plan.counted = Cond.conjuncts (Related.alive resource 0 ++ scopes ++ filters)
  conditions : plan.page.conditions = plan.counted
  order : order resource 0 spec.sorts = .ok plan.page.order
  paged : plan.page.page = some (plan.limit, plan.offset)
  hops : ∃ hops shown aggregates, includeHops graph resource (includePaths spec.includes) = .ok hops ∧
    List.Forall₂ (fun hop step => loadHop graph spec.includes hops hop = .ok step) hops plan.includes ∧
    columns resource 0 spec.selects (requiredColumns hops none) = .ok shown ∧ plan.page.outputs = shown ++ aggregates

theorem compiled_of_eq_ok {spec : Specification} {plan : Plan} (made : compile graph resource spec = .ok plan) :
    Compiled graph resource spec plan := by
  simp only [compile, bind_eq_ok, pure_eq_ok] at made
  obtain ⟨scopes, ofScopes, filters, ofFilters, key, -, hops, walked, includes, loaded, shown, columns, order, ordered,
    aggregates, -, limit, sized, rfl⟩ := made
  exact {
    isOf := rfl
    pageNumber := rfl
    limit := sized
    offset := rfl
    source := rfl
    counted := ⟨scopes, filters, ofScopes, ofFilters, rfl⟩
    conditions := rfl
    order := ordered
    paged := rfl
    hops := ⟨hops, shown, aggregates, walked, mapM_eq_ok.1 loaded, columns, rfl⟩ }

/-- The rows of a query are some of those that meet its conditions, in their order. -/
private theorem mem_sorted_of_frames {query : Query} {ground : Ground} {frame : Frame}
    (inside : frame ∈ query.frames ground) :
    frame ∈ sorted query.order (matching ground [] query.source query.conditions) := by
  unfold Query.frames Query.paged at inside
  split at inside
  · exact inside
  · dsimp only at inside
    split at inside
    · exact List.mem_of_mem_drop inside
    · exact List.mem_of_mem_drop (List.mem_of_mem_take inside)

/-- The rows that a query takes of a table are records of it. -/
theorem mem_rows_of_frames {query : Query} {ground : Ground} {name : String} (source : query.source = .table name)
    {frame : Frame} (inside : frame ∈ query.frames ground) : frame.getD 0 [] ∈ ground.rows name := by
  have taken := mem_sorted_of_frames inside
  rw [sorted, List.mem_mergeSort, matching, source, extend] at taken
  obtain ⟨record, listed, rfl⟩ := List.mem_map.1 (List.mem_of_mem_filter taken)
  exact listed

section Found

variable (sound : graph.Sound) (member : resource ∈ graph.resources) {spec : Specification} {plan : Plan}
  (compiled : Compiled graph resource spec plan) (noScopes : spec.scopes = []) {ground : Ground}
include sound member compiled noScopes

/-- The rows that meet the conditions are those that are not deleted and that the filters admit. -/
theorem matching_counted :
    (matching ground [] (.table resource.table.name) plan.counted).map (·.getD 0 []) =
      (ground.rows resource.table.name).filter fun record =>
        resource.isLive record && graph.admits ground.rows resource spec.filters record := by
  obtain ⟨scopes, filters, ofScopes, ofFilters, same⟩ := compiled.counted
  rw [noScopes] at ofScopes
  obtain rfl : [] = scopes := Except.ok.inj ofScopes
  rw [matching_eq_filter, extend, same]
  simp only [List.nil_append, List.filter_map, List.map_map]
  rw [show (fun frame : Frame => frame.getD 0 []) ∘ (fun row => [row]) = id from rfl, List.map_id]
  refine List.filter_congr fun record _ => ?_
  rw [Function.comp_apply, all_conjuncts, List.append_nil, List.all_append, all_alive,
    holds_filtersCondition sound member ofFilters]
  rfl

/-- As many rows are counted as there are records of the search. -/
theorem length_counted :
    (matching ground [] (.table resource.table.name) plan.counted).length =
      (graph.found ground.rows resource spec.filters spec.sorts).length := by
  rw [← List.length_map (fun frame : Frame => frame.getD 0 []),
    matching_counted sound member compiled noScopes, Graph.found, (inOrder_perm _ _).length_eq]

/-- The rows that the page is cut out of are the records of the search. -/
private theorem sorted_counted :
    (sorted plan.page.order (matching ground [] plan.page.source plan.page.conditions)).map (·.getD 0 []) =
      graph.found ground.rows resource spec.filters spec.sorts := by
  obtain ⟨own, same⟩ := sortOrder_of_order compiled.order
  rw [sorted_head own, compiled.source, compiled.conditions, matching_counted sound member compiled noScopes, Graph.found,
    inOrder, inOrder]
  simp only [same]

/-- Every row of the page is a record of the search. -/
theorem mem_found_of_frames {frame : Frame} (inside : frame ∈ plan.page.frames ground) :
    frame.getD 0 [] ∈ graph.found ground.rows resource spec.filters spec.sorts := by
  rw [← sorted_counted sound member compiled noScopes]
  exact List.mem_map_of_mem (mem_sorted_of_frames inside)

/-- The rows of the page are those records of the search that stand at its places. -/
theorem page_frames (positive : 0 < plan.limit) :
    (plan.page.frames ground).map (·.getD 0 []) =
      ((graph.found ground.rows resource spec.filters spec.sorts).drop plan.offset.toNat).take plan.limit.toNat := by
  have notNegative : ¬plan.limit < 0 := by omega
  rw [frames, compiled.paged, paged]
  simp only [notNegative, if_false, List.map_take, List.map_drop]
  rw [sorted_counted sound member compiled noScopes]

end Found

end Plan

end ResourceApi
