import ResourceApi.Proofs.Search.Handed
import ResourceApi.Proofs.Search.Measured

/-!
Reading what the storage gives. The rows of a database whose cells can be read are read without a failure that clients are
not told about, as long as no sum is taken of moments.
-/

namespace ResourceApi

open Outcome Query

/-- A cell that can be read as a value of a type, and that is no integer beyond a word. -/
structure ColumnType.Reads (type : ColumnType) (cell : Cell) : Prop where
  shown : ∃ value, cell.shown type = .ok value
  fits : ∀ n, cell = .int n → Word.holds n

/-- Rows whose cells can be read as values of the columns of a table. -/
def Table.Reads (table : Table) (rows : List Row) : Prop :=
  ∀ row ∈ rows, ∀ name, (table.ref 0 0 name).type.Reads (row.cell name)

/-- Rows that can be read, those of the resources and those between them. -/
structure Graph.Reads (graph : Graph) (rows : String → List Row) : Prop where
  resources : ∀ resource ∈ graph.resources, resource.table.Reads (rows resource.table.name)
  between : ∀ resource ∈ graph.resources, ∀ relation ∈ resource.relations, ∀ table,
    relation.link.middle? = some table → table.Reads (rows table.name)

/-- An aggregate that takes no sum of a field by whose name a resource has moments. -/
def Aggregate.AddsNumbers (graph : Graph) (item : Aggregate) : Prop :=
  item.measure = .sum → ∀ resource ∈ graph.resources, (resource.table.ref 0 0 (item.field.getD "")).type ≠ .datetime

/-! ## Cells -/

namespace ColumnType.Reads

variable {type : ColumnType} {cell : Cell}

theorem null (type : ColumnType) : type.Reads .null where
  shown := ⟨.null, by cases type <;> rfl⟩
  fits _ same := by cases same

theorem told (reads : type.Reads cell) : Tells (cell.shown type) := by
  obtain ⟨value, shown⟩ := reads.shown
  exact Delivers.of_eq_ok shown trivial

end ColumnType.Reads

/-- A cell is read as anything but a moment. -/
theorem Cell.shown_told {type : ColumnType} (other : type ≠ .datetime) (cell : Cell) : Tells (cell.shown type) := by
  cases type with
  | datetime => exact absurd rfl other
  | integer | string | float => cases cell <;> trivial

/-- A value that can be the key of a parent. -/
structure Json.CanKey (value : Json) : Prop where
  scalar : value.isScalar
  fits : value.FitsWord

theorem Json.CanKey.null : Json.CanKey .null := ⟨rfl, fun _ same => Json.noConfusion same⟩

/-- What is read of a cell can be the key of a parent. -/
theorem ColumnType.Reads.canKey {type : ColumnType} {cell : Cell} {value : Json} (reads : type.Reads cell)
    (shown : cell.shown type = .ok value) : value.CanKey := by
  have text (s : String) : (Json.text s).CanKey := ⟨rfl, Json.text_fitsWord s⟩
  unfold Cell.shown at shown
  split at shown
  · cases shown
    exact .null
  · split at shown
    · cases shown
      exact text _
    · cases shown
  · cases shown
  · cases shown
    exact ⟨rfl, fun n same => Json.int.inj same ▸ reads.fits _ rfl⟩
  · cases shown
    exact ⟨rfl, fun _ same => Json.noConfusion same⟩
  · cases shown
    exact text _

/-! ## Measures -/

private theorem foldl_mem {α : Type} (better : α → α → Bool) (first : α) (rest : List α) :
    rest.foldl (fun best item => if better item best then item else best) first ∈ first :: rest := by
  induction rest generalizing first with
  | nil => exact List.mem_cons_self
  | cons item rest ih =>
    rw [List.foldl_cons]
    split
    · exact List.mem_cons_of_mem first (ih item)
    · rcases List.mem_cons.1 (ih first) with same | later
      · exact List.mem_cons.2 (.inl same)
      · exact List.mem_cons_of_mem first (List.mem_cons_of_mem item later)

/-- An extreme is null or one of the cells. -/
theorem Query.extremeOf_mem (extreme : Extreme) (cells : List Cell) :
    extremeOf extreme cells = .null ∨ extremeOf extreme cells ∈ cells := by
  unfold extremeOf
  dsimp only
  split
  · exact .inl rfl
  · next first rest known =>
    have inside := foldl_mem (fun a b => Cell.order a b == (if extreme = .max then .gt else .lt)) first rest
    rw [← known] at inside
    exact .inr (List.mem_of_mem_filter inside)

theorem Query.measured_told (measure : Measure) (cells : List Cell) : Tells (measured measure cells) := by
  unfold measured
  dsimp only
  split
  any_goals trivial
  · split
    · trivial
    · split
      · rfl
      · trivial
      · trivial
  · split <;> trivial

namespace Graph

variable {graph : Graph} {rows : String → List Row}

/-- Records that are reached by hops are records of the resource that the last hop leads to. -/
theorem mem_of_mem_reached {hops : List (Resource × Relation)} {hop : Resource × Relation} {target : Resource}
    (ends : hops.getLast? = some hop) (leadsTo : graph.target hop.2 = .ok target) {record found : Row}
    (reached : found ∈ graph.reached rows hops record) : found ∈ rows target.table.name := by
  induction hops generalizing record with
  | nil => cases ends
  | cons first rest ih =>
    obtain ⟨owner, relation⟩ := first
    rw [Graph.reached] at reached
    split at reached
    · next next leads =>
      obtain ⟨frame, listed, further⟩ := List.mem_flatMap.1 reached
      cases rest with
      | nil =>
        obtain rfl := Option.some.inj ends
        obtain rfl := Except.ok.inj (leads.symm.trans leadsTo)
        rw [Graph.reached, List.mem_singleton] at further
        exact further ▸ (Link.mem_of_mem_frames (List.mem_of_mem_filter listed)).1
      | cons second others => exact ih (by simpa [List.getLast?_cons_cons] using ends) further
    · cases reached

end Graph

/-- What is measured of readable records is read, a sum only of what are no moments. -/
theorem Measure.taken_told {measure : Measure} {table : Table} {field : Option String} {records : List Row}
    (reads : table.Reads records) (adds : measure = .sum → (table.ref 0 0 (field.getD "")).type ≠ .datetime) :
    Tells (measure.taken table field records) := by
  have extreme (extreme : Extreme) : Tells ((extremeOf extreme (records.map (·.cell (field.getD "")))).shown
      (table.ref 0 0 (field.getD "")).type) := by
    rcases extremeOf_mem extreme (records.map (·.cell (field.getD ""))) with null | inside
    · rw [null]
      exact (ColumnType.Reads.null _).told
    · obtain ⟨record, listed, same⟩ := List.mem_map.1 inside
      rw [← same]
      exact (reads record listed _).told
  cases measure with
  | count | presence => trivial
  | min => exact extreme .min
  | max => exact extreme .max
  | sum => exact (measured_told .sum _).bind fun cell _ _ => Cell.shown_told (adds rfl) cell
  | avg => exact (measured_told .avg _).bind fun cell _ _ => Cell.shown_told (by simp [measureType]) cell

/-! ## Rows of results -/

namespace Query

/-- A result is read if each of its values is. -/
theorem results_told {query : Query} {ground : Ground}
    (each : ∀ frame ∈ query.frames ground, ∀ output ∈ query.outputs, Tells (outputValue ground frame output)) :
    Tells (query.results ground) := by
  unfold results
  refine (Delivers.each fun frame taken => Delivers.each fun output shown => ?_).bind fun found _ _ => ?_
  · exact (each frame taken output shown).bind fun _ _ _ => trivial
  · split
    · rfl
    · trivial

theorem column_told {ground : Ground} {frame : Frame} {table : Table} {rows : List Row} (reads : table.Reads rows)
    {slot : Nat} (inside : frame.getD slot [] ∈ rows) (name : String) (label : Option String) :
    Tells (outputValue ground frame (.column (table.ref 0 slot name) label)) :=
  (reads _ inside name).told

/-- A row that a query takes is one of its source. -/
theorem mem_extend_of_frames {query : Query} {ground : Ground} {frame : Frame} (taken : frame ∈ query.frames ground) :
    frame ∈ extend ground [] query.source [] := by
  have inside : frame ∈ sorted query.order (matching ground [] query.source query.conditions) := by
    unfold frames paged at taken
    split at taken
    · exact taken
    · split at taken
      · exact List.mem_of_mem_drop taken
      · exact List.mem_of_mem_drop (List.mem_of_mem_take taken)
  exact List.mem_of_mem_filter (List.mem_mergeSort.1 inside)

end Query

namespace Plan

variable {graph : Graph} {resource : Resource} {ground : Ground}

section Reading

variable (sound : graph.Sound) (reads : graph.Reads ground.rows)
include sound reads

theorem aggregate_told (member : resource ∈ graph.resources) {slot : Nat} {item : Aggregate} {output : Output}
    (adds : item.AddsNumbers graph) (made : aggregate graph resource slot item = .ok output) (frame : Frame) :
    Tells (outputValue ground frame output) := by
  obtain ⟨hops, hop, target, -, ends, leadsTo, -, value⟩ := outputValue_aggregate sound member made
  have inside := Graph.mem_of_target leadsTo
  rw [value]
  refine Measure.taken_told (fun record listed => ?_) fun same => adds same target inside
  exact reads.resources target inside record (Graph.mem_of_mem_reached ends leadsTo (List.mem_of_mem_filter listed))

/-- The page of a search is read. -/
theorem page_told (member : resource ∈ graph.resources) {spec : Specification} {plan : Plan}
    (made : compile graph resource spec = .ok plan) (adds : ∀ item ∈ spec.aggregates, item.AddsNumbers graph) :
    Tells (plan.page.results ground) := by
  have compiled := compiled_of_eq_ok made
  obtain ⟨hops, shown, aggregates, -, -, columns, measured, outputs⟩ := outputs_of_compile made
  refine results_told fun frame taken output listed => ?_
  rw [outputs] at listed
  rcases List.mem_append.1 listed with own | added
  · obtain ⟨name, label, -, rfl⟩ := exists_of_mem_columns columns own
    refine column_told (reads.resources resource member) ?_ name label
    have inside := mem_extend_of_frames taken
    rw [compiled.source, extend] at inside
    obtain ⟨row, listed, rfl⟩ := List.mem_map.1 inside
    exact listed
  · obtain ⟨item, asked, made⟩ := forall₂_mem_right measured added
    exact aggregate_told sound reads member (adds item asked) made frame

omit sound in
/-- The rows of the page carry keys for the steps that go on from it. -/
theorem canKey_of_page (member : resource ∈ graph.resources) {spec : Specification} {plan : Plan}
    (made : compile graph resource spec = .ok plan) {hops : List Hop}
    (walked : includeHops graph resource (includePaths spec.includes) = .ok hops) {rows : List Members}
    (found : plan.page.results ground = .ok rows) :
    ∀ row ∈ rows, ∀ name ∈ requiredColumns hops none, ((row.get? name).getD .null).CanKey := by
  have compiled := compiled_of_eq_ok made
  obtain ⟨others, shown, aggregates, walkedToo, -, columns, -, outputs⟩ := outputs_of_compile made
  obtain rfl := Except.ok.inj (walkedToo.symm.trans walked)
  obtain ⟨given, distinct⟩ := gives_of_results found
  intro row listed name needed
  obtain ⟨frame, taken, gives⟩ := forall₂_mem_right given listed
  have inside := mem_extend_of_frames taken
  rw [compiled.source, extend] at inside
  obtain ⟨record, stored, rfl⟩ := List.mem_map.1 inside
  obtain ⟨value, is, got⟩ := gives.get?_eq (distinct (List.ne_nil_of_mem listed))
    (outputs ▸ List.mem_append_left _ (mem_columns columns (.inr needed)))
  have got : row.get? name = some value := got
  rw [got]
  exact (reads.resources resource member record stored name).canKey is

section Including

variable {owner target : Resource} (ownerMember : owner ∈ graph.resources) {relation : Relation}
  (declared : relation ∈ owner.relations) (member : target ∈ graph.resources) {related : Related}
  (built : Related.ofTarget owner relation target 0 = .ok related) {item : Include} {required : List String} {query : Query}
  (made : includeQuery graph related item required = .ok query) (noScopes : item.scopes = [])
include ownerMember declared member built made noScopes

omit sound reads ownerMember declared member in
private theorem mem_linkFrames {frame : Frame} (taken : frame ∈ query.frames ground) :
    frame ∈ relation.link.frames ground.rows target := by
  obtain ⟨-, -, -, -, -, -, source, -⟩ := includeQuery_eq_ok made noScopes
  have inside := mem_extend_of_frames taken
  rw [source, Related.extend_source built rfl] at inside
  obtain ⟨linked, listed, same⟩ := List.mem_map.1 inside
  rw [List.nil_append] at same
  exact same ▸ listed

omit sound reads ownerMember declared member made noScopes in
private theorem exists_of_mem_pivotColumns {column : ColumnRef} (listed : column ∈ related.pivotColumns) :
    ∃ name, column = (relation.link.matchedTable target).ref 0 relation.link.matchedPlace name := by
  unfold Related.ofTarget at built
  cases same : relation.link with
  | child link =>
    simp only [same, Related.ofChild, bind_eq_ok, pure_eq_ok] at built
    obtain ⟨_, -, _, -, rfl⟩ := built
    cases listed
  | parent link | through link =>
    simp only [same] at built
    cases built
    cases listed
  | pivot link =>
    simp only [same, Related.ofPivot, bind_eq_ok, pure_eq_ok] at built
    obtain ⟨_, -, rfl⟩ := built
    obtain ⟨name, -, rfl⟩ := List.mem_map.1 listed
    exact ⟨name, rfl⟩

/-- The rows of an include are read. -/
theorem includeQuery_told (adds : ∀ aggregate ∈ item.aggregates, aggregate.AddsNumbers graph) :
    Tells (query.results ground) := by
  obtain ⟨_, shown, aggregates, -, columns, -, -, -, -, measured, outputs⟩ := includeQuery_eq_ok made noScopes
  obtain ⟨-, rfl, start⟩ := Related.ofTarget_eq_ok built
  refine results_told fun frame taken output listed => ?_
  obtain ⟨ofTarget, ofMatched⟩ := Link.mem_of_mem_frames (mem_linkFrames built made noScopes taken)
  have matched : (relation.link.matchedTable related.target).Reads
      (ground.rows (relation.link.matchedTable related.target).name) := by
    cases same : relation.link with
    | child link | parent link => exact reads.resources _ member
    | pivot link | through link => exact reads.between _ ownerMember _ declared _ (by rw [same]; rfl)
  rw [outputs, List.append_assoc] at listed
  rcases List.mem_append.1 listed with own | further
  · obtain ⟨name, label, -, rfl⟩ := exists_of_mem_columns columns own
    rw [start]
    exact column_told (reads.resources _ member) ofTarget name label
  · rcases List.mem_append.1 further with added | last
    · obtain ⟨aggregate, asked, made⟩ := forall₂_mem_right measured added
      exact aggregate_told sound reads member (adds aggregate asked) made _
    · rcases List.mem_cons.1 last with rfl | between
      · rw [(Related.matching_eq built).1, Nat.zero_add]
        exact column_told matched ofMatched _ _
      · obtain ⟨column, shows, rfl⟩ := List.mem_map.1 between
        obtain ⟨name, rfl⟩ := exists_of_mem_pivotColumns built shows
        exact column_told matched ofMatched _ _

omit sound ownerMember declared in
/-- The rows of an include carry keys for the steps that go on from it. -/
theorem canKey_of_includeQuery (free : ∀ name ∈ required, IsFree name) {rows : List Members}
    (found : query.results ground = .ok rows) :
    ∀ row ∈ rows, ∀ name ∈ required, (((gathered row).2.get? name).getD .null).CanKey := by
  obtain ⟨given, distinct⟩ := gives_of_results found
  intro row listed name needed
  obtain ⟨frame, taken, gives⟩ := forall₂_mem_right given listed
  have inside := mem_linkFrames built made noScopes taken
  obtain ⟨shows, -⟩ := shows_of_includeQuery built made gives (distinct (List.ne_nil_of_mem listed))
    (fun name (needed : name ∈ required) => .inr needed) free
  obtain ⟨value, is, got⟩ := shows name needed
  rw [got]
  exact (reads.resources target member _ (Link.mem_of_mem_frames inside).1 name).canKey is

end Including

end Reading

end Plan

end ResourceApi
