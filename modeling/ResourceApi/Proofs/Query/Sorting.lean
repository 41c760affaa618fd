import ResourceApi.Proofs.Storage.Order
import ResourceApi.Query.Evaluation

/-!
Rows in the order of some columns. What a query sorts by is an order of rows, strict as soon as a column in it tells all
rows apart.
-/

namespace ResourceApi

namespace Query

/-- Order of rows by columns of a table with a direction for each, the first that differs deciding. -/
def sortOrder : List (String × Direction) → Row → Row → Ordering
  | [], _, _ => .eq
  | (column, direction) :: rest, a, b =>
    let ordering := Cell.order (a.cell column) (b.cell column)
    (if direction = .asc then ordering else ordering.swap).then (sortOrder rest a b)

private instance columnOrder (column : String) (direction : Direction) : Std.TransCmp fun a b : Row =>
    let ordering := Cell.order (a.cell column) (b.cell column)
    if direction = .asc then ordering else ordering.swap where
  eq_swap {a b} := by
    rw [Cell.order_swap (a.cell column)]
    cases direction <;> simp
  isLE_trans {a b c} first second := by
    cases direction with
    | asc => exact Cell.order_trans first second
    | desc =>
      simp only [reduceCtorEq, ↓reduceIte, ← Cell.order_swap] at *
      exact Cell.order_trans second first

instance (keys : List (String × Direction)) : Std.TransCmp (sortOrder keys) := by
  induction keys with
  | nil => exact { eq_swap := rfl, isLE_trans := fun _ _ => rfl }
  | cons key rest ih =>
    exact inferInstanceAs (Std.TransCmp (compareLex (fun a b : Row =>
      let ordering := Cell.order (a.cell key.1) (b.cell key.1)
      if key.2 = .asc then ordering else ordering.swap) (sortOrder rest)))

theorem sortOrder_swap (keys : List (String × Direction)) (a b : Row) :
    sortOrder keys a b = (sortOrder keys b a).swap :=
  Std.OrientedCmp.eq_swap

theorem sortOrder_trans {keys : List (String × Direction)} {a b c : Row} :
    (sortOrder keys a b).isLE → (sortOrder keys b c).isLE → (sortOrder keys a c).isLE :=
  Std.TransCmp.isLE_trans

theorem sortOrder_append (keys more : List (String × Direction)) (a b : Row) :
    sortOrder (keys ++ more) a b = (sortOrder keys a b).then (sortOrder more a b) := by
  induction keys with
  | nil => rfl
  | cons key rest ih => simp only [List.cons_append, sortOrder, ih, Ordering.then_assoc]

theorem cell_order_of_sortOrder_eq {keys : List (String × Direction)} {a b : Row} {column : String}
    (equal : sortOrder keys a b = .eq) (listed : column ∈ keys.map (·.1)) :
    Cell.order (a.cell column) (b.cell column) = .eq := by
  induction keys with
  | nil => cases listed
  | cons key rest ih =>
    obtain ⟨here, after⟩ := Ordering.then_eq_eq.1 equal
    rcases List.mem_cons.1 listed with rfl | later
    · split at here
      · exact here
      · exact Ordering.swap_eq_eq.1 here
    · exact ih after later

/-- A column that comes again decides nothing more. -/
theorem sortOrder_again {keys : List (String × Direction)} {column : String} {direction : Direction}
    (listed : column ∈ keys.map (·.1)) (a b : Row) :
    sortOrder (keys ++ [(column, direction)]) a b = sortOrder keys a b := by
  rw [sortOrder_append]
  cases decided : sortOrder keys a b with
  | eq => cases direction <;> simp [sortOrder, cell_order_of_sortOrder_eq decided listed]
  | _ => rfl

/-- Rows in the order of some columns; rows that are equal in it stay as they were. -/
def inOrder (keys : List (String × Direction)) (rows : List Row) : List Row :=
  rows.mergeSort fun a b => sortOrder keys a b != .gt

theorem inOrder_perm (keys : List (String × Direction)) (rows : List Row) : (inOrder keys rows).Perm rows :=
  List.mergeSort_perm rows _

private theorem notAfter_trans (keys : List (String × Direction)) (a b c : Row)
    (first : (sortOrder keys a b != .gt) = true) (second : (sortOrder keys b c != .gt) = true) :
    (sortOrder keys a c != .gt) = true := by
  simp only [bne_iff_ne, ← Ordering.isLE_iff_ne_gt] at *
  exact sortOrder_trans first second

private theorem notAfter_total (keys : List (String × Direction)) (a b : Row) :
    ((sortOrder keys a b != .gt) || (sortOrder keys b a != .gt)) = true := by
  rw [sortOrder_swap keys b]
  cases sortOrder keys a b <;> rfl

/-- The columns of an order with their directions. -/
def orderKeys (order : List (ColumnRef × Direction)) : List (String × Direction) :=
  order.map fun entry => (entry.1.name, entry.2)

/-- Columns of the first table of the query itself. -/
def IsOwn (ref : ColumnRef) : Prop := ref.frame = 0 ∧ ref.slot = 0

private theorem decided_eq_then (first second : Ordering) :
    (match first with | .eq => second | decided => decided) = first.then second := by
  cases first <;> rfl

theorem rowOrder_eq_sortOrder {order : List (ColumnRef × Direction)} (own : ∀ entry ∈ order, IsOwn entry.1)
    (a b : Frame) : rowOrder order a b = sortOrder (orderKeys order) (a.getD 0 []) (b.getD 0 []) := by
  induction order with
  | nil => rfl
  | cons entry rest ih =>
    obtain ⟨here, later⟩ := List.forall_mem_cons.1 own
    rw [rowOrder, ih later]
    simp only [orderKeys, List.map_cons, sortOrder, cellOf, here.1, here.2, List.getD_cons_zero]
    exact decided_eq_then _ _

/-- Sorting the rows in hand sorts the rows of the first table. -/
theorem sorted_head {order : List (ColumnRef × Direction)} (own : ∀ entry ∈ order, IsOwn entry.1)
    (frames : List Frame) :
    (sorted order frames).map (·.getD 0 []) = inOrder (orderKeys order) (frames.map (·.getD 0 [])) := by
  refine List.map_mergeSort fun a _ b _ => ?_
  rw [rowOrder_eq_sortOrder own]

/-! ## Sorting what is left -/

/-- The first item of a list is sorted in behind those of the others that it is not to stand before. -/
private theorem mergeSort_cons_eq {α : Type} {le : α → α → Bool}
    (transitive : ∀ a b c, le a b = true → le b c = true → le a c = true) (total : ∀ a b, (le a b || le b a) = true)
    (item : α) (rest : List α) :
    (item :: rest).mergeSort le =
        (rest.mergeSort le).filter (fun other => !le item other) ++ item :: (rest.mergeSort le).filter (le item) ∧
      rest.mergeSort le = (rest.mergeSort le).filter (fun other => !le item other) ++ (rest.mergeSort le).filter (le item) := by
  obtain ⟨front, back, sorted, sortedRest, before⟩ := List.mergeSort_cons transitive total item rest
  have behind : ∀ other ∈ back, le item other = true := by
    have pairwise := List.pairwise_mergeSort transitive total (item :: rest)
    rw [sorted] at pairwise
    exact (List.pairwise_cons.1 (List.pairwise_append.1 pairwise).2.1).1
  have ofFront : (front ++ back).filter (fun other => !le item other) = front := by
    rw [List.filter_append, List.filter_eq_self.2 before, List.filter_eq_nil_iff.2 (by simpa using behind),
      List.append_nil]
  have ofBack : (front ++ back).filter (le item) = back := by
    rw [List.filter_append, List.filter_eq_self.2 behind, List.filter_eq_nil_iff.2 (by simpa using before),
      List.nil_append]
  rw [sorted, sortedRest, ofFront, ofBack]
  exact ⟨rfl, rfl⟩

/-- Sorting is stable: it comes to the same whether items are left out before or after it. -/
theorem filter_mergeSort {α : Type} {le : α → α → Bool}
    (transitive : ∀ a b c, le a b = true → le b c = true → le a c = true) (total : ∀ a b, (le a b || le b a) = true)
    (p : α → Bool) (items : List α) : (items.mergeSort le).filter p = (items.filter p).mergeSort le := by
  induction items with
  | nil => simp
  | cons item rest ih =>
    obtain ⟨sorted, divided⟩ := mergeSort_cons_eq transitive total item rest
    have swapped (q : α → Bool) : ((rest.mergeSort le).filter q).filter p = ((rest.filter p).mergeSort le).filter q := by
      rw [← ih, List.filter_filter, List.filter_filter]
      simp only [Bool.and_comm]
    by_cases kept : p item = true
    · rw [sorted, List.filter_cons_of_pos kept, (mergeSort_cons_eq transitive total item _).1, List.filter_append,
        List.filter_cons_of_pos kept, swapped, swapped]
    · have whole := congrArg (List.filter p) divided
      rw [List.filter_append] at whole
      rw [sorted, List.filter_cons_of_neg kept, ← ih, whole, List.filter_append, List.filter_cons_of_neg kept]

/-- Rows in hand in the order of some columns of the first table. -/
def firstInOrder (keys : List (String × Direction)) (frames : List Frame) : List Frame :=
  frames.mergeSort fun a b => sortOrder keys (a.getD 0 []) (b.getD 0 []) != .gt

theorem sorted_eq_firstInOrder {order : List (ColumnRef × Direction)} (own : ∀ entry ∈ order, IsOwn entry.1)
    (frames : List Frame) : sorted order frames = firstInOrder (orderKeys order) frames := by
  simp only [sorted, firstInOrder, rowOrder_eq_sortOrder own]

theorem filter_firstInOrder (keys : List (String × Direction)) (p : Frame → Bool) (frames : List Frame) :
    (firstInOrder keys frames).filter p = firstInOrder keys (frames.filter p) :=
  filter_mergeSort (fun a b c => notAfter_trans keys (a.getD 0 []) (b.getD 0 []) (c.getD 0 []))
    (fun a b => notAfter_total keys (a.getD 0 []) (b.getD 0 [])) p frames

theorem mem_firstInOrder {keys : List (String × Direction)} {frames : List Frame} {frame : Frame} :
    frame ∈ firstInOrder keys frames ↔ frame ∈ frames := List.mem_mergeSort

end Query

end ResourceApi