import Mathlib.Algebra.BigOperators.Group.List.Basic
import ResourceApi.Proofs.Number.Exact
import ResourceApi.Query.Evaluation

/-!
Measures of cells in any order. A database may hand rows over in any order; a count, an extreme value and a sum of integers
in range are the same in all of them.
-/

namespace ResourceApi

/-! ## Extremes -/

/-- Whether a cell does not lose against another one. -/
def Extreme.Tops (extreme : Extreme) (best cell : Cell) : Prop :=
  match extreme with
  | .max => cell.place ≤ best.place
  | .min => best.place ≤ cell.place

namespace Extreme

variable {extreme : Extreme} {a b c : Cell}

theorem Tops.refl (extreme : Extreme) (a : Cell) : extreme.Tops a a := by
  cases extreme <;> exact le_refl _

theorem Tops.trans (first : extreme.Tops a b) (second : extreme.Tops b c) : extreme.Tops a c := by
  cases extreme
  · exact le_trans second first
  · exact le_trans first second

/-- Cells that do not lose against each other stand in one place. -/
theorem Tops.order_eq (first : extreme.Tops a b) (second : extreme.Tops b a) : Cell.order a b = .eq := by
  rw [Cell.order_eq_iff]
  cases extreme
  · exact le_antisymm second first
  · exact le_antisymm first second

theorem Tops.of_order_eq (same : Cell.order a b = .eq) : extreme.Tops a b := by
  have place := Cell.order_eq_iff.1 same
  cases extreme
  · exact place.ge
  · exact place.le

theorem tops_or_tops (extreme : Extreme) (a b : Cell) : extreme.Tops a b ∨ extreme.Tops b a := by
  cases extreme
  · exact le_total _ _
  · exact le_total _ _

/-- Whether an extreme takes one cell rather than another. -/
def prefers (extreme : Extreme) (a b : Cell) : Bool :=
  Cell.order a b == (if extreme = .max then .gt else .lt)

theorem prefers_iff : extreme.prefers a b ↔ ¬extreme.Tops b a := by
  rw [prefers, beq_iff_eq, Cell.order_eq_cmp]
  cases extreme
  · rw [if_pos rfl, cmp_eq_gt_iff, Tops, not_le]
  · rw [if_neg (by decide), cmp_eq_lt_iff, Tops, not_le]

end Extreme

namespace Query

variable {extreme : Extreme} {cells others : List Cell}

private theorem foldl_tops (extreme : Extreme) (first : Cell) (rest : List Cell) :
    rest.foldl (fun best cell => if extreme.prefers cell best then cell else best) first ∈ first :: rest ∧
      ∀ cell ∈ first :: rest,
        extreme.Tops (rest.foldl (fun best cell => if extreme.prefers cell best then cell else best) first) cell := by
  induction rest generalizing first with
  | nil => exact ⟨List.mem_cons_self, List.forall_mem_singleton.2 (.refl extreme first)⟩
  | cons second rest ih =>
    obtain ⟨among, tops⟩ := ih (if extreme.prefers second first then second else first)
    rw [List.foldl_cons]
    obtain ⟨start, onward⟩ := List.forall_mem_cons.1 tops
    by_cases chosen : extreme.prefers second first
    · rw [if_pos chosen] at among start onward ⊢
      have ahead : extreme.Tops second first := (extreme.tops_or_tops second first).resolve_right (Extreme.prefers_iff.1 chosen)
      exact ⟨List.mem_cons_of_mem _ among, List.forall_mem_cons.2 ⟨start.trans ahead, List.forall_mem_cons.2 ⟨start, onward⟩⟩⟩
    · rw [if_neg chosen] at among start onward ⊢
      have ahead : extreme.Tops first second := by simpa [Extreme.prefers_iff] using chosen
      refine ⟨?_, List.forall_mem_cons.2 ⟨start, List.forall_mem_cons.2 ⟨start.trans ahead, onward⟩⟩⟩
      rcases List.mem_cons.1 among with here | inside
      · rw [here]
        exact List.mem_cons_self
      · exact List.mem_cons_of_mem _ (List.mem_cons_of_mem _ inside)

/-- The extreme of some cells is null where all are; else it is one of them that none of the others beats. -/
theorem extremeOf_cases (extreme : Extreme) (cells : List Cell) :
    (∀ cell ∈ cells, cell = .null) ∧ extremeOf extreme cells = .null ∨
      extremeOf extreme cells ∈ cells ∧ extremeOf extreme cells ≠ .null ∧
        ∀ cell ∈ cells, cell ≠ .null → extreme.Tops (extremeOf extreme cells) cell := by
  have known (cell : Cell) : cell ∈ cells.filter (· != .null) ↔ cell ∈ cells ∧ cell ≠ .null := by simp
  cases listed : cells.filter (· != .null) with
  | nil =>
    refine .inl ⟨fun cell inside => ?_, by simp only [extremeOf, listed]⟩
    by_contra given
    have among := (known cell).2 ⟨inside, given⟩
    rw [listed] at among
    cases among
  | cons first rest =>
    obtain ⟨among, tops⟩ := foldl_tops extreme first rest
    have made : extremeOf extreme cells =
        rest.foldl (fun best cell => if extreme.prefers cell best then cell else best) first := by
      simp only [extremeOf, listed]
      rfl
    rw [listed] at known
    rw [made]
    obtain ⟨inside, given⟩ := (known _).1 among
    exact .inr ⟨inside, given, fun cell present told => tops cell ((known cell).2 ⟨present, told⟩)⟩

/-- The extremes of the same cells in another order stand in one place. -/
theorem extremeOf_perm (extreme : Extreme) (same : cells.Perm others) :
    Cell.order (extremeOf extreme cells) (extremeOf extreme others) = .eq := by
  rcases extremeOf_cases extreme cells with ⟨none, first⟩ | ⟨inside, given, tops⟩
  · rcases extremeOf_cases extreme others with ⟨-, second⟩ | ⟨inside, given, -⟩
    · rw [first, second]
      exact Cell.order_self _
    · exact absurd (none _ (same.mem_iff.2 inside)) given
  · rcases extremeOf_cases extreme others with ⟨none, -⟩ | ⟨insideToo, givenToo, topsToo⟩
    · exact absurd (none _ (same.mem_iff.1 inside)) given
    · exact (tops _ (same.mem_iff.2 insideToo) givenToo).order_eq (topsToo _ (same.mem_iff.1 inside) given)

end Query

/-! ## Sums of integers -/

/-- The integer that a cell holds, zero if it holds none. -/
def Cell.whole : Cell → Int
  | .int n => n
  | _ => 0

/-- Whether cells are integers, if not null, whose absolute values add up to less than a bound. -/
def Cell.SumBelow (bound : Nat) (cells : List Cell) : Prop :=
  (∀ cell ∈ cells, cell = .null ∨ cell = .int cell.whole) ∧ (cells.map (·.whole.natAbs)).sum < bound

theorem Cell.SumBelow.perm {bound : Nat} {cells others : List Cell} (range : SumBelow bound cells)
    (same : cells.Perm others) : SumBelow bound others := by
  refine ⟨fun cell inside => range.1 cell (same.mem_iff.2 inside), ?_⟩
  rw [← (same.map _).sum_eq]
  exact range.2

/-- Whether a measure of some cells is the same in whatever order they come. -/
def Measure.IsSteady (measure : Measure) (cells : List Cell) : Prop :=
  match measure with
  | .count | .presence => True
  | .min | .max => ∀ a ∈ cells, ∀ b ∈ cells, Cell.order a b = .eq → a = b
  | .sum => Cell.SumBelow (2 ^ 63) cells
  | .avg => Cell.SumBelow (2 ^ 53) cells

namespace Query

variable {cells others : List Cell}

/-- Integers that stay in the word are added as such. -/
private theorem foldlM_add {cells : List Cell} (whole : ∀ cell ∈ cells, cell = .int cell.whole) {start : Int}
    (below : start.natAbs + (cells.map (·.whole.natAbs)).sum < 2 ^ 63) :
    cells.foldlM (fun sum cell => sum.add (Sum.ofCell cell)) (Sum.whole start) =
      some (.whole (start + (cells.map Cell.whole).sum)) := by
  induction cells generalizing start with
  | nil => simp
  | cons cell rest ih =>
    obtain ⟨here, later⟩ := List.forall_mem_cons.1 whole
    rw [List.map_cons, List.sum_cons] at below
    have fits : Word.holds (start + cell.whole) := by
      rw [Word.holds, Word.bound, Bool.and_eq_true]
      exact ⟨decide_eq_true (by omega), decide_eq_true (by omega)⟩
    have added : (Sum.whole start).add (Sum.ofCell cell) = some (.whole (start + cell.whole)) := by
      rw [here]
      exact if_pos fits
    rw [List.foldlM_cons, added]
    refine (ih later (by omega)).trans ?_
    rw [List.map_cons, List.sum_cons, add_assoc]

/-- Integers of few digits are added without rounding. -/
private theorem foldl_add {cells : List Cell} (whole : ∀ cell ∈ cells, cell = .int cell.whole) (start : Int)
    (below : start.natAbs + (cells.map (·.whole.natAbs)).sum < 2 ^ 53) :
    cells.foldl (fun sum cell => sum.add cell.asNumber.toDouble) (Double.ofInt start) =
      .ofInt (start + (cells.map Cell.whole).sum) := by
  induction cells generalizing start with
  | nil => simp
  | cons cell rest ih =>
    obtain ⟨here, later⟩ := List.forall_mem_cons.1 whole
    rw [List.map_cons, List.sum_cons] at below
    have added : (Double.ofInt start).add cell.asNumber.toDouble = .ofInt (start + cell.whole) := by
      rw [here]
      exact Double.add_ofInt (by omega) (by omega)
    rw [List.foldl_cons, added, ih later _ (by omega), List.map_cons, List.sum_cons, add_assoc]

/-- What the cells that are not null add up to is what all of them do. -/
private theorem sum_known (f : Cell → Nat) (null : f .null = 0) (cells : List Cell) :
    ((cells.filter (· != .null)).map f).sum = (cells.map f).sum := by
  induction cells with
  | nil => rfl
  | cons cell rest ih => by_cases given : cell = .null <;> simp [given, null, ih]

/-- The sum of integers in range is an integer. -/
theorem measured_sum {cells : List Cell} (range : Cell.SumBelow (2 ^ 63) cells) :
    measured .sum cells =
      .ok (if cells.filter (· != .null) = [] then .null else .int ((cells.filter (· != .null)).map Cell.whole).sum) := by
  have below := range.2
  rw [← sum_known _ rfl] at below
  have whole : ∀ cell ∈ cells.filter (· != .null), cell = .int cell.whole := fun cell known =>
    (range.1 cell (List.mem_filter.1 known).1).resolve_left (by simpa using (List.mem_filter.1 known).2)
  simp only [measured]
  cases known : cells.filter (· != .null) with
  | nil => rfl
  | cons first rest =>
    rw [known] at whole below
    obtain ⟨here, later⟩ := List.forall_mem_cons.1 whole
    have start : Sum.ofCell first = .whole first.whole := by
      rw [here]
      rfl
    rw [List.map_cons, List.sum_cons] at below
    simp only [start, foldlM_add later below, if_neg (List.cons_ne_nil first rest), List.map_cons, List.sum_cons]

/-- The average of integers of few digits is that of their exact sum. -/
theorem measured_avg {cells : List Cell} (range : Cell.SumBelow (2 ^ 53) cells) :
    measured .avg cells =
      .ok (if cells.filter (· != .null) = [] then .null
        else .real ((Double.ofInt ((cells.filter (· != .null)).map Cell.whole).sum).divNat
          (cells.filter (· != .null)).length)) := by
  have below := range.2
  rw [← sum_known _ rfl] at below
  have whole : ∀ cell ∈ cells.filter (· != .null), cell = .int cell.whole := fun cell known =>
    (range.1 cell (List.mem_filter.1 known).1).resolve_left (by simpa using (List.mem_filter.1 known).2)
  have total := foldl_add whole 0 (by simpa using below)
  have zero : Double.ofInt 0 = .zero := rfl
  rw [zero, zero_add] at total
  simp only [measured, total]
  cases cells.filter (· != .null) with
  | nil => rfl
  | cons first rest => rw [if_neg (List.cons_ne_nil first rest)]

/-- A measure that is steady is the same for the cells in another order. -/
theorem measured_perm {measure : Measure} (steady : measure.IsSteady cells) (same : cells.Perm others) :
    measured measure cells = measured measure others := by
  have known : (cells.filter (· != .null)).Perm (others.filter (· != .null)) := same.filter _
  have extreme (choice : Extreme) (apart : ∀ a ∈ cells, ∀ b ∈ cells, Cell.order a b = .eq → a = b) :
      extremeOf choice cells = extremeOf choice others := by
    have equal := extremeOf_perm choice same
    rcases extremeOf_cases choice cells with ⟨none, first⟩ | ⟨inside, given, -⟩
    · rcases extremeOf_cases choice others with ⟨-, second⟩ | ⟨inside, given, -⟩
      · rw [first, second]
      · exact absurd (none _ (same.mem_iff.2 inside)) given
    · rcases extremeOf_cases choice others with ⟨none, -⟩ | ⟨insideToo, -, -⟩
      · exact absurd (none _ (same.mem_iff.1 inside)) given
      · exact apart _ inside _ (same.mem_iff.2 insideToo) equal
  have none : cells.filter (· != .null) = [] ↔ others.filter (· != .null) = [] := by
    rw [← List.length_eq_zero_iff, known.length_eq, List.length_eq_zero_iff]
  cases measure with
  | count => simp [measured, same.length_eq]
  | presence => simp [measured, same.isEmpty_eq]
  | min => rw [measured, measured, extreme .min steady]
  | max => rw [measured, measured, extreme .max steady]
  | sum =>
    have range : Cell.SumBelow (2 ^ 63) cells := steady
    rw [measured_sum range, measured_sum (range.perm same), (known.map Cell.whole).sum_eq]
    simp only [none]
  | avg =>
    have range : Cell.SumBelow (2 ^ 53) cells := steady
    rw [measured_avg range, measured_avg (range.perm same), (known.map Cell.whole).sum_eq, known.length_eq]
    simp only [none]

end Query

end ResourceApi
