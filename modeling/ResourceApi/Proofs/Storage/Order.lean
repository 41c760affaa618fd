import Mathlib.Algebra.Order.Field.Power
import Mathlib.Algebra.Order.Field.Rat
import Mathlib.Data.Prod.Lex
import Mathlib.Data.String.Basic
import Mathlib.Order.Compare
import ResourceApi.Storage.Cell

/-!
The order of cells is that of places on a line: null first, then numbers by value, then texts.
-/

namespace ResourceApi

namespace Double

/-- The number that a double stands for. What is not a number has none of its own. -/
def value : Double → WithBot (WithTop ℚ)
  | .finite negative significand exponent => (((signed negative significand : ℤ) * 2 ^ exponent : ℚ) : WithTop ℚ)
  | .infinite true => ⊥
  | .infinite false => ((⊤ : WithTop ℚ) : WithBot (WithTop ℚ))
  | .notANumber => ((0 : ℚ) : WithTop ℚ)

theorem compare_int (m n : ℤ) : compare m n = cmp (m : ℚ) n := by
  rw [Int.cast_strictMono.cmp_map_eq]
  exact (cmp_eq_compare m n).symm

/-- Putting two numbers over one power of two keeps their order. -/
theorem compare_aligned (a e b f : ℤ) :
    compare (aligned a e b f).1 (aligned a e b f).2 = cmp ((a : ℚ) * 2 ^ e) ((b : ℚ) * 2 ^ f) := by
  have scaled (n g : ℤ) (above : min e f ≤ g) :
      ((n * (Nat.pow 2 (g - min e f).toNat : ℕ) : ℤ) : ℚ) = n * 2 ^ g * 2 ^ (-min e f) := by
    have lifted : ((g - min e f).toNat : ℤ) = g - min e f := Int.toNat_of_nonneg (by omega)
    rw [mul_assoc, ← zpow_add₀ (by norm_num), ← sub_eq_add_neg, ← lifted, zpow_natCast]
    push_cast [Nat.pow_eq]
    rfl
  have positive : (0 : ℚ) < 2 ^ (-min e f) := zpow_pos (by norm_num) _
  rw [← cmp_mul_pos_right positive, ← scaled a e (min_le_left e f), ← scaled b f (min_le_right e f)]
  exact compare_int _ _

theorem compare?_eq {d e : Double} (first : d ≠ .notANumber) (second : e ≠ .notANumber) :
    d.compare? e = some (cmp d.value e.value) := by
  cases d with
  | notANumber => exact absurd rfl first
  | infinite below =>
    cases e with
    | notANumber => exact absurd rfl second
    | infinite beneath => cases below <;> cases beneath <;> rfl
    | finite negative m f => cases below <;> rfl
  | finite negative m f =>
    cases e with
    | notANumber => exact absurd rfl second
    | infinite beneath => cases beneath <;> rfl
    | finite minus n g =>
      have made : (finite negative m f).compare? (finite minus n g) = some (compare
          (aligned (signed negative m) f (signed minus n) g).1 (aligned (signed negative m) f (signed minus n) g).2) := rfl
      rw [made, compare_aligned, value, value]
      rw [WithBot.coe_strictMono.cmp_map_eq, WithTop.coe_strictMono.cmp_map_eq]

theorem sameValue_self {d : Double} (known : d ≠ .notANumber) : d.sameValue d = true := by
  rw [sameValue, compare?_eq known known, cmp_self_eq_eq]
  rfl

theorem compareInt?_eq {d : Double} (known : d ≠ .notANumber) (n : ℤ) :
    d.compareInt? n = some (cmp d.value ((n : ℚ) : WithTop ℚ)) := by
  cases d with
  | notANumber => exact absurd rfl known
  | infinite below => cases below <;> rfl
  | finite negative m f =>
    have made : (finite negative m f).compareInt? n =
        some (compare (aligned (signed negative m) f n 0).1 (aligned (signed negative m) f n 0).2) := rfl
    rw [made, compare_aligned, value, zpow_zero, mul_one]
    rw [WithBot.coe_strictMono.cmp_map_eq, WithTop.coe_strictMono.cmp_map_eq]

end Double

private theorem cmp_toLex {α β : Type} [LinearOrder α] [LinearOrder β] (a c : α) (b d : β) :
    cmp (toLex (a, b)) (toLex (c, d)) = (cmp a c).then (cmp b d) := by
  rcases lt_trichotomy a c with less | same | greater
  · rw [less.cmp_eq_lt, (Prod.Lex.toLex_lt_toLex.2 (.inl less)).cmp_eq_lt]
    rfl
  · subst same
    rw [cmp_self_eq_eq]
    rcases lt_trichotomy b d with less | same | greater
    · have lower : toLex (a, b) < toLex (a, d) := Prod.Lex.toLex_lt_toLex.2 (.inr ⟨rfl, less⟩)
      rw [less.cmp_eq_lt, lower.cmp_eq_lt]
      rfl
    · rw [same, cmp_self_eq_eq, cmp_self_eq_eq]
      rfl
    · have lower : toLex (a, d) < toLex (a, b) := Prod.Lex.toLex_lt_toLex.2 (.inr ⟨rfl, greater⟩)
      rw [greater.cmp_eq_gt, lower.cmp_eq_gt]
      rfl
  · rw [greater.cmp_eq_gt, (Prod.Lex.toLex_lt_toLex.2 (.inl greater)).cmp_eq_gt]
    rfl

namespace Cell

/-- Where a cell stands among all cells: by its kind, then its number, then its text. -/
def place : Cell → ℕ ×ₗ WithBot (WithTop ℚ) ×ₗ String
  | .null | .real .notANumber => toLex (0, toLex (((0 : ℚ) : WithTop ℚ), ""))
  | .int n => toLex (1, toLex (((n : ℚ) : WithTop ℚ), ""))
  | .real d => toLex (1, toLex (d.value, ""))
  | .text s => toLex (2, toLex (((0 : ℚ) : WithTop ℚ), s))

theorem place_real {d : Double} (known : d ≠ .notANumber) :
    place (.real d) = toLex (1, toLex (d.value, "")) := by
  cases d with
  | notANumber => exact absurd rfl known
  | infinite => rfl
  | finite => rfl

private theorem rank_real {d : Double} (known : d ≠ .notANumber) : rank (.real d) = 1 := by
  cases d with
  | notANumber => exact absurd rfl known
  | infinite => rfl
  | finite => rfl

private theorem place_rank (a : Cell) : ∃ rest, a.place = toLex (a.rank, rest) := by
  cases a with
  | real d => cases d <;> exact ⟨_, rfl⟩
  | _ => exact ⟨_, rfl⟩

/-- Cells of different kinds stand as their kinds do. -/
private theorem order_of_rank_ne {a b : Cell} (different : a.rank ≠ b.rank) :
    order a b = cmp a.place b.place := by
  obtain ⟨restOfFirst, first⟩ := place_rank a
  obtain ⟨restOfSecond, second⟩ := place_rank b
  have byRank : order a b = compare a.rank b.rank := by
    cases a with
    | null => rfl
    | text s => cases b <;> first | rfl | exact absurd rfl different
    | int m =>
      cases b with
      | int n => exact absurd rfl different
      | real d => cases d <;> first | rfl | exact absurd rfl different
      | _ => rfl
    | real d =>
      cases b with
      | int n => cases d <;> first | rfl | exact absurd rfl different
      | real e => cases d <;> cases e <;> first | rfl | exact absurd rfl different
      | _ => rfl
  rw [byRank, first, second, cmp_toLex, ← cmp_eq_compare]
  rcases lt_or_gt_of_ne different with less | greater
  · rw [less.cmp_eq_lt]
    rfl
  · rw [greater.cmp_eq_gt]
    rfl

/-- The order of cells is that of their places. -/
theorem order_eq_cmp (a b : Cell) : order a b = cmp a.place b.place := by
  by_cases sameKind : a.rank = b.rank
  · cases a with
    | null =>
      cases b with
      | null => exact (cmp_self_eq_eq _).symm
      | real d => cases d <;> first | exact (cmp_self_eq_eq _).symm | cases sameKind
      | _ => cases sameKind
    | text s =>
      cases b with
      | text t =>
        rw [place, place, cmp_toLex, cmp_self_eq_eq, cmp_toLex, cmp_self_eq_eq]
        exact (cmp_eq_compare s t).symm
      | real d => cases d <;> cases sameKind
      | _ => cases sameKind
    | int m =>
      cases b with
      | int n =>
        have lifted := (WithBot.coe_strictMono.cmp_map_eq ((m : ℚ) : WithTop ℚ) (n : ℚ)).trans
          (WithTop.coe_strictMono.cmp_map_eq (m : ℚ) n)
        rw [order, place, place, cmp_toLex, cmp_self_eq_eq, cmp_toLex, cmp_self_eq_eq, Ordering.then_eq, Double.compare_int]
        exact lifted.symm
      | real d =>
        have known : d ≠ .notANumber := by
          rintro rfl
          cases sameKind
        rw [place_real known, place, cmp_toLex, cmp_self_eq_eq, cmp_toLex, cmp_self_eq_eq, Ordering.then_eq, ← cmp_swap]
        rw [order, Double.compareInt?_eq known]
        rfl
      | _ => cases sameKind
    | real d =>
      by_cases known : d = .notANumber
      · subst known
        cases b with
        | null => exact (cmp_self_eq_eq _).symm
        | real e => cases e <;> first | exact (cmp_self_eq_eq _).symm | cases sameKind
        | _ => cases sameKind
      · rw [rank_real known] at sameKind
        cases b with
        | int n =>
          rw [place_real known, place, cmp_toLex, cmp_self_eq_eq, cmp_toLex, cmp_self_eq_eq, Ordering.then_eq]
          rw [order, Double.compareInt?_eq known]
          rfl
        | real e =>
          have knownToo : e ≠ .notANumber := by
            rintro rfl
            cases sameKind
          rw [place_real known, place_real knownToo, cmp_toLex, cmp_self_eq_eq, cmp_toLex, cmp_self_eq_eq, Ordering.then_eq]
          rw [order, Double.compare?_eq known knownToo]
          rfl
        | _ => cases sameKind
  · exact order_of_rank_ne sameKind

theorem order_swap (a b : Cell) : order a b = (order b a).swap := by
  rw [order_eq_cmp, order_eq_cmp, cmp_swap]

instance : Std.TransCmp order where
  eq_swap {a b} := order_swap a b
  isLE_trans {a b c} first second := by
    rw [order_eq_cmp, Ordering.isLE_iff_ne_gt] at *
    have lower := le_trans (not_lt.1 fun above => first (cmp_eq_gt_iff _ _ |>.2 above))
      (not_lt.1 fun above => second (cmp_eq_gt_iff _ _ |>.2 above))
    exact fun above => not_lt.2 lower ((cmp_eq_gt_iff _ _).1 above)

theorem order_trans {a b c : Cell} : (order a b).isLE → (order b c).isLE → (order a c).isLE :=
  Std.TransCmp.isLE_trans

/-- Cells stand in one place of the order if they are equal in it. -/
theorem order_eq_iff {a b : Cell} : order a b = .eq ↔ a.place = b.place := by
  rw [order_eq_cmp, cmp_eq_eq_iff]

theorem order_self (a : Cell) : order a a = .eq := by
  rw [order_eq_cmp, cmp_self_eq_eq]

theorem order_real {d e : Double} (first : d ≠ .notANumber) (second : e ≠ .notANumber) :
    order (.real d) (.real e) = .eq ↔ d.sameValue e = true := by
  rw [order, Double.sameValue, Double.compare?_eq first second, Option.getD_some, beq_iff_eq, Option.some.injEq]

end Cell

end ResourceApi
