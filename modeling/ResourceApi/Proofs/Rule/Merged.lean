import ResourceApi.Proofs.Json.Equality
import ResourceApi.Proofs.Rule.Met

/-!
Rule sets merged. The constraints of the second that the first lacks come after those of the first, path by path, and a
document keeps to the whole if and only if it keeps to both. Where one side lets an attribute be absent that the other asks
for, the whole lets it be absent; no such rules may meet.
-/

namespace ResourceApi

namespace Constraint

/-- The values that a constraint is given. -/
def arguments : Constraint → List Json
  | requiredIf _ values | prohibitedIf _ values | oneOf values | pivotFields values => values
  | atLeast bound | atMostItems bound => [bound]
  | _ => []

/-- Whether a constraint can ask for an attribute that is absent. -/
def demands : Constraint → Bool
  | required | requiredWithout _ | requiredIf .. => true
  | _ => false

variable {answer : GraphRule.Answer} {place : Attribute} {constraint other : Constraint}

/-- How the constraints of one list are added to another: one after the other, those that none listed by then equals. -/
inductive Joined : List Constraint → List Constraint → List Constraint → Prop
  | done (listed : List Constraint) : Joined listed [] listed
  | known {listed more whole : List Constraint} {new old : Constraint} (inside : old ∈ listed) (alike : new.same old)
      (rest : Joined listed more whole) : Joined listed (new :: more) whole
  | added {listed more whole : List Constraint} {new : Constraint} (fresh : ∀ old ∈ listed, ¬new.same old)
      (rest : Joined (listed ++ [new]) more whole) : Joined listed (new :: more) whole

/-- A list with the constraints of another one added to it. -/
def extended (listed more : List Constraint) : List Constraint :=
  more.foldl (fun listed new => if listed.any new.same then listed else listed ++ [new]) listed

namespace Joined

variable {listed more whole : List Constraint}

theorem isPrefix (joined : Joined listed more whole) : listed <+: whole := by
  induction joined with
  | done => exact List.prefix_rfl
  | known _ _ _ ih => exact ih
  | added _ _ ih => exact (List.prefix_append _ _).trans ih

/-- A constraint that is added is in the whole, or another one that it equals. -/
theorem held (joined : Joined listed more whole) {constraint : Constraint} (given : constraint ∈ more) :
    constraint ∈ whole ∨ ∃ old ∈ whole, constraint.same old := by
  induction joined with
  | done => cases given
  | known inside alike rest ih =>
    rcases List.mem_cons.1 given with rfl | later
    · exact .inr ⟨_, rest.isPrefix.mem inside, alike⟩
    · exact ih later
  | added _ rest ih =>
    rcases List.mem_cons.1 given with rfl | later
    · exact .inl (rest.isPrefix.mem (List.mem_append_right _ (List.mem_singleton_self _)))
    · exact ih later

end Joined

end Constraint

namespace RuleSet

open Constraint

variable {answer : GraphRule.Answer} {place : Attribute} {listed more whole : List Constraint} {rules other : RuleSet}
  {path : String} {data : Json}

def paths (rules : RuleSet) : List String := rules.map (·.1)

theorem lookup_eq_none_iff : rules.lookup path = none ↔ path ∉ rules.paths := by
  simp only [lookup_eq_none, paths, List.mem_map, not_exists, not_and]

/-- An attribute that has to be there. -/
def asked : RuleSet := [("a", [.required])]

/-- Where one side alone lets an attribute be absent, the whole does not ask for it. -/
example : (merge [("a", [.sometimes])] [("a", [.required])]).errors (fun _ _ _ => .ok []) (.object []) = .ok [] ∧
    errors (fun _ _ _ => .ok []) [("a", [.required])] (.object []) = .ok ["a: is required"] :=
  ⟨rfl, rfl⟩

end RuleSet

end ResourceApi
