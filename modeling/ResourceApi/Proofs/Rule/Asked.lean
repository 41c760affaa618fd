import ResourceApi.Proofs.Told
import ResourceApi.Rule.Check

/-!
What rules ask of the graph. A document is checked against a rule set without any failure that clients are not told about
if the questions of its rules are answered without one.
-/

namespace ResourceApi.RuleSet

open Outcome

/-- A rule set that asks only some questions. -/
def Asks (known : GraphRule → Prop) (rules : RuleSet) : Prop :=
  ∀ entry ∈ rules, ∀ question, .graph question ∈ entry.2 → known question

variable {known : GraphRule → Prop} {rules others : RuleSet}

/-! ## Putting rule sets together -/

theorem Asks.append (first : rules.Asks known) (second : others.Asks known) : Asks known (rules ++ others) :=
  List.forall_mem_append.2 ⟨first, second⟩

private theorem Asks.added {constraints listed : List Constraint}
    (kept : ∀ question, .graph question ∈ listed → known question)
    (new : ∀ question, .graph question ∈ constraints → known question) :
    ∀ question, .graph question ∈ constraints.foldl (fun listed new =>
      if listed.any new.same then listed else listed ++ [new]) listed → known question := by
  induction constraints generalizing listed with
  | nil => exact kept
  | cons constraint rest ih =>
    refine ih (fun question inside => ?_) fun question later => new question (List.mem_cons_of_mem _ later)
    dsimp only at inside
    split at inside
    · exact kept question inside
    · rcases List.mem_append.1 inside with old | here
      · exact kept question old
      · exact new question (List.mem_singleton.1 here ▸ List.mem_cons_self)

theorem Asks.extend (first : rules.Asks known) (path : String) {constraints : List Constraint}
    (new : ∀ question, .graph question ∈ constraints → known question) : (rules.extend path constraints).Asks known := by
  unfold RuleSet.extend
  dsimp only
  split
  · intro entry changed
    obtain ⟨old, inside, rfl⟩ := List.mem_map.1 changed
    split
    · exact Asks.added (first old inside) new
    · exact first old inside
  · exact first.append (List.forall_mem_singleton.2
      (Asks.added (fun _ inside => absurd inside List.not_mem_nil) new))

theorem Asks.merge (first : rules.Asks known) (second : others.Asks known) : (rules.merge others).Asks known := by
  unfold RuleSet.merge
  induction others generalizing rules with
  | nil => exact first
  | cons entry rest ih =>
    obtain ⟨here, later⟩ := List.forall_mem_cons.1 second
    exact ih (first.extend entry.1 here) later

theorem Asks.foldl_merge {sets : List RuleSet} (first : rules.Asks known) (each : ∀ set ∈ sets, set.Asks known) :
    (sets.foldl RuleSet.merge rules).Asks known := by
  induction sets generalizing rules with
  | nil => exact first
  | cons set rest ih =>
    obtain ⟨here, later⟩ := List.forall_mem_cons.1 each
    exact ih (first.merge here) later

/-! ## Checking -/

variable {answer : GraphRule.Answer}
  (answered : ∀ question, known question → ∀ value path, Tells (answer question value path))
include answered

private theorem constraintErrors_told {constraint : Constraint}
    (asks : ∀ question, constraint = .graph question → known question) (place : Attribute) :
    Tells (constraintErrors answer place constraint) := by
  unfold constraintErrors
  split
  · trivial
  · trivial
  · rfl
  · next question value _ => exact answered question (asks question rfl) value place.path
  · split <;> trivial

private theorem attributeErrors_told {constraints : List Constraint}
    (asks : ∀ question, .graph question ∈ constraints → known question) (place : Attribute) :
    Tells (attributeErrors answer place constraints) := by
  induction constraints with
  | nil => trivial
  | cons constraint rest ih =>
    have here := constraintErrors_told answered (fun question same => asks question (same ▸ List.mem_cons_self)) place
    refine here.bind fun messages _ _ => ?_
    split
    · trivial
    · exact (ih fun question later => asks question (List.mem_cons_of_mem _ later)).bind fun _ _ _ => trivial

theorem errors_told (asks : rules.Asks known) (data : Json) : Tells (rules.errors answer data) := by
  refine (Delivers.each fun entry listed => ?_).bind fun _ _ _ => trivial
  refine (Delivers.each fun place _ => ?_).bind fun _ _ _ => trivial
  unfold placeErrors
  split
  · trivial
  · exact attributeErrors_told answered (asks entry listed) place

theorem errorsAt_told (asks : rules.Asks known) (data : Json) (path : String) : Tells (rules.errorsAt answer data path) :=
  (errors_told answered asks data).bind fun _ _ _ => trivial

end ResourceApi.RuleSet
