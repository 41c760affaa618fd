import ResourceApi.Proofs.Resource.Followed
import ResourceApi.Proofs.Rule.Asked
import ResourceApi.Search.Validation

/-!
Validation hears every body out. Whatever JSON a search is given, it is either read into a specification or refused with a
failure that clients are told about.
-/

namespace ResourceApi.Search

open Outcome RuleSet

variable {schema : Schema} {graph : Graph} {resource : Resource}

/-- A question of the rules of a search, about a resource of the graph. -/
def IsKnown (graph : Graph) (question : GraphRule) : Prop :=
  ∃ resource ∈ graph.resources, question = .includable resource ∨ question = .aggregateField resource ∨
    question = .aggregateFilterable resource

/-! ## What the rules of a search ask -/

private theorem asks_filterRulesFrom (known : GraphRule → Prop) (fields : List Json) (levels : Nat) (path : String) :
    (filterRulesFrom fields levels path).Asks known := by
  have leaf (path : String) : (leafRules fields path).Asks known := by simp [leafRules, Asks]
  induction levels generalizing path with
  | zero => exact (leaf path).append (by simp [Asks])
  | succ levels ih => exact ((leaf path).append (by simp [Asks])).merge (ih _)

section

variable (complete : graph.Complete schema) (member : resource ∈ graph.resources)
include complete member

private theorem filterRules_told (path : String) (depth : Int) (known : GraphRule → Prop) :
    Delivers (·.Asks known) (filterRules graph resource path depth) :=
  (complete.filterFields member).bind fun _ _ _ => asks_filterRulesFrom known _ _ path

private theorem aggregateRules_told (path : String) :
    Delivers (·.Asks (IsKnown graph)) (aggregateRules graph resource path) := by
  refine (complete.aggregatePaths member).bind fun paths _ _ => ?_
  simp only [pure, Except.pure, Delivers, Asks, List.forall_mem_cons]
  simp [IsKnown, member]

private theorem includePart_told (path : String) (isRoot : Bool) :
    Delivers (·.Asks (IsKnown graph)) (includePart graph resource path isRoot) := by
  unfold includePart
  split
  · refine (complete.searchPaths member).bind fun paths _ _ => ?_
    simp only [pure, Except.pure, Delivers, Asks, List.forall_mem_cons]
    simp [IsKnown, member]
  · exact List.forall_mem_nil _

theorem rules_told (path : String) (isRoot : Bool) :
    Delivers (·.Asks (IsKnown graph)) (rules graph resource path isRoot) := by
  unfold rules
  refine (filterRules_told complete member _ 1 (IsKnown graph)).bind fun filters _ ofFilters => ?_
  refine (aggregateRules_told complete member _).bind fun aggregates _ ofAggregates => ?_
  refine (includePart_told complete member _ isRoot).bind fun includes _ ofIncludes => ?_
  refine Asks.append (Asks.append (Asks.foldl_merge (List.forall_mem_nil _) ?_) ?_) ?_
  · simp only [List.forall_mem_cons]
    refine ⟨ofFilters, ?_, ?_, ?_, ofAggregates, ofIncludes, List.forall_mem_nil _⟩ <;>
      simp [Asks, scopeRules, sortRules, selectRules]
  · split <;> simp [Asks]
  · simp [Asks]

end

/-! ## Answers -/

section

variable (complete : graph.Complete schema)
include complete

theorem answerAggregates_told {question : GraphRule} (known : IsKnown graph question) (value : Json) (path : String) :
    Tells (answerAggregates graph question value path) := by
  obtain ⟨resource, member, rfl | rfl | rfl⟩ := known
  · trivial
  · unfold answerAggregates
    dsimp only
    split
    · trivial
    · refine (complete.resolve? member _).bind fun found _ _ => ?_
      split
      · split <;> trivial
      · trivial
  · unfold answerAggregates
    dsimp only
    split
    · trivial
    · refine (complete.resolve? member _).bind fun found _ inside => ?_
      split
      · trivial
      · next relation target =>
        refine (filterRules_told complete (inside _ rfl) _ 1 (fun _ => True)).bind fun set _ asks => ?_
        have silent : ∀ question, True → ∀ value path, Tells (answerNone question value path) := fun _ _ _ _ => trivial
        exact errorsAt_told silent asks value path

theorem answer_told {question : GraphRule} (known : IsKnown graph question) (value : Json) (path : String) :
    Tells (answer graph question value path) := by
  have ofAggregates := answerAggregates_told complete known value path
  obtain ⟨resource, member, rfl | rfl | rfl⟩ := known
  · unfold answer
    refine (complete.resolve? member _).bind fun found _ inside => ?_
    split
    · trivial
    · next relation target =>
      split
      · refine (rules_told complete (inside _ rfl) "" false).bind fun set _ asks => ?_
        exact errorsAt_told (fun question known => answerAggregates_told complete known) asks value path
      · trivial
  · exact ofAggregates
  · exact ofAggregates

/-- A body is refused only in ways that clients are told about. -/
theorem validate_told (member : resource ∈ graph.resources) (body : Json) : Tells (validate graph resource body) := by
  have read : Tells ((Specification.read body).result.mapError Failure.asInvalid) := by
    cases Specification.read body with
    | done spec => trivial
    | failed problems => rfl
  unfold validate
  split
  · rfl
  · refine (rules_told complete member "" true).bind fun set _ asks => ?_
    refine (errors_told (fun question known => answer_told complete known) asks body).bind fun errors _ _ => ?_
    split
    · exact read
    · rfl

end

end ResourceApi.Search
