import ResourceApi.Proofs.Resource.Paths
import ResourceApi.Proofs.Search.Accepted

/-!
A search that is validated fits its resource, with all its includes.
-/

namespace ResourceApi

open Outcome Reading RuleSet

namespace Search

variable {graph : Graph} {resource : Resource}

theorem limit_fits {answer : GraphRule.Answer} {set : RuleSet} {members : Members}
    (none : set.errors answer (.object members) = .ok [])
    (rule : ("limit", [.sometimes, .isInteger, .oneOf resource.limits]) ∈ set) {limit : Option Int}
    (read : member members "limit" Option.none (optional integer) = done limit) : resource.Limits limit := by
  have reached : (⟨[.member "limit"], some members, members.get? "limit"⟩ : Attribute) ∈
      Attribute.expand (.object members) "limit" := by
    have names : (Path.segments "limit").map Segment.ofText = [.name "limit"] := by decide
    rw [Attribute.expand, names, Attribute.below_last]
    exact List.mem_singleton.2 rfl
  have kept := placeErrors_of_errors none rule reached
  intro count asked
  rcases member_eq_done.1 read with ⟨value, found, given⟩ | ⟨-, default⟩
  · rw [found] at kept
    have isInteger := constraintErrors_of_present kept rfl (List.mem_cons_of_mem _ List.mem_cons_self)
    have listed := isIn_of_met rfl
      (constraintErrors_of_present kept rfl (List.mem_cons_of_mem _ (List.mem_cons_of_mem _ List.mem_cons_self)))
    cases value with
    | int n =>
      rcases optional_eq_done given with ⟨isNull, -⟩ | ⟨m, same, rfl⟩
      · cases isNull
      · cases same
        cases asked
        exact listed
    | _ => simp [constraintErrors, Constraint.problem?] at isInteger
  · rw [asked] at default
    cases default

/-- The parts of a search that keep to its rules fit its resource. -/
theorem parts_fit {answer : GraphRule.Answer} {isRoot : Bool} {set : RuleSet} {members : Members}
    (given : rules graph resource "" isRoot = .ok set) (none : set.errors answer (.object members) = .ok [])
    (answers : ∀ question, IsOfAggregates question → answer question = answerAggregates graph question)
    {filters : List Filter} (filtersRead : member members "filters" [] Filter.readAll = done filters)
    {scopes : List ScopeCall} (scopesRead : member members "scopes" [] (list ScopeCall.read) = done scopes)
    {sorts : List SortKey} (sortsRead : member members "sorts" [] (list SortKey.read) = done sorts)
    {selects : List String} (selectsRead : member members "selects" [] (list Specification.readSelect) = done selects)
    {aggregates : List Aggregate} (aggregatesRead : member members "aggregates" [] (list Aggregate.read) = done aggregates)
    {limit : Option Int} (limitRead : member members "limit" Option.none (optional integer) = done limit) :
    Search.Fits graph resource filters scopes sorts selects aggregates ∧ resource.Limits limit := by
  obtain ⟨fields, ofAggregates, ofIncludes, listed, aggregated, -, inside, limited⟩ := mem_rules given
  simp only [ruleParts, List.forall_mem_cons] at inside
  obtain ⟨ofFilters, ofScopes, ofSorts, ofSelects, inAggregates, -⟩ := inside
  refine ⟨⟨fun filter member => ⟨fields, listed, filters_fit none ofFilters filtersRead filter member⟩, ?_, ?_, ?_, ?_⟩,
    limit_fits none limited limitRead⟩
  · exact scopes_fit none ofScopes scopesRead
  · exact sorts_fit none ofSorts sortsRead
  · exact selects_fit none ofSelects selectsRead
  · exact aggregates_fit none answers aggregated inAggregates aggregatesRead

/-! ## Includes -/

/-- A list whose member says nothing is empty. -/
private theorem empty_of_falsy {α : Type} {members : Members} {key : String} {read : Json → Reading α} {values : List α}
    (falsy : ((members.get? key).map Json.truthy).getD false = false)
    (success : member members key [] (list read) = done values) : values = [] := by
  rcases member_list_eq_done success with ⟨items, found, pointwise⟩ | ⟨-, rfl⟩
  · have noItems : items = [] := by simpa [found, Json.truthy] using falsy
    subst noItems
    exact List.forall₂_nil_left_iff.1 pointwise
  · rfl

private theorem falsy_of_answer {relation : Relation} {target : Resource} {item : Members} {path place : String}
    (none : answer graph (.includable resource) (.object item) place = .ok [])
    (relationGiven : item.get? "relation" = some (.text path))
    (leads : graph.resolve? resource (.text path) = .ok (some (relation, target))) (single : ¬relation.isNestable) :
    ∀ key ∈ nestedKeys, ((item.get? key).map Json.truthy).getD false = false := by
  have relationIs : (Json.object item).get? "relation" = some (.text path) := relationGiven
  simp only [answer, relationIs, Option.getD_some, leads, bind_eq_ok, Except.ok.injEq, exists_eq_left',
    if_neg single, pure_eq_ok, List.map_eq_nil_iff, List.filter_eq_nil_iff] at none
  exact fun key member => Bool.eq_false_iff.2 (none key member)

theorem answer_ofAggregates (question : GraphRule) (ofAggregates : IsOfAggregates question) :
    answer graph question = answerAggregates graph question := by
  obtain ⟨resource, rfl | rfl⟩ := ofAggregates <;> rfl

/-- An include that keeps to the rules fits, by the rules of the resource that it leads to. -/
private theorem include_fits {item : Members} {asked : Include} {place : String}
    (none : answer graph (.includable resource) (.object item) place = .ok [])
    (read : Include.read (.object item) = done asked) {paths : List (String × Relation)}
    (computed : graph.searchPaths resource = .ok paths) (listed : asked.relation ∈ paths.map (·.1)) :
    asked.Fits graph resource := by
  obtain ⟨_, same, parts⟩ := object_eq_done.1 read
  cases same
  simp only [seq_eq_done, map_eq_done, required_eq_done, text_eq_done] at parts
  obtain ⟨_, ⟨_, ⟨_, ⟨_, ⟨_, ⟨_, ⟨path, ⟨_, pathGiven, rfl⟩, rfl⟩, filters, filtersRead, rfl⟩, scopes, scopesRead, rfl⟩,
    sorts, sortsRead, rfl⟩, selects, selectsRead, rfl⟩, aggregates, aggregatesRead, rfl⟩, limit, limitRead, rfl⟩ := parts
  refine ⟨⟨paths, computed, listed⟩, ?_⟩
  have relationIs : (Json.object item).get? "relation" = some (.text path) := pathGiven
  have asked := none
  simp only [answer, relationIs, Option.getD_some, bind_eq_ok] at asked
  obtain ⟨found, resolved, after⟩ := asked
  obtain ⟨hops, hop, target, walked, last, leads, rfl⟩ := Graph.exists_of_resolve? computed listed resolved
  refine ⟨hop.2, target, resolved, fun nestable => ?_, fun single => ?_⟩
  · simp only [nestable, if_true, bind_eq_ok] at after
    obtain ⟨set, given, clear⟩ := after
    exact parts_fit given (errors_of_errorsAt clear) (fun _ _ => rfl) filtersRead scopesRead sortsRead selectsRead
      aggregatesRead limitRead
  · have falsy := falsy_of_answer none pathGiven resolved single
    simp only [nestedKeys, List.forall_mem_cons] at falsy
    obtain ⟨noFilters, noScopes, noSorts, noSelects, noAggregates, -⟩ := falsy
    exact ⟨empty_of_falsy noFilters filtersRead, empty_of_falsy noScopes scopesRead, empty_of_falsy noSorts sortsRead,
      empty_of_falsy noSelects selectsRead, empty_of_falsy noAggregates aggregatesRead⟩

theorem includes_fit {set : RuleSet} {members : Members}
    (none : set.errors (answer graph) (.object members) = .ok []) {rules : RuleSet}
    (given : includeRules graph resource "includes" = .ok rules) (inside : ∀ entry ∈ rules, entry ∈ set)
    {includes : List Include} (read : member members "includes" [] (list Include.read) = done includes) :
    ∀ item ∈ includes, item.Fits graph resource := by
  simp only [includeRules, bind_eq_ok, pure_eq_ok] at given
  obtain ⟨paths, computed, rfl⟩ := given
  simp only [String.reduceAppend, List.forall_mem_cons] at inside
  obtain ⟨-, whole, relation, -⟩ := inside
  rcases member_list_eq_done read with ⟨items, found, pointwise⟩ | ⟨-, rfl⟩
  · intro asked member
    obtain ⟨_, present, readItem⟩ := forall₂_mem_right pointwise member
    obtain ⟨item, rfl, parts⟩ := object_eq_done.1 readItem
    obtain ⟨_, clear⟩ := answer_of_item none whole (by decide) (List.mem_cons_of_mem _ List.mem_cons_self) found present
    simp only [seq_eq_done, map_eq_done, required_eq_done, text_eq_done] at parts
    obtain ⟨_, ⟨_, ⟨_, ⟨_, ⟨_, ⟨_, ⟨path, ⟨_, pathGiven, rfl⟩, rfl⟩, _, -, rfl⟩, _, -, rfl⟩, _, -, rfl⟩, _, -, rfl⟩,
      _, -, rfl⟩, _, -, rfl⟩ := parts
    exact include_fits clear readItem computed
      (mem_of_key none relation (by decide) (paths.map (·.1)) (by simp) found present pathGiven)
  · simp

/-- A validated search asks for nothing that its resource, and the resources behind its includes, do not offer. -/
theorem fits_of_validate {body : Json} {spec : Specification} (accepted : validate graph resource body = .ok spec) :
    spec.Fits graph resource := by
  unfold validate at accepted
  cases body with
  | object members =>
    simp only [Json.isObject, Bool.not_true, Bool.false_eq_true, if_false, bind_eq_ok] at accepted
    obtain ⟨set, given, errors, checked, read⟩ := accepted
    cases errors with
    | cons error rest => cases read
    | nil =>
      have done : Specification.read (.object members) = done spec := by
        cases outcome : Specification.read (.object members) <;> rw [outcome] at read <;> cases read
        rfl
      obtain ⟨_, same, parts⟩ := object_eq_done.1 done
      cases same
      simp only [seq_eq_done, map_eq_done] at parts
      obtain ⟨_, ⟨_, ⟨_, ⟨_, ⟨_, ⟨_, ⟨_, ⟨filters, filtersRead, rfl⟩, scopes, scopesRead, rfl⟩, sorts, sortsRead, rfl⟩,
        selects, selectsRead, rfl⟩, aggregates, aggregatesRead, rfl⟩, includes, includesRead, rfl⟩, limit, limitRead,
        rfl⟩, page, -, rfl⟩ := parts
      obtain ⟨fit, limited⟩ := parts_fit given checked answer_ofAggregates filtersRead scopesRead sortsRead selectsRead
        aggregatesRead limitRead
      obtain ⟨_, _, _, _, _, included, inside, _⟩ := mem_rules given
      simp only [ruleParts, List.forall_mem_cons] at inside
      exact ⟨fit, includes_fit checked included inside.2.2.2.2.2.1 includesRead, limited⟩
  | _ => cases accepted

end Search

end ResourceApi
