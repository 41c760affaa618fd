import ResourceApi.Proofs.Search.Compiled
import ResourceApi.Proofs.Search.Handed
import ResourceApi.Proofs.Search.Validated

/-!
Comparisons of searches that are accepted. The rules see to it that nothing is compared with null and that membership is
asked of lists; if the values are modest besides, all comparisons can be made.
-/

namespace ResourceApi

open Outcome

namespace Filter

/-- A comparison with a value that is not null, and with a list for membership. -/
structure IsValued (comparison : Option String × String × Json) : Prop where
  known : comparison.2.2 ≠ .null
  listed : comparison.2.1 ∈ ["in", "not in"] → comparison.2.2.isList

/-- A comparison with a value whose integers fit a word, and with a truth value only for equality. -/
structure IsModest (comparison : Option String × String × Json) : Prop where
  fits : comparison.2.2.IsModest
  equal : ∀ b, comparison.2.2 = .bool b → comparison.2.1 ∈ ["=", "!="]

theorem IsValued.canCompare {comparison : Option String × String × Json} (valued : IsValued comparison)
    (modest : IsModest comparison) : CanCompare comparison := by
  intro kind found
  have symbol : kind.symbol = comparison.2.1 := by simpa using List.find?_some found
  refine ⟨⟨valued.known, fun several => valued.listed ?_, fun b same => ?_⟩, modest.fits⟩
  · rw [← symbol]
    revert several
    cases kind <;> decide
  · have equal := modest.equal b same
    rw [← symbol] at equal
    revert equal
    cases kind <;> decide

theorem mem_comparisonsOfAll {filters : List Filter} {comparison : Option String × String × Json} :
    comparison ∈ comparisonsOfAll filters ↔ ∃ filter ∈ filters, comparison ∈ filter.comparisons := by
  induction filters with
  | nil => simp [comparisonsOfAll]
  | cons filter rest ih => simp [comparisonsOfAll, ih]

/-- A filter that fits compares with values that say something. -/
theorem Fits.valued {fields : List String} {filter : Filter} (fits : filter.Fits fields) :
    ∀ comparison ∈ filter.comparisons, IsValued comparison := by
  induction fits with
  | @leaf filter name alone named inside known valued several =>
    obtain ⟨field, operator, value, joining, nested⟩ := filter
    cases alone
    rw [comparisons, List.forall_mem_singleton]
    exact ⟨valued, several⟩
  | @group filter filters grouped _ ih =>
    obtain ⟨field, operator, value, joining, nested⟩ := filter
    cases grouped
    intro comparison listed
    rw [comparisons] at listed
    obtain ⟨inner, inside, among⟩ := mem_comparisonsOfAll.1 listed
    exact ih inner inside comparison among

end Filter

/-- All comparisons of a specification, those of its aggregates and includes among them. -/
def Specification.comparisons (spec : Specification) : List (Option String × String × Json) :=
  Filter.comparisonsOfAll spec.filters ++ spec.aggregates.flatMap (Filter.comparisonsOfAll ·.filters) ++
    spec.includes.flatMap (·.comparisons)

/-- A specification without scopes, with short numbers and modest comparisons. -/
structure Specification.IsModest (spec : Specification) : Prop where
  scopes : spec.scopes = []
  scopesBelow : ∀ item ∈ spec.includes, item.scopes = []
  comparisons : ∀ comparison ∈ spec.comparisons, Filter.IsModest comparison
  limit : ∀ n, spec.limit = some n → Word.IsShort n
  page : Word.IsShort spec.page

section

variable {schema : Schema} {graph : Graph} (complete : graph.Complete schema) {resource : Resource}
  (member : resource ∈ graph.resources)

theorem Graph.FiltersFit.valued {filters : List Filter} (fit : graph.FiltersFit resource filters) :
    ∀ comparison ∈ Filter.comparisonsOfAll filters, Filter.IsValued comparison := by
  intro comparison listed
  obtain ⟨filter, inside, among⟩ := Filter.mem_comparisonsOfAll.1 listed
  obtain ⟨fields, -, fits⟩ := fit filter inside
  exact fits.valued comparison among

include complete member

/-- An aggregate that fits has filters that fit the resource behind its path. -/
theorem Aggregate.Fits.valued {item : Aggregate} (fits : item.Fits graph resource) :
    ∀ comparison ∈ Filter.comparisonsOfAll item.filters, Filter.IsValued comparison := by
  obtain ⟨paths, computed, listed⟩ := fits.path
  obtain ⟨all, entry, hops, searched, present, path, walked, -⟩ := Plan.hops_of_aggregatePaths computed listed
  have within := (complete.hops member item.relation).holds walked
  have nonempty : hops ≠ [] := by
    intro empty
    have same := Graph.length_of_walk walked
    rw [empty, eq_comm, List.length_nil, List.length_eq_zero_iff] at same
    exact Path.names_ne_nil _ same
  obtain ⟨inside, declared⟩ := within _ (List.getLast_mem nonempty)
  obtain ⟨target, -, leadsTo⟩ := ((complete _ inside).relations _ declared).target_eq_ok
  have resolved := Graph.resolve?_eq searched (path ▸ List.mem_map_of_mem present) walked
    (List.getLast?_eq_some_getLast nonempty) leadsTo
  exact (fits.behind _ _ resolved).2.valued

/-- The parts of a search that fit compare with values that say something. -/
theorem Search.Fits.valued {filters : List Filter} {scopes : List ScopeCall} {sorts : List SortKey} {selects : List String}
    {aggregates : List Aggregate} (fits : Search.Fits graph resource filters scopes sorts selects aggregates) :
    ∀ comparison ∈ Filter.comparisonsOfAll filters ++ aggregates.flatMap (Filter.comparisonsOfAll ·.filters),
      Filter.IsValued comparison := by
  refine List.forall_mem_append.2 ⟨fits.filters.valued, List.forall_mem_flatMap.2 fun item asked => ?_⟩
  exact (fits.aggregates item asked).valued complete member

theorem Include.Fits.valued {item : Include} (fits : item.Fits graph resource) :
    ∀ comparison ∈ item.comparisons, Filter.IsValued comparison := by
  obtain ⟨relation, target, resolved, nested, bare⟩ := fits.behind
  by_cases nestable : relation.isNestable
  · have inside := (complete.resolve? member _).holds resolved _ rfl
    exact (nested nestable).1.valued complete inside
  · obtain ⟨noFilters, -, -, -, noAggregates⟩ := bare nestable
    unfold Include.comparisons
    rw [noFilters, noAggregates]
    exact List.forall_mem_nil _

/-- What a search that is accepted and modest asks for can be compiled. -/
theorem Specification.Fits.canCompile {spec : Specification} (fits : spec.Fits graph resource) (modest : spec.IsModest) :
    spec.CanCompile := by
  obtain ⟨ofParts, ofIncludes⟩ := List.forall_mem_append.1 modest.comparisons
  have parts := fits.parts.valued complete member
  obtain ⟨ofFilters, ofAggregates⟩ := List.forall_mem_append.1 fun comparison listed =>
    (parts comparison listed).canCompare (ofParts comparison listed)
  refine ⟨modest.scopes, ofFilters, ofAggregates, fun item asked => ⟨modest.scopesBelow item asked, ?_⟩, modest.limit,
    modest.page⟩
  have modestBelow := List.forall_mem_flatMap.1 ofIncludes item asked
  exact fun comparison listed =>
    ((fits.includes item asked).valued complete member comparison listed).canCompare (modestBelow comparison listed)

end

end ResourceApi
