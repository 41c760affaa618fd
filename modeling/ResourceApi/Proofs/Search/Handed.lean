import ResourceApi.Proofs.Relation.Handed
import ResourceApi.Proofs.Search.Precedence
import ResourceApi.Proofs.Search.Walked

/-!
What the queries of a search hand to the storage. A specification whose comparisons can be made, with values that fit a
word, is compiled into queries with such values, or refused in a way that clients are told about.
-/

namespace ResourceApi

open Outcome Query

/-- A comparison of a filter that can be made of any column, with a value that fits a word. -/
def Filter.CanCompare (comparison : Option String × String × Json) : Prop :=
  ∀ kind, Comparison.ofSymbol? comparison.2.1 = some kind → kind.Takes comparison.2.2 ∧ comparison.2.2.IsModest

/-- All comparisons of an include, those of its aggregates among them. -/
def Include.comparisons (item : Include) : List (Option String × String × Json) :=
  Filter.comparisonsOfAll item.filters ++ item.aggregates.flatMap (Filter.comparisonsOfAll ·.filters)

/-- An include without scopes whose comparisons can all be made. -/
structure Include.CanCompare (item : Include) : Prop where
  scopes : item.scopes = []
  comparisons : ∀ comparison ∈ item.comparisons, Filter.CanCompare comparison

/-- An integer below 2 ^ 31 in absolute value. -/
def Word.IsShort (n : Int) : Prop := n.natAbs < 2 ^ 31

/-- A specification without scopes and with short numbers, whose comparisons can all be made. -/
structure Specification.CanCompile (spec : Specification) : Prop where
  scopes : spec.scopes = []
  filters : ∀ comparison ∈ Filter.comparisonsOfAll spec.filters, Filter.CanCompare comparison
  aggregates : ∀ comparison ∈ spec.aggregates.flatMap (Filter.comparisonsOfAll ·.filters), Filter.CanCompare comparison
  includes : ∀ item ∈ spec.includes, item.CanCompare
  limit : ∀ n, spec.limit = some n → Word.IsShort n
  page : Word.IsShort spec.page

/-- A plan whose queries hand over values that fit a word. -/
structure Plan.Fits (plan : Plan) : Prop where
  counted : Bound.FitAll (allBounds plan.counted)
  page : Bound.FitAll plan.page.bounds
  includes : ∀ step ∈ plan.includes, ∀ query ∈ step.queries, Bound.FitAll query.query.bounds

namespace Plan

variable {schema : Schema} {graph : Graph} {resource : Resource}

/-! ## Columns -/

theorem ownColumn_told (resource : Resource) (slot : Nat) (name : String) : Tells (ownColumn resource slot name) := by
  unfold ownColumn
  split
  · trivial
  · rfl

theorem keyColumn_told (complete : resource.Complete schema graph) (slot : Nat) : Tells (keyColumn resource slot) := by
  obtain ⟨column, found⟩ := complete.keyColumn_eq_ok slot
  exact Delivers.of_eq_ok found trivial

theorem columns_told (resource : Resource) (slot : Nat) (selects required : List String) :
    Delivers (fun outputs => outputs.flatMap outputBounds = []) (columns resource slot selects required) := by
  refine (Delivers.mapM fun entry _ => ?_).mono fun outputs _ none => List.flatMap_eq_nil_iff.2 none
  exact (ownColumn_told resource slot entry.1).bind fun _ _ _ => rfl

theorem order_told (complete : resource.Complete schema graph) (slot : Nat) (sorts : List SortKey) :
    Tells (order resource slot sorts) := by
  unfold order
  refine (Delivers.each fun entry _ => ?_).bind fun listed _ _ => ?_
  · exact (ownColumn_told resource slot entry.1).bind fun _ _ _ => trivial
  · split
    · trivial
    · exact (keyColumn_told complete slot).bind fun _ _ _ => trivial

theorem argument_told (related : Related) (measure : Measure) (field : Option String) :
    Tells (argument related measure field) := by
  unfold argument
  split
  · trivial
  · trivial
  · rfl
  · exact (ownColumn_told _ _ _).map fun _ => id

/-! ## Filters and aggregates -/

section Comparing

variable (complete : graph.Complete schema) (tagged : graph.Tagged) (member : resource ∈ graph.resources)
include complete tagged member

omit member in
/-- The rows at the end of a path can be looked for. -/
theorem related_delivers (slot : Nat) {path : String} {hops : List (Resource × Relation)}
    (walked : graph.hops resource path = .ok hops) (within : graph.Within hops) :
    Delivers (·.Fits graph) (RelatedPath.ofHops graph resource.table slot hops) := by
  refine RelatedPath.ofHops_delivers complete tagged within (fun empty => ?_) resource.table slot
  have same := Graph.length_of_walk walked
  rw [empty, eq_comm, List.length_nil, List.length_eq_zero_iff] at same
  exact Path.names_ne_nil path same

theorem leafCondition_delivers (slot : Nat) {field : Option String} {operator : String} {value : Json}
    (can : Filter.CanCompare (field, operator, value)) :
    Delivers (fun condition => Bound.FitAll (boundsOf condition))
      (leafCondition graph resource slot field operator value) := by
  unfold leafCondition
  split
  · next name comparison known =>
    obtain ⟨takes, modest⟩ := can comparison known
    split
    · exact (ownColumn_told _ _ _).bind fun column _ _ => Cond.ofComparison_delivers takes modest column
    · refine (complete.hops member _).bind fun hops walked within => ?_
      refine (related_delivers complete tagged slot walked within).bind fun related _ fits => ?_
      refine (ownColumn_told _ _ _).bind fun column _ _ => ?_
      refine (Cond.ofComparison_delivers takes modest column).bind fun condition _ fit => ?_
      have inner : Bound.FitAll (allBounds (related.conditions ++ [condition])) := by
        rw [allBounds_append, allBounds, allBounds, List.append_nil]
        exact fits.conditions.append fit
      change Bound.FitAll (boundsOf (.exist _ _ _))
      rw [boundsOf, allBounds_conjuncts]
      exact fits.source.append inner
  · rfl

-- The two theorems use the hypotheses of the section together, which the linter does not see of the second one.
set_option linter.unusedSectionVars false in
mutual
theorem filterCondition_delivers (slot : Nat) : ∀ {filter : Filter},
    (∀ comparison ∈ filter.comparisons, Filter.CanCompare comparison) →
      Delivers (fun found => Bound.FitAll (allBounds found.toList)) (filterCondition graph resource slot filter)
  | ⟨field, operator, value, joining, nested⟩, can => by
    cases nested with
    | none =>
      rw [Filter.comparisons, List.forall_mem_singleton] at can
      rw [filterCondition]
      refine (leafCondition_delivers complete tagged member slot can).bind fun condition _ fit => ?_
      change Bound.FitAll (boundsOf condition ++ [])
      rwa [List.append_nil]
    | some filters =>
      rw [Filter.comparisons] at can
      rw [filterCondition]
      refine (filterConditions_delivers slot can).bind fun conditions _ fit => ?_
      change Bound.FitAll (allBounds (combine conditions).toList)
      rwa [allBounds_combine]

theorem filterConditions_delivers (slot : Nat) : ∀ {filters : List Filter},
    (∀ comparison ∈ Filter.comparisonsOfAll filters, Filter.CanCompare comparison) →
      Delivers (fun conditions => Bound.FitAll (allBounds (conditions.map (·.2))))
        (filterConditions graph resource slot filters)
  | [], _ => Bound.FitAll.nil
  | filter :: rest, can => by
    rw [Filter.comparisonsOfAll, List.forall_mem_append] at can
    rw [filterConditions]
    refine (filterCondition_delivers slot can.1).bind fun found _ here => ?_
    have later := filterConditions_delivers slot can.2
    split
    · next condition =>
      refine later.bind fun conditions _ fit => ?_
      rw [Option.toList_some, allBounds, allBounds, List.append_nil] at here
      exact here.append fit
    · exact later
end

theorem filtersCondition_delivers (slot : Nat) {filters : List Filter}
    (can : ∀ comparison ∈ Filter.comparisonsOfAll filters, Filter.CanCompare comparison) :
    Delivers (fun conditions => Bound.FitAll (allBounds conditions)) (filtersCondition graph resource slot filters) := by
  refine (filterConditions_delivers complete tagged member slot can).bind fun conditions _ fit => ?_
  change Bound.FitAll (allBounds (combine conditions).toList)
  rwa [allBounds_combine]

theorem aggregate_delivers (slot : Nat) {item : Aggregate}
    (can : ∀ comparison ∈ Filter.comparisonsOfAll item.filters, Filter.CanCompare comparison) :
    Delivers (fun output => Bound.FitAll (outputBounds output)) (aggregate graph resource slot item) := by
  unfold aggregate
  refine (complete.hops member item.relation).bind fun hops walked within => ?_
  refine (related_delivers complete tagged slot walked within).bind fun related _ fits => ?_
  refine (filtersCondition_delivers complete tagged fits.target related.last.slot can).bind fun filtered _ ofFilters => ?_
  refine (argument_told _ _ _).bind fun taken _ _ => ?_
  change Bound.FitAll (sourceBounds _ ++ allBounds _)
  rw [allBounds_conjuncts, allBounds_append]
  exact fits.source.append (fits.conditions.append ofFilters)

/-- The aggregates of a search hand over what their filters do. -/
theorem aggregates_deliver (slot : Nat) {items : List Aggregate}
    (can : ∀ comparison ∈ items.flatMap (Filter.comparisonsOfAll ·.filters), Filter.CanCompare comparison) :
    Delivers (fun outputs => Bound.FitAll (outputs.flatMap outputBounds)) (items.mapM (aggregate graph resource slot)) := by
  rw [List.forall_mem_flatMap] at can
  refine (Delivers.mapM fun item asked => aggregate_delivers complete tagged member slot (can item asked)).mono ?_
  exact fun outputs _ fit => List.forall_mem_flatMap.2 fit

end Comparing

/-! ## Queries -/

section Planning

variable (complete : graph.Complete schema) (tagged : graph.Tagged)
include complete tagged

theorem includeQuery_delivers {related : Related} (fits : related.Fits) (member : related.target ∈ graph.resources)
    {item : Include} (can : item.CanCompare) (required : List String) :
    Delivers (fun query => Bound.FitAll query.bounds) (includeQuery graph related item required) := by
  obtain ⟨ofFilters, ofAggregates⟩ := List.forall_mem_append.1 can.comparisons
  have noScopes : scopeConditions related.target related.slot [] = .ok [] := rfl
  simp only [includeQuery, can.scopes, noScopes, ok_bind]
  refine (filtersCondition_delivers complete tagged member _ ofFilters).bind fun filters _ fit => ?_
  refine (columns_told _ _ _ _).bind fun shown _ unbound => ?_
  refine (order_told (complete _ member) _ _).bind fun order _ _ => ?_
  refine (aggregates_deliver complete tagged member _ ofAggregates).bind fun aggregates _ fitToo => ?_
  have added : (Output.column related.matching (some parentKeyLabel) :: related.pivotColumns.map fun column =>
      .column column (some (pivotLabelStart ++ column.name))).flatMap outputBounds = [] := by
    simp [List.flatMap_cons, List.flatMap_map, outputBounds]
  change Bound.FitAll (Query.bounds _)
  simp only [Query.bounds, List.flatMap_append, unbound, added, List.nil_append, List.append_nil, allBounds_conjuncts,
    allBounds_append, allBounds, boundsOf]
  exact (fitToo.append fits.source).append (fits.conditions.append fit)

omit complete tagged in
/-- What is asked for at a path is so, or what is asked for when nothing is said of it, if it is so of all includes. -/
theorem forall_searchOf {good : Include → Prop} (nothing : ∀ path limit, good { relation := path, limit })
    {includes : List Include} (each : ∀ item ∈ includes, good item) (relation : Relation) (path : String) :
    good (searchOf relation (requested includes path)) := by
  have asked : good (requested includes path) := by
    unfold requested
    cases found : includes.reverse.find? (·.relation == path) with
    | none => exact nothing path none
    | some item => exact each item (List.mem_reverse.1 (List.mem_of_find?_eq_some found))
  unfold searchOf
  split
  · exact asked
  · exact nothing _ _

omit complete tagged in
theorem canCompare_searchOf {includes : List Include} (can : ∀ item ∈ includes, item.CanCompare) (relation : Relation)
    (path : String) : (searchOf relation (requested includes path)).CanCompare :=
  forall_searchOf (fun _ _ => ⟨rfl, List.forall_mem_nil _⟩) can relation path

theorem loadHop_delivers {includes : List Include} (can : ∀ item ∈ includes, item.CanCompare) {hops : List Hop} {hop : Hop}
    (owned : Owned graph resource hops hop) :
    Delivers (fun step => ∀ query ∈ step.queries, Bound.FitAll query.query.bounds) (loadHop graph includes hops hop) := by
  unfold loadHop
  refine (Related.each_delivers complete tagged owned.member owned.declared).bind fun all _ each => ?_
  refine (@Delivers.mapM _ _ (fun query : IncludeQuery => Bound.FitAll query.query.bounds) _ _
    fun related listed => ?_).bind fun queries _ fit => fit
  obtain ⟨fits, member⟩ := each related listed
  exact (includeQuery_delivers complete tagged fits member (canCompare_searchOf can _ _) _).bind fun query _ fit => fit

omit complete tagged in
private theorem fitsWord_of_le {n : Int} (low : n.natAbs ≤ 2 ^ 62) : (Json.int n).FitsWord := by
  intro m same
  obtain rfl := Json.int.inj same
  have inside : -Word.bound ≤ n ∧ n < Word.bound := by
    unfold Word.bound
    omega
  simpa [Word.holds] using inside

omit complete tagged in
/-- The number of records before a page fits a word. -/
private theorem fitsWord_offset {page limit : Int} (shortPage : Word.IsShort page) (shortLimit : Word.IsShort limit) :
    (Json.int ((max page 1 - 1) * limit)).FitsWord := by
  have before : (max page 1 - 1).natAbs ≤ 2 ^ 31 := by
    unfold Word.IsShort at shortPage
    omega
  have product := Nat.mul_le_mul before (Nat.le_of_lt shortLimit)
  refine fitsWord_of_le ?_
  rw [Int.natAbs_mul]
  exact product.trans (by decide)

omit complete tagged in
private theorem pageLimit_delivers {asked : Option Int} (short : ∀ n, asked = some n → Word.IsShort n)
    (usual : ∃ n, resource.defaultLimit.integer? = some n ∧ Word.IsShort n) :
    Delivers Word.IsShort (pageLimit resource asked) := by
  obtain ⟨n, isInteger, shortToo⟩ := usual
  unfold pageLimit
  split
  · rw [isInteger]
    exact shortToo
  · rw [isInteger]
    exact shortToo
  · exact short _ rfl

/-- A specification that can be compiled is, unless it names what is not there. -/
theorem compile_delivers (member : resource ∈ graph.resources) {spec : Specification} (can : spec.CanCompile)
    (usual : ∃ n, resource.defaultLimit.integer? = some n ∧ Word.IsShort n) :
    Delivers Plan.Fits (compile graph resource spec) := by
  have noScopes : scopeConditions resource 0 [] = .ok [] := rfl
  simp only [compile, can.scopes, noScopes, ok_bind]
  refine (filtersCondition_delivers complete tagged member _ can.filters).bind fun filters _ fit => ?_
  refine (keyColumn_told (complete _ member) _).bind fun key _ _ => ?_
  refine (includeHops_delivers complete member _).bind fun hops _ walked => ?_
  refine (Delivers.mapM fun hop listed => loadHop_delivers complete tagged can.includes (walked.owned hop listed)).bind
    fun includes _ loaded => ?_
  refine (columns_told _ _ _ _).bind fun shown _ unbound => ?_
  refine (order_told (complete _ member) _ _).bind fun order _ _ => ?_
  refine (aggregates_deliver complete tagged member _ can.aggregates).bind fun aggregates _ fitToo => ?_
  refine (pageLimit_delivers can.limit usual).bind fun limit _ short => ?_
  have counted : Bound.FitAll (allBounds (Cond.conjuncts (Related.alive resource 0 ++ filters))) := by
    rw [allBounds_conjuncts, allBounds_append, Related.allBounds_alive, List.nil_append]
    exact fit
  simp only [List.nil_append, List.append_nil]
  refine ⟨counted, ?_, loaded⟩
  simp only [Query.bounds, List.flatMap_append, unbound, List.nil_append, sourceBounds, List.append_nil]
  refine (fitToo.append counted).append ?_
  refine List.forall_mem_cons.2 ⟨fitsWord_of_le ?_, List.forall_mem_singleton.2 (fitsWord_offset can.page short)⟩
  unfold Word.IsShort at short
  omega

end Planning

end Plan

end ResourceApi
