import ResourceApi.Proofs.Query.Truth
import ResourceApi.Search.Plan

/-!
How filters in a row are read. `and` binds closer than `or`, the joining of the first filter is of no account, a group is
its own row in brackets, and a group without comparisons stands for nothing. All of this is so with three outcomes.
-/

namespace ResourceApi

open Outcome Query

/-! ## Reading -/

namespace Truth

/-- What comes of outcomes in a row behind a first one. -/
def chain (current : Truth) : List (Joining × Truth) → Truth
  | [] => current
  | (.and, truth) :: rest => chain (current.both truth) rest
  | (.or, truth) :: rest => current.either (chain truth rest)

/-- What comes of outcomes in a row. -/
def joined : List (Joining × Truth) → Option Truth
  | [] => none
  | (_, truth) :: rest => some (chain truth rest)

theorem joined_eq_none_iff {truths : List (Joining × Truth)} : joined truths = none ↔ truths = [] := by
  cases truths <;> simp [joined]

/-- An `or` divides a row wherever it stands. -/
theorem chain_append_or (current truth : Truth) (before after : List (Joining × Truth)) :
    chain current (before ++ (.or, truth) :: after) = (chain current before).either (chain truth after) := by
  induction before generalizing current with
  | nil => rfl
  | cons entry rest ih =>
    obtain ⟨joining, next⟩ := entry
    cases joining with
    | and => exact ih _
    | or => rw [List.cons_append, chain, chain, ih, either_assoc]

/-- A row without `or` asks for all of it. -/
theorem chain_map_and (current : Truth) (truths : List Truth) :
    chain current (truths.map fun truth => (.and, truth)) = all (current :: truths) := by
  induction truths generalizing current with
  | nil => exact (all_singleton current).symm
  | cons truth rest ih => rw [List.map_cons, chain, ih, all_cons, all_cons, all_cons, both_assoc]

end Truth

namespace Filter

mutual
/-- The outcome of a filter, given those of comparisons. -/
def outcome (leaf : Option String → String → Json → Truth) : Filter → Option Truth
  | ⟨field, operator, value, _, nested⟩ =>
    match nested with
    | some filters => Truth.joined (outcomes leaf filters)
    | none => some (leaf field operator value)
termination_by structural filter => filter

/-- The outcomes of filters in a row, each with how it is joined; those without are passed over. -/
def outcomes (leaf : Option String → String → Json → Truth) : List Filter → List (Joining × Truth)
  | [] => []
  | filter :: rest =>
    match outcome leaf filter with
    | some truth => (filter.joining, truth) :: outcomes leaf rest
    | none => outcomes leaf rest
termination_by structural filters => filters
end

mutual
/-- The comparisons in a filter, at any depth. -/
def comparisons : Filter → List (Option String × String × Json)
  | ⟨field, operator, value, _, nested⟩ =>
    match nested with
    | some filters => comparisonsOfAll filters
    | none => [(field, operator, value)]
termination_by structural filter => filter

def comparisonsOfAll : List Filter → List (Option String × String × Json)
  | [] => []
  | filter :: rest => comparisons filter ++ comparisonsOfAll rest
termination_by structural filters => filters
end

variable {leaf : Option String → String → Json → Truth}

mutual
theorem outcome_eq_none_iff : ∀ {filter : Filter}, filter.outcome leaf = none ↔ filter.comparisons = []
  | ⟨field, operator, value, _, nested⟩ => by
    cases nested with
    | none => simp [outcome, comparisons]
    | some filters =>
      rw [outcome, comparisons]
      exact Truth.joined_eq_none_iff.trans outcomes_eq_nil_iff

theorem outcomes_eq_nil_iff : ∀ {filters : List Filter}, outcomes leaf filters = [] ↔ comparisonsOfAll filters = []
  | [] => by simp [outcomes, comparisonsOfAll]
  | filter :: rest => by
    rw [outcomes, comparisonsOfAll, List.append_eq_nil_iff, ← outcome_eq_none_iff, ← outcomes_eq_nil_iff]
    cases filter.outcome leaf <;> simp
end

end Filter

/-! ## Conditions in a row -/

namespace Plan

section

variable {ground : Ground} {frames : List Frame}

/-- The outcome of groups of which one has to be met, with all of its conditions. -/
private def groupsTruth (ground : Ground) (frames : List Frame) (groups : List (List Cond)) : Truth :=
  Truth.any (groups.map fun group => Truth.all (truths ground frames group))

private theorem groupsTruth_concat (before : List (List Cond)) (last : List Cond) :
    groupsTruth ground frames (before ++ [last]) =
      (groupsTruth ground frames before).either (Truth.all (truths ground frames last)) := by
  rw [groupsTruth, List.map_append, Truth.any_append, List.map_singleton, Truth.any_singleton, groupsTruth]

/-- Conditions added to groups go on with the last one: what is before it stays an alternative. -/
private theorem groupsTruth_addToGroups (conditions : List (Joining × Cond)) (before : List (List Cond))
    (last : List Cond) :
    groupsTruth ground frames (conditions.foldl addToGroups (before ++ [last])) =
      (groupsTruth ground frames before).either (Truth.chain (Truth.all (truths ground frames last))
        (conditions.map fun entry => (entry.1, truth ground frames entry.2))) := by
  induction conditions generalizing before last with
  | nil => exact groupsTruth_concat before last
  | cons entry rest ih =>
    obtain ⟨joining, condition⟩ := entry
    cases joining with
    | and =>
      have grown : addToGroups (before ++ [last]) (.and, condition) = before ++ [last ++ [condition]] := by
        simp [addToGroups]
      have asked : Truth.all (truths ground frames (last ++ [condition])) =
          (Truth.all (truths ground frames last)).both (truth ground frames condition) := by
        rw [truths_append, Truth.all_append, truths, truths, Truth.all_singleton]
      rw [List.foldl_cons, grown, ih, asked, List.map_cons, Truth.chain]
    | or =>
      have opened : addToGroups (before ++ [last]) (.or, condition) = (before ++ [last]) ++ [[condition]] := rfl
      rw [List.foldl_cons, opened, ih, groupsTruth_concat, List.map_cons, Truth.chain, Truth.either_assoc, truths, truths,
        Truth.all_singleton]

private theorem groups_ne_nil (conditions : List (Joining × Cond)) {groups : List (List Cond)} (some : groups ≠ []) :
    conditions.foldl addToGroups groups ≠ [] := by
  induction conditions generalizing groups with
  | nil => exact some
  | cons entry rest ih =>
    refine ih ?_
    obtain ⟨joining, condition⟩ := entry
    cases joining with
    | or => simp [addToGroups]
    | and =>
      rw [addToGroups]
      split <;> simp

/-- Joined conditions come to what their outcomes come to in a row. -/
theorem truth_combine (conditions : List (Joining × Cond)) :
    (combine conditions).map (truth ground frames) =
      Truth.joined (conditions.map fun entry => (entry.1, truth ground frames entry.2)) := by
  cases conditions with
  | nil => rfl
  | cons entry rest =>
    obtain ⟨joining, condition⟩ := entry
    have first : addToGroups [] (joining, condition) = [] ++ [[condition]] := by cases joining <;> rfl
    have groups : groupsTruth ground frames (rest.foldl addToGroups ([] ++ [[condition]])) =
        Truth.chain (truth ground frames condition)
          (rest.map fun entry => (entry.1, truth ground frames entry.2)) := by
      rw [groupsTruth_addToGroups, truths, truths, Truth.all_singleton]
      exact Truth.false_either _
    rw [combine, List.foldl_cons, first]
    split
    · next empty => exact absurd empty (groups_ne_nil rest (by simp))
    · next =>
      have conjunctions (groups : List (List Cond)) :
          truths ground frames (groups.map Cond.conj) =
            groups.map fun group => Truth.all (truths ground frames group) := by
        simp only [truths_eq_map, List.map_map, Function.comp_def, truth_conj]
      rw [Option.map_some, truth_disj, conjunctions]
      exact congrArg Option.some groups

end

/-! ## Filters -/

theorem combine_eq_none_iff {conditions : List (Joining × Cond)} : combine conditions = none ↔ conditions = [] := by
  have read := @truth_combine ⟨fun _ => [], []⟩ [] conditions
  rw [← Option.map_eq_none_iff, read, Truth.joined_eq_none_iff, List.map_eq_nil_iff]

section

variable (graph : Graph) (resource : Resource) (slot : Nat)

/-- A comparison from which a condition can be made. -/
def HasCondition (comparison : Option String × String × Json) : Prop :=
  ∃ condition, leafCondition graph resource slot comparison.1 comparison.2.1 comparison.2.2 = .ok condition

/-- The outcome of the condition that a comparison yields. -/
def leafTruth (ground : Ground) (frames : List Frame) (field : Option String) (operator : String) (value : Json) : Truth :=
  match leafCondition graph resource slot field operator value with
  | .ok condition => truth ground frames condition
  | .error _ => none

end

section

variable {graph : Graph} {resource : Resource} {slot : Nat}

mutual
theorem filterCondition_ok_iff : ∀ filter : Filter,
    (∃ condition, filterCondition graph resource slot filter = .ok condition) ↔
      ∀ comparison ∈ filter.comparisons, HasCondition graph resource slot comparison
  | ⟨field, operator, value, _, nested⟩ => by
    cases nested with
    | none =>
      rw [Filter.comparisons, filterCondition, List.forall_mem_singleton]
      simp only [bind_eq_ok, pure_eq_ok]
      constructor
      · rintro ⟨_, condition, given, -⟩
        exact ⟨condition, given⟩
      · rintro ⟨condition, given⟩
        exact ⟨_, condition, given, rfl⟩
    | some filters =>
      rw [Filter.comparisons, filterCondition, ← filterConditions_ok_iff filters]
      simp only [bind_eq_ok, pure_eq_ok]
      constructor
      · rintro ⟨_, conditions, given, -⟩
        exact ⟨conditions, given⟩
      · rintro ⟨conditions, given⟩
        exact ⟨_, conditions, given, rfl⟩

theorem filterConditions_ok_iff : ∀ filters : List Filter,
    (∃ conditions, filterConditions graph resource slot filters = .ok conditions) ↔
      ∀ comparison ∈ Filter.comparisonsOfAll filters, HasCondition graph resource slot comparison
  | [] => by simp [filterConditions, Filter.comparisonsOfAll]
  | filter :: rest => by
    rw [Filter.comparisonsOfAll, List.forall_mem_append, ← filterCondition_ok_iff filter, ← filterConditions_ok_iff rest,
      filterConditions]
    constructor
    · rintro ⟨conditions, made⟩
      obtain ⟨first, given, after⟩ := bind_eq_ok.1 made
      refine ⟨⟨first, given⟩, ?_⟩
      cases first with
      | none => exact ⟨conditions, after⟩
      | some condition =>
        obtain ⟨others, further, -⟩ := bind_eq_ok.1 after
        exact ⟨others, further⟩
    · rintro ⟨⟨first, given⟩, others, further⟩
      cases first with
      | none => exact ⟨others, bind_eq_ok.2 ⟨none, given, further⟩⟩
      | some condition => exact ⟨_, bind_eq_ok.2 ⟨some condition, given, bind_eq_ok.2 ⟨others, further, rfl⟩⟩⟩
end

variable {ground : Ground} {frames : List Frame}

mutual
theorem truth_filterCondition : ∀ {filter : Filter} {condition : Option Cond},
    filterCondition graph resource slot filter = .ok condition →
      condition.map (truth ground frames) = filter.outcome (leafTruth graph resource slot ground frames)
  | ⟨field, operator, value, _, nested⟩, condition, made => by
    cases nested with
    | none =>
      rw [filterCondition] at made
      simp only [bind_eq_ok, pure_eq_ok] at made
      obtain ⟨leaf, given, rfl⟩ := made
      rw [Option.map_some, Filter.outcome, leafTruth, given]
    | some filters =>
      rw [filterCondition] at made
      simp only [bind_eq_ok, pure_eq_ok] at made
      obtain ⟨conditions, inner, rfl⟩ := made
      rw [truth_combine, truth_filterConditions inner, Filter.outcome]

theorem truth_filterConditions : ∀ {filters : List Filter} {conditions : List (Joining × Cond)},
    filterConditions graph resource slot filters = .ok conditions →
      conditions.map (fun entry => (entry.1, truth ground frames entry.2)) =
        Filter.outcomes (leafTruth graph resource slot ground frames) filters
  | [], conditions, made => by
    cases made
    rfl
  | filter :: rest, conditions, made => by
    rw [filterConditions] at made
    obtain ⟨first, given, after⟩ := bind_eq_ok.1 made
    have here := truth_filterCondition given
    cases first with
    | none =>
      rw [Option.map_none] at here
      rw [truth_filterConditions after, Filter.outcomes, ← here]
    | some condition =>
      simp only [bind_eq_ok, pure_eq_ok] at after
      obtain ⟨others, further, rfl⟩ := after
      rw [Option.map_some] at here
      rw [List.map_cons, truth_filterConditions further, Filter.outcomes, ← here]
end

end

/-- Filters have a clause where each comparison in them yields a condition. The clause restricts nothing just where there
is no comparison, and it comes to what the outcomes of those conditions come to in a row, `and` binding closer than `or`
and each group being read on its own. -/
theorem reads_filtersCondition (graph : Graph) (resource : Resource) (slot : Nat) (filters : List Filter) :
    ((∃ clause, filtersCondition graph resource slot filters = .ok clause) ↔
        ∀ comparison ∈ Filter.comparisonsOfAll filters, HasCondition graph resource slot comparison) ∧
      ∀ clause, filtersCondition graph resource slot filters = .ok clause →
        (clause = [] ↔ Filter.comparisonsOfAll filters = []) ∧
          ∀ (ground : Ground) (frames : List Frame), Truth.all (truths ground frames clause) =
            (Truth.joined (Filter.outcomes (leafTruth graph resource slot ground frames) filters)).getD (some true) := by
  constructor
  · rw [← filterConditions_ok_iff]
    simp only [filtersCondition, bind_eq_ok, pure_eq_ok]
    constructor
    · rintro ⟨clause, conditions, made, -⟩
      exact ⟨conditions, made⟩
    · rintro ⟨conditions, made⟩
      exact ⟨_, conditions, made, rfl⟩
  · intro clause made
    simp only [filtersCondition, bind_eq_ok, pure_eq_ok] at made
    obtain ⟨conditions, made, rfl⟩ := made
    constructor
    · have read := @truth_filterConditions graph resource slot ⟨fun _ => [], []⟩ [] filters conditions made
      rw [Option.toList_eq_nil_iff, combine_eq_none_iff, ← Filter.outcomes_eq_nil_iff, ← read, List.map_eq_nil_iff]
    · intro ground frames
      rw [← truth_filterConditions made, ← truth_combine]
      cases combine conditions with
      | none => rfl
      | some condition => exact Truth.all_singleton _

namespace Starred

def notes : Table := ⟨"notes", [
  { name := "id", type := .integer, isKey := true, isNullable := false }, { name := "title", type := .string },
  { name := "stars", type := .integer }]⟩

def note : Resource where
  name := "Note"
  table := notes
  key := "id"
  fields := ["id", "title", "stars"]
  scopes := []
  limits := [.int 10, .int 25, .int 50]
  defaultLimit := .int 50
  defaultOrder := [("id", .desc)]
  relations := []
  fillable := ["title", "stars"]
  softDeletes := .bool false
  deletedAt := none
  morphAlias := .text "notes"
  gates := true

/-- A title, or more than three stars together with one of two numbers. -/
def filters : List Filter := [
  { field := some "title", value := .text "x" },
  { field := some "stars", operator := ">", value := .int 3, joining := .or },
  { nested := some [
    { field := some "id", value := .int 9, joining := .or }, { field := some "id", value := .int 8, joining := .or },
    { nested := some [], joining := .or }] }]

def ground : Ground := ⟨fun _ => [], []⟩

/-- A note whose stars are not known. -/
def record (id : Int) (title : String) : Row := [("id", .int id), ("title", .text title), ("stars", .null)]

theorem hasCondition_of_filters {comparison : Option String × String × Json}
    (listed : comparison ∈ Filter.comparisonsOfAll filters) : HasCondition ⟨[note]⟩ note 0 comparison := by
  have listed : comparison ∈ [(some "title", "=", Json.text "x"), (some "stars", ">", .int 3), (some "id", "=", .int 9),
      (some "id", "=", .int 8)] := listed
  simp only [List.mem_cons, List.not_mem_nil, or_false] at listed
  obtain rfl | rfl | rfl | rfl := listed <;> exact ⟨_, rfl⟩

/-- A title alone suffices, and where it is another the number decides whether anything is known. -/
theorem reads_of_starred : ∃ clause, filtersCondition ⟨[note]⟩ note 0 filters = .ok clause ∧ clause ≠ [] ∧
    Truth.all (truths ground [[record 1 "x"]] clause) = some true ∧
      Truth.all (truths ground [[record 9 "y"]] clause) = none ∧
        Truth.all (truths ground [[record 1 "y"]] clause) = some false := by
  obtain ⟨clause, made⟩ := (reads_filtersCondition ⟨[note]⟩ note 0 filters).1.2 fun _ => hasCondition_of_filters
  obtain ⟨empty, read⟩ := (reads_filtersCondition ⟨[note]⟩ note 0 filters).2 clause made
  refine ⟨clause, made, fun none => ?_, ?_, ?_, ?_⟩
  · cases empty.1 none
  · exact (read ground [[record 1 "x"]]).trans rfl
  · exact (read ground [[record 9 "y"]]).trans rfl
  · exact (read ground [[record 1 "y"]]).trans rfl

end Starred

end Plan

end ResourceApi
