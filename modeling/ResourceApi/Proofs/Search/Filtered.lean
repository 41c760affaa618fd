import ResourceApi.Proofs.Relation.Reached
import ResourceApi.Proofs.Search.Compiled
import ResourceApi.Proofs.Search.Precedence

/-!
What filters mean. A filter compares a field of a record, or asks whether some record that a relation path leads to has a
field that compares; groups stand for what is in them, and `and` binds closer than `or`.
-/

namespace ResourceApi

open Outcome Query

/-! ## Meaning -/

namespace Filter

/-- What comes of a row of verdicts behind a first one. -/
def chain (current : Bool) : List (Joining × Bool) → Bool
  | [] => current
  | (.and, verdict) :: rest => chain (current && verdict) rest
  | (.or, verdict) :: rest => current || chain verdict rest

/-- What comes of verdicts in a row, how the first is joined being of no account. -/
def joined : List (Joining × Bool) → Option Bool
  | [] => none
  | (_, verdict) :: rest => some (chain verdict rest)

mutual
/-- The verdict of a filter, given those of comparisons; a group without filters has none. -/
def verdict (leaf : Option String → String → Json → Bool) : Filter → Option Bool
  | ⟨field, operator, value, _, nested⟩ =>
    match nested with
    | some filters => joined (verdicts leaf filters)
    | none => some (leaf field operator value)
termination_by structural filter => filter

def verdicts (leaf : Option String → String → Json → Bool) : List Filter → List (Joining × Bool)
  | [] => []
  | filter :: rest =>
    match verdict leaf filter with
    | some verdict => (filter.joining, verdict) :: verdicts leaf rest
    | none => verdicts leaf rest
termination_by structural filters => filters
end

theorem holds_chain (current : Truth) (truths : List (Joining × Truth)) :
    Truth.holds (Truth.chain current truths) =
      chain (Truth.holds current) (truths.map fun entry => (entry.1, Truth.holds entry.2)) := by
  induction truths generalizing current with
  | nil => rfl
  | cons entry rest ih =>
    obtain ⟨joining, truth⟩ := entry
    cases joining with
    | and => rw [Truth.chain, ih, Truth.holds_both, List.map_cons, chain]
    | or => rw [Truth.chain, Truth.holds_either, ih, List.map_cons, chain]

/-- Whether a row of outcomes is known to be met is read from which of them are. -/
theorem holds_joined (truths : List (Joining × Truth)) :
    (Truth.joined truths).map Truth.holds = joined (truths.map fun entry => (entry.1, Truth.holds entry.2)) := by
  cases truths with
  | nil => rfl
  | cons entry rest => exact congrArg some (holds_chain entry.2 rest)

end Filter

/-- Whether a record compares with a value in a field, its own or one of some record at the end of a relation path. -/
def Graph.compares (graph : Graph) (rows : String → List Row) (resource : Resource) (record : Row) (field : Option String)
    (operator : String) (value : Json) : Bool :=
  match field, Comparison.ofSymbol? operator with
  | some field, some comparison =>
    let meets (table : Table) (name : String) (row : Row) : Bool :=
      Truth.holds (comparison.outcome (table.ref 0 0 name).type (row.cell name) value)
    if Path.points field = 0 then meets resource.table field record
    else
      let (path, name) := Path.splitLast field
      match graph.hops resource path with
      | .error _ => false
      | .ok hops =>
        match hops.getLast?.map fun hop => graph.target hop.2 with
        | some (.ok target) => (graph.reached rows hops record).any (meets target.table name)
        | _ => false
  | _, _ => false

/-- Whether a record meets filters; no filters are met by every record. -/
def Graph.admits (graph : Graph) (rows : String → List Row) (resource : Resource) (filters : List Filter) (record : Row) :
    Bool :=
  (Filter.joined (Filter.verdicts (graph.compares rows resource record) filters)).getD true

/-! ## Compiled filters -/

namespace Plan

variable {graph : Graph} {resource : Resource} {ground : Ground} {frames : List Frame}

/-- Joined conditions hold as the verdicts on them are joined. -/
theorem holds_combine (conditions : List (Joining × Cond)) :
    (combine conditions).map (holds ground frames) =
      Filter.joined (conditions.map fun entry => (entry.1, holds ground frames entry.2)) := by
  have read := congrArg (Option.map Truth.holds) (@truth_combine ground frames conditions)
  rw [Option.map_map] at read
  rw [show holds ground frames = Truth.holds ∘ truth ground frames from rfl, read, Filter.holds_joined, List.map_map]
  rfl

theorem ownColumn_eq_ok {slot : Nat} {name : String} {ref : ColumnRef} (found : ownColumn resource slot name = .ok ref) :
    ref = resource.table.ref 0 slot name := by
  unfold ownColumn at found
  cases present : resource.table.column? name with
  | none =>
    rw [present] at found
    cases found
  | some column =>
    rw [present] at found
    cases found
    simp [Table.ref, present]

section Compiled

variable (sound : graph.Sound) (member : resource ∈ graph.resources)
include sound member

/-- The condition of a comparison holds for the records that compare. -/
theorem holds_leafCondition {slot : Nat} {field : Option String} {operator : String} {value : Json} {condition : Cond}
    (made : leafCondition graph resource slot field operator value = .ok condition) :
    holds ground frames condition =
      graph.compares ground.rows resource ((frames.getD 0 []).getD slot []) field operator value := by
  unfold leafCondition at made
  unfold Graph.compares
  split at made
  · next name comparison known =>
    by_cases own : Path.points name = 0
    · simp only [if_pos own, bind_eq_ok] at made
      obtain ⟨ref, found, made⟩ := made
      obtain rfl := ownColumn_eq_ok found
      simp only [known, if_pos own]
      rw [holds, Comparison.truth_ofComparison made]
      rfl
    · rcases cut : Path.splitLast name with ⟨path, last⟩
      simp only [if_neg own, cut, bind_eq_ok, pure_eq_ok] at made
      obtain ⟨hops, walked, related, joined, ref, found, inner, compared, rfl⟩ := made
      obtain rfl := ownColumn_eq_ok found
      obtain ⟨hop, ends, leads⟩ := RelatedPath.target_of_ofHops joined
      have chained := Graph.chained_of_walk walked
      simp only [known, if_neg own, cut, walked, ends, Option.map_some, leads]
      rw [← RelatedPath.any_ofHops sound member chained joined, holds_exist]
      refine congrArg _ (funext fun frame => ?_)
      rw [all_conjuncts, List.all_append, List.all_cons, List.all_nil, Bool.and_true, holds,
        Comparison.truth_ofComparison compared]
      rfl
  · cases made

mutual
theorem holds_filterCondition {slot : Nat} : ∀ {filter : Filter} {condition : Option Cond},
    filterCondition graph resource slot filter = .ok condition →
      condition.map (holds ground frames) =
        Filter.verdict (graph.compares ground.rows resource ((frames.getD 0 []).getD slot [])) filter
  | ⟨field, operator, value, _, nested⟩, condition, made => by
    cases nested with
    | none =>
      rw [filterCondition] at made
      simp only [bind_eq_ok, pure_eq_ok] at made
      obtain ⟨leaf, compared, rfl⟩ := made
      rw [Option.map_some, holds_leafCondition sound member compared, Filter.verdict]
    | some filters =>
      rw [filterCondition] at made
      simp only [bind_eq_ok, pure_eq_ok] at made
      obtain ⟨conditions, inner, rfl⟩ := made
      rw [holds_combine, holds_filterConditions inner, Filter.verdict]

theorem holds_filterConditions {slot : Nat} : ∀ {filters : List Filter} {conditions : List (Joining × Cond)},
    filterConditions graph resource slot filters = .ok conditions →
      conditions.map (fun entry => (entry.1, holds ground frames entry.2)) =
        Filter.verdicts (graph.compares ground.rows resource ((frames.getD 0 []).getD slot [])) filters
  | [], conditions, made => by
    cases made
    rfl
  | filter :: rest, conditions, made => by
    rw [filterConditions] at made
    obtain ⟨first, given, after⟩ := bind_eq_ok.1 made
    have here := holds_filterCondition given
    cases first with
    | none =>
      rw [Option.map_none] at here
      rw [holds_filterConditions after, Filter.verdicts, ← here]
    | some condition =>
      simp only [bind_eq_ok, pure_eq_ok] at after
      obtain ⟨others, further, rfl⟩ := after
      rw [Option.map_some] at here
      rw [List.map_cons, holds_filterConditions further, Filter.verdicts, ← here]
end

/-- The condition of a list of filters holds for the records that they admit. -/
theorem holds_filtersCondition {slot : Nat} {filters : List Filter} {conditions : List Cond}
    (made : filtersCondition graph resource slot filters = .ok conditions) :
    conditions.all (holds ground frames) =
      graph.admits ground.rows resource filters ((frames.getD 0 []).getD slot []) := by
  simp only [filtersCondition, bind_eq_ok, pure_eq_ok] at made
  obtain ⟨compiled, given, rfl⟩ := made
  rw [Graph.admits, ← holds_filterConditions sound member given, ← holds_combine]
  cases combine compiled <;> simp

end Compiled

end Plan

end ResourceApi
