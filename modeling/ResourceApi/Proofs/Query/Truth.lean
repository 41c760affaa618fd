import ResourceApi.Proofs.Outcome
import ResourceApi.Query.Evaluation

/-!
When conditions hold. A conjunction holds when its parts do and a disjunction when one of them does, however they were
flattened on the way; a comparison holds by the cell of its column alone.
-/

namespace ResourceApi

/-- A comparison that cannot be made is the fault of its values. -/
theorem Cond.ofComparison_never {p : Failure → Prop} (faults : ∀ fault, ¬p (.fault fault)) (comparison : Comparison)
    (column : ColumnRef) (value : Json) : Outcome.Never p (ofComparison comparison column value) := by
  unfold ofComparison
  split <;> first | exact Outcome.Never.ok _ | exact Outcome.Never.error (faults _)

namespace Truth

/-- The outcome of two conditions that both have to be met. -/
def both : Truth → Truth → Truth
  | some false, _ | _, some false => some false
  | some true, some true => some true
  | _, _ => none

/-- The outcome of two conditions of which one has to be met. -/
def either : Truth → Truth → Truth
  | some true, _ | _, some true => some true
  | some false, some false => some false
  | _, _ => none

theorem true_both (truth : Truth) : both (some true) truth = truth := by
  rcases truth with _ | _ | _ <;> rfl

theorem both_true (truth : Truth) : truth.both (some true) = truth := by
  rcases truth with _ | _ | _ <;> rfl

theorem false_either (truth : Truth) : either (some false) truth = truth := by
  rcases truth with _ | _ | _ <;> rfl

theorem either_false (truth : Truth) : truth.either (some false) = truth := by
  rcases truth with _ | _ | _ <;> rfl

theorem both_assoc (a b c : Truth) : (a.both b).both c = a.both (b.both c) := by
  rcases a with _ | _ | _ <;> rcases b with _ | _ | _ <;> rcases c with _ | _ | _ <;> rfl

theorem either_assoc (a b c : Truth) : (a.either b).either c = a.either (b.either c) := by
  rcases a with _ | _ | _ <;> rcases b with _ | _ | _ <;> rcases c with _ | _ | _ <;> rfl

theorem holds_both (a b : Truth) : holds (a.both b) = (holds a && holds b) := by
  rcases a with _ | _ | _ <;> rcases b with _ | _ | _ <;> rfl

theorem holds_either (a b : Truth) : holds (a.either b) = (holds a || holds b) := by
  rcases a with _ | _ | _ <;> rcases b with _ | _ | _ <;> rfl

theorem all_cons (truth : Truth) (truths : List Truth) : all (truth :: truths) = truth.both (all truths) := by
  unfold all
  by_cases refused : some false ∈ truths <;> by_cases unknown : none ∈ truths <;>
    rcases truth with _ | _ | _ <;> simp [refused, unknown, both]

theorem any_cons (truth : Truth) (truths : List Truth) : any (truth :: truths) = truth.either (any truths) := by
  unfold any
  by_cases met : some true ∈ truths <;> by_cases unknown : none ∈ truths <;>
    rcases truth with _ | _ | _ <;> simp [met, unknown, either]

theorem all_singleton (truth : Truth) : all [truth] = truth :=
  (all_cons truth []).trans (both_true truth)

theorem any_singleton (truth : Truth) : any [truth] = truth :=
  (any_cons truth []).trans (either_false truth)

theorem all_append (first second : List Truth) : all (first ++ second) = (all first).both (all second) := by
  induction first with
  | nil => exact (true_both _).symm
  | cons truth rest ih => rw [List.cons_append, all_cons, all_cons, ih, both_assoc]

theorem any_append (first second : List Truth) : any (first ++ second) = (any first).either (any second) := by
  induction first with
  | nil => exact (false_either _).symm
  | cons truth rest ih => rw [List.cons_append, any_cons, any_cons, ih, either_assoc]

theorem holds_all (truths : List Truth) : holds (all truths) = truths.all holds := by
  induction truths with
  | nil => rfl
  | cons truth rest ih => rw [all_cons, holds_both, ih, List.all_cons]

theorem holds_any (truths : List Truth) : holds (any truths) = truths.any holds := by
  induction truths with
  | nil => rfl
  | cons truth rest ih => rw [any_cons, holds_either, ih, List.any_cons]

end Truth

namespace Query

variable {ground : Ground} {frames : List Frame}

/-- Whether the rows in hand are known to meet a condition. -/
def holds (ground : Ground) (frames : List Frame) (condition : Cond) : Bool :=
  Truth.holds (truth ground frames condition)

theorem truths_eq_map (conditions : List Cond) : truths ground frames conditions = conditions.map (truth ground frames) := by
  induction conditions with
  | nil => rfl
  | cons condition rest ih => exact congrArg (truth ground frames condition :: ·) ih

theorem holds_truths (conditions : List Cond) :
    Truth.holds (Truth.all (truths ground frames conditions)) = conditions.all (holds ground frames) := by
  rw [Truth.holds_all, truths_eq_map, List.all_map]
  rfl

theorem truths_append (first second : List Cond) :
    truths ground frames (first ++ second) = truths ground frames first ++ truths ground frames second := by
  simp only [truths_eq_map, List.map_append]

theorem all_truths_conjuncts (conditions : List Cond) :
    Truth.all (truths ground frames (Cond.conjuncts conditions)) = Truth.all (truths ground frames conditions) := by
  induction conditions with
  | nil => rfl
  | cons condition rest ih =>
    rw [Cond.conjuncts, List.flatMap_cons, truths_append, Truth.all_append, truths, Truth.all_cons, ← ih]
    refine congrArg (Truth.both · _) ?_
    cases condition with
    | all inner => rfl
    | _ => exact Truth.all_singleton _

theorem any_truths_disjuncts (conditions : List Cond) :
    Truth.any (truths ground frames (Cond.disjuncts conditions)) = Truth.any (truths ground frames conditions) := by
  induction conditions with
  | nil => rfl
  | cons condition rest ih =>
    rw [Cond.disjuncts, List.flatMap_cons, truths_append, Truth.any_append, truths, Truth.any_cons, ← ih]
    refine congrArg (Truth.either · _) ?_
    cases condition with
    | any inner => rfl
    | _ => exact Truth.any_singleton _

/-- A conjunction comes to what its conditions come to together. -/
theorem truth_conj (conditions : List Cond) :
    truth ground frames (Cond.conj conditions) = Truth.all (truths ground frames conditions) := by
  rw [← all_truths_conjuncts, Cond.conj]
  split
  · next condition alone => rw [alone, truths, truths, Truth.all_singleton]
  · rfl

/-- A disjunction comes to what its alternatives come to together. -/
theorem truth_disj (conditions : List Cond) :
    truth ground frames (Cond.disj conditions) = Truth.any (truths ground frames conditions) := by
  rw [← any_truths_disjuncts, Cond.disj]
  split
  · next condition alone => rw [alone, truths, truths, Truth.any_singleton]
  · rfl

theorem all_conjuncts (conditions : List Cond) :
    (Cond.conjuncts conditions).all (holds ground frames) = conditions.all (holds ground frames) := by
  rw [← holds_truths, all_truths_conjuncts, holds_truths]

theorem matching_eq_filter (source : Source) (conditions : List Cond) :
    matching ground frames source conditions =
      (extend ground frames source []).filter fun frame => conditions.all (holds ground (frame :: frames)) := by
  simp only [matching, holds_truths]

theorem holds_exist (column : ColumnRef) (source : Source) (conditions : List Cond) :
    holds ground frames (.exist column source conditions) =
      (extend ground frames source []).any fun frame => conditions.all (holds ground (frame :: frames)) := by
  change Truth.holds (some ((extend ground frames source []).any fun frame =>
    Truth.holds (Truth.all (truths ground (frame :: frames) conditions)))) = _
  simp only [holds_truths]
  cases (extend ground frames source []).any fun frame => conditions.all (holds ground (frame :: frames)) <;> rfl

theorem holds_isNull (ref : ColumnRef) : holds ground frames (.isNull ref) = (cellOf frames ref == .null) := by
  change Truth.holds (some (cellOf frames ref == .null)) = _
  cases cellOf frames ref == .null <;> rfl

end Query

/-! ## Comparisons -/

namespace Comparison

/-- The cells among which a value asks a column to be: those of a list, the first of which decides the type for all, or
the keys of an object. -/
def candidates (type : ColumnType) : Json → List Cell
  | .list values => values.map fun value => Bound.cell ⟨BindType.compared type (values.headD .null), value⟩
  | .object members => members.map fun entry => .text entry.1
  | _ => []

/-- What comes of comparing the cell of a column of some type with a value. -/
def outcome (comparison : Comparison) (type : ColumnType) (cell : Cell) (value : Json) : Truth :=
  match comparison, value with
  | .equal, .null => some (cell == .null)
  | .notEqual, .null => some (cell != .null)
  | .isIn, value => Query.among type.affinity cell (candidates type value)
  | .notIn, value => Truth.negate (Query.among type.affinity cell (candidates type value))
  | comparison, value =>
    Query.compare comparison type.affinity cell (Bound.cell ⟨BindType.compared type value, value⟩)

/-- The condition of a comparison says what comes of it. -/
theorem truth_ofComparison {ground : Ground} {frames : List Frame} {comparison : Comparison} {ref : ColumnRef}
    {value : Json} {condition : Cond} (found : Cond.ofComparison comparison ref value = .ok condition) :
    Query.truth ground frames condition = comparison.outcome ref.type (Query.cellOf frames ref) value := by
  cases comparison with
  | isIn =>
    cases value with
    | list values =>
      cases found
      simp [Query.truth, outcome, candidates, Cond.ofComparison.member, Function.comp_def]
    | object members =>
      cases found
      simp only [Query.truth, outcome, candidates, List.map_map]
      rfl
    | _ => cases found
  | notIn =>
    cases value with
    | list values =>
      cases found
      simp [Query.truth, outcome, candidates, Cond.ofComparison.member, Function.comp_def]
    | object members =>
      cases found
      simp only [Query.truth, outcome, candidates, List.map_map]
      rfl
    | _ => cases found
  | equal =>
    cases value with
    | bool b => cases found; cases b <;> rfl
    | _ => cases found; rfl
  | notEqual =>
    cases value with
    | bool b => cases found; cases b <;> rfl
    | _ => cases found; rfl
  | _ =>
    cases value with
    | null => cases found
    | bool b => cases found
    | _ => cases found; rfl

end Comparison

end ResourceApi
