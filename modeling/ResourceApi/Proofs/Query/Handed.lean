import ResourceApi.Proofs.Query.Truth
import ResourceApi.Proofs.Told
import ResourceApi.Search.Plan

/-!
What a statement hands to the storage. Values of a kind of their own are refused with a failure that clients are told
about; an integer that no word holds is not, and neither is a comparison that cannot be made, so that both have to be kept
out.
-/

namespace ResourceApi

open Outcome Query

/-! ## Values -/

/-- A value that is no integer beyond a word. -/
def Json.FitsWord (value : Json) : Prop := ∀ n, value = .int n → Word.holds n

/-- A value without integers beyond a word, also among the items of a list. -/
def Json.IsModest (value : Json) : Prop := value.FitsWord ∧ ∀ items, value = .list items → ∀ item ∈ items, item.FitsWord

theorem Json.text_fitsWord (text : String) : (Json.text text).FitsWord := fun _ same => Json.noConfusion same

/-- Values of a statement none of which is an integer beyond a word. -/
def Bound.FitAll (bounds : List Bound) : Prop := ∀ bound ∈ bounds, bound.value.FitsWord

theorem Bound.FitAll.nil : FitAll [] := List.forall_mem_nil _

theorem Bound.FitAll.append {bounds others : List Bound} (first : FitAll bounds) (second : FitAll others) :
    FitAll (bounds ++ others) := List.forall_mem_append.2 ⟨first, second⟩

theorem Cell.ofJson_told {value : Json} (fits : value.FitsWord) : Tells (Cell.ofJson value) := by
  unfold Cell.ofJson
  split
  any_goals trivial
  next n =>
    rw [if_pos (fits n rfl)]
    trivial

theorem Bound.formed_delivers {bound : Bound} (fits : bound.value.FitsWord) : Delivers Json.FitsWord bound.formed := by
  have refused : Delivers Json.FitsWord (.error (.storage .statement)) := rfl
  have small (n : Int) (holds : Word.holds n) : (Json.int n).FitsWord := fun _ same => Json.int.inj same ▸ holds
  unfold Bound.formed
  split
  · exact fits
  · exact fits
  · exact fun _ same => Json.noConfusion same
  · exact fun _ same => Json.noConfusion same
  · split
    · exact fun _ same => Json.noConfusion same
    · exact refused
  · split
    · exact fun _ same => Json.noConfusion same
    · exact refused
  · split
    · exact small 0 (by decide)
    · split
      · exact small 1 (by decide)
      · exact refused
  · exact refused

/-- A statement whose integers all fit a word is taken, or refused in a way that clients are told about. -/
theorem Bound.acceptAll_told {bounds : List Bound} (fit : FitAll bounds) : Tells (acceptAll bounds) := by
  refine (Delivers.mapM fun bound listed => Bound.formed_delivers (fit bound listed)).bind fun formed _ small => ?_
  refine (Delivers.forIn (fun value listed _ => ?_) ()).bind fun _ _ _ => trivial
  have taken : Tells (discard (Cell.ofJson value)) := (Cell.ofJson_told (small value listed)).bind fun _ _ _ => trivial
  exact taken.bind fun _ _ _ => trivial

/-! ## Conditions -/

/-- Whether a comparison of a column can be made with a value: null is compared with nothing, a truth value only for
equality, and membership needs a list. -/
structure Comparison.Takes (comparison : Comparison) (value : Json) : Prop where
  known : value ≠ .null
  listed : comparison ∈ [.isIn, .notIn] → value.isList
  equal : ∀ b, value = .bool b → comparison ∈ [.equal, .notEqual]

theorem Query.fitAll_allBounds {conditions : List Cond}
    (each : ∀ condition ∈ conditions, Bound.FitAll (boundsOf condition)) : Bound.FitAll (allBounds conditions) := by
  induction conditions with
  | nil => exact Bound.FitAll.nil
  | cons condition rest ih =>
    obtain ⟨here, later⟩ := List.forall_mem_cons.1 each
    exact here.append (ih later)

namespace Cond

/-- Conditions that are made one by one hand over what each of them does. -/
theorem mapM_delivers {α : Type} {f : α → Except Failure Cond} {items : List α}
    (each : ∀ item ∈ items, Delivers (fun condition => Bound.FitAll (boundsOf condition)) (f item)) :
    Delivers (fun conditions => Bound.FitAll (allBounds conditions)) (items.mapM f) :=
  (Delivers.mapM each).mono fun _ _ => fitAll_allBounds

/-- A comparison for equality can always be made. -/
theorem equal_delivers (column : ColumnRef) {value : Json} (fits : value.FitsWord) :
    Delivers (fun condition => Bound.FitAll (boundsOf condition)) (ofComparison .equal column value) := by
  cases value with
  | null | bool b => exact Bound.FitAll.nil
  | _ => exact List.forall_mem_singleton.2 fits

/-- A comparison that can be made with a value hands over the value alone, or its items. -/
theorem ofComparison_delivers {comparison : Comparison} {value : Json} (takes : comparison.Takes value)
    (modest : value.IsModest) (column : ColumnRef) :
    Delivers (fun condition => Bound.FitAll (boundsOf condition)) (ofComparison comparison column value) := by
  have items (values : List Json) (same : value = .list values) :
      Bound.FitAll (values.map (ofComparison.member column values)) :=
    List.forall_mem_map.2 (modest.2 values same)
  unfold ofComparison
  split
  any_goals exact Bound.FitAll.nil
  · exact items _ rfl
  · exact items _ rfl
  · exact List.forall_mem_map.2 fun entry _ => Json.text_fitsWord entry.1
  · exact List.forall_mem_map.2 fun entry _ => Json.text_fitsWord entry.1
  · exact absurd (takes.listed (by decide)) (by simp_all [Json.isList])
  · exact absurd (takes.listed (by decide)) (by simp_all [Json.isList])
  · exact absurd rfl takes.known
  · exact absurd (takes.equal _ rfl) (by simp_all)
  · exact List.forall_mem_singleton.2 modest.1

end Cond

namespace Query

@[simp]
theorem allBounds_append (first second : List Cond) :
    allBounds (first ++ second) = allBounds first ++ allBounds second := by
  induction first with
  | nil => rfl
  | cons condition rest ih => rw [List.cons_append, allBounds, allBounds, ih, List.append_assoc]

@[simp]
theorem allBounds_conjuncts (conditions : List Cond) : allBounds (Cond.conjuncts conditions) = allBounds conditions := by
  unfold Cond.conjuncts
  induction conditions with
  | nil => rfl
  | cons condition rest ih =>
    rw [List.flatMap_cons, allBounds_append, ih, allBounds]
    cases condition <;> simp [allBounds, boundsOf]

@[simp]
theorem allBounds_disjuncts (conditions : List Cond) : allBounds (Cond.disjuncts conditions) = allBounds conditions := by
  unfold Cond.disjuncts
  induction conditions with
  | nil => rfl
  | cons condition rest ih =>
    rw [List.flatMap_cons, allBounds_append, ih, allBounds]
    cases condition <;> simp [allBounds, boundsOf]

@[simp]
theorem boundsOf_conj (conditions : List Cond) : boundsOf (Cond.conj conditions) = allBounds conditions := by
  rw [← allBounds_conjuncts, Cond.conj]
  split
  · next condition single => rw [single, allBounds, allBounds, List.append_nil]
  · rw [boundsOf]

@[simp]
theorem boundsOf_disj (conditions : List Cond) : boundsOf (Cond.disj conditions) = allBounds conditions := by
  rw [← allBounds_disjuncts, Cond.disj]
  split
  · next condition single => rw [single, allBounds, allBounds, List.append_nil]
  · rw [boundsOf]

theorem allBounds_map_conj (groups : List (List Cond)) : allBounds (groups.map Cond.conj) = allBounds groups.flatten := by
  induction groups with
  | nil => rfl
  | cons group rest ih => rw [List.map_cons, allBounds, boundsOf_conj, List.flatten_cons, allBounds_append, ih]

end Query

namespace Plan

/-- Groups are filled from the front, so that their conditions stand in the order in which they came. -/
private theorem flatten_addToGroups (conditions : List (Joining × Cond)) (groups : List (List Cond)) :
    (conditions.foldl addToGroups groups).flatten = groups.flatten ++ conditions.map (·.2) := by
  induction conditions generalizing groups with
  | nil => simp
  | cons entry rest ih =>
    have here : (addToGroups groups entry).flatten = groups.flatten ++ [entry.2] := by
      obtain ⟨joining, condition⟩ := entry
      cases joining with
      | or => simp [addToGroups]
      | and =>
        rcases List.eq_nil_or_concat groups with rfl | ⟨before, last, rfl⟩ <;> simp [addToGroups]
    rw [List.foldl_cons, ih, here]
    simp

/-- Joined conditions hand over what each of them does. -/
theorem allBounds_combine (conditions : List (Joining × Cond)) :
    allBounds (combine conditions).toList = allBounds (conditions.map (·.2)) := by
  have flat := flatten_addToGroups conditions []
  unfold combine
  split
  · next empty =>
    rw [empty] at flat
    rw [← List.nil_append (conditions.map _), ← List.flatten_nil, ← flat]
    rfl
  · rw [Option.toList_some, allBounds, boundsOf_disj, allBounds_map_conj, flat]
    exact List.append_nil _

end Plan

end ResourceApi
