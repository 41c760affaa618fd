import Mathlib.Data.List.Perm.Basic
import ResourceApi.Proofs.Json.Members
import ResourceApi.Proofs.Rule.Asked
import ResourceApi.Proofs.Rule.Met

/-!
Parts of documents that are checked where they stand. What a pattern reaches in a part it reaches in the whole, behind the
place of the part, and a check there says what it says of the part alone, under that place. A check is one constraint list
at one place, so that a document has the messages of all its checks, whatever the order in which they are made.
-/

namespace ResourceApi

open Outcome

/-- The order in which two lists are gone through does not matter. -/
theorem List.flatMap_swap {α β γ : Type} (as : List α) (bs : List β) (f : α → β → List γ) :
    (as.flatMap fun a => bs.flatMap (f a)).Perm (bs.flatMap fun b => as.flatMap (f · b)) := by
  induction as with
  | nil => simp
  | cons a rest ih =>
    simp only [List.flatMap_cons]
    exact (ih.append_left _).trans (List.flatMap_append_perm bs (f a) fun b => rest.flatMap (f · b))

namespace Attribute

/-- An attribute as it stands behind further steps. -/
def behind (trail : List Step) (place : Attribute) : Attribute := { place with steps := trail ++ place.steps }

variable {trail more : List Step} {data : Json} {place : Attribute} {segments : List Segment}

theorem below_any (trail : List Step) (data : Json) (rest : List Segment) :
    below trail data (.any :: rest) = data.children.flatMap fun child => below (trail ++ [child.1]) child.2 rest := by
  cases rest with
  | nil => simp [below, List.map_eq_flatMap]
  | cons => simp [below]

/-- What is reached does not depend on the steps that led to the document. -/
theorem below_behind : below (trail ++ more) data segments = (below more data segments).map (behind trail) := by
  induction segments generalizing more data with
  | nil => rfl
  | cons segment rest ih =>
    cases segment with
    | any => simp only [below_any, List.append_assoc, ih, List.map_flatMap]
    | name key =>
      cases rest with
      | nil => cases data <;> simp [below, behind]
      | cons next rest =>
        cases found : data.get? key with
        | none => simp [below, found]
        | some value => rw [below_member found, below_member found, List.append_assoc, ih]

theorem below_eq_map (trail : List Step) (data : Json) (segments : List Segment) :
    below trail data segments = (below [] data segments).map (behind trail) := by
  rw [← below_behind, List.append_nil]

/-- What a pattern that begins with a name reaches lies behind that name. -/
theorem steps_of_below {key : String} {rest : List Segment} (inside : place ∈ below trail data (.name key :: rest)) :
    ∃ more, place.steps = trail ++ .member key :: more := by
  cases rest with
  | nil =>
    cases data with
    | object members =>
      obtain rfl := List.mem_singleton.1 inside
      exact ⟨[], rfl⟩
    | _ => cases inside
  | cons next rest =>
    cases found : data.get? key with
    | none => simp [below, found] at inside
    | some inner =>
      rw [below_member found, below_eq_map] at inside
      obtain ⟨place, -, rfl⟩ := List.mem_map.1 inside
      exact ⟨place.steps, List.append_assoc _ _ _⟩

/-- What a pattern with a name in it reaches is less deep than the document. -/
theorem depth_lt_of_below (inside : place ∈ below trail data segments) (further : segments ≠ []) {value : Json}
    (present : place.value = some value) : value.depth < data.depth := by
  have childLt {data : Json} {child : Step × Json} (inside : child ∈ data.children) : child.2.depth < data.depth := by
    cases data with
    | list items => exact Nat.lt_succ_of_le (Json.depth_le_depthItems (Json.mem_of_child inside))
    | object members =>
      obtain ⟨entry, listed, rfl⟩ := List.mem_map.1 inside
      exact Nat.lt_succ_of_le (Json.depth_le_depthMembers listed)
    | _ => cases inside
  have memberLt {data value : Json} {key : String} (found : data.get? key = some value) : value.depth < data.depth := by
    cases data with
    | object members => exact Nat.lt_succ_of_le (Json.depth_le_depthMembers (Members.mem_of_get? found))
    | _ => cases found
  induction segments generalizing trail data with
  | nil => exact absurd rfl further
  | cons segment rest ih =>
    have onward {trail : List Step} {inner : Json} (inside : place ∈ below trail inner rest) :
        value.depth ≤ inner.depth := by
      cases rest with
      | nil =>
        obtain rfl := List.mem_singleton.1 inside
        cases present
        exact Nat.le_refl _
      | cons => exact Nat.le_of_lt (ih inside (List.cons_ne_nil _ _))
    cases segment with
    | any =>
      rw [below_any] at inside
      obtain ⟨child, listed, inside⟩ := List.mem_flatMap.1 inside
      exact Nat.lt_of_le_of_lt (onward inside) (childLt listed)
    | name key =>
      cases rest with
      | nil =>
        cases data with
        | object members =>
          obtain rfl := List.mem_singleton.1 inside
          exact memberLt present
        | _ => cases inside
      | cons next rest =>
        cases found : data.get? key with
        | none => simp [below, found] at inside
        | some inner =>
          rw [below_member found] at inside
          exact Nat.lt_of_le_of_lt (onward inside) (memberLt found)

/-- A path goes on behind the steps to a part. -/
theorem path_behind (led : trail ≠ []) (further : place.steps ≠ []) :
    (place.behind trail).path = Path.ofNames (trail.map Step.text) ++ "." ++ place.path := by
  rw [path, behind, List.map_append, Path.ofNames_append (by simpa using led) (by simpa using further)]
  rfl

end Attribute

/-! ## Checks -/

namespace RuleSet

variable {answer other : GraphRule.Answer} {rules : RuleSet} {data : Json} {place : Attribute} {constraint : Constraint}
  {constraints : List Constraint} {trail : List Step} {start : String}

/-- The messages of a check, none if it fails. -/
def said (check : Except Failure (List String)) : List String := check.toOption.getD []

@[simp]
theorem said_ok (messages : List String) : said (.ok messages) = messages := rfl

/-- A check of which every message stands behind a text. -/
def sayBehind (start : String) (check : Except Failure (List String)) : Except Failure (List String) :=
  check.map (·.map (start ++ ·))

@[simp]
theorem said_sayBehind (start : String) (check : Except Failure (List String)) :
    said (sayBehind start check) = (said check).map (start ++ ·) := by
  cases check <;> rfl

theorem sayBehind_eq_ok {check : Except Failure (List String)} :
    (∃ messages, sayBehind start check = .ok messages) ↔ ∃ messages, check = .ok messages := by
  cases check <;> simp [sayBehind, Except.map]

/-- What several parts say, where it is behind a text for each, is behind it for all. -/
theorem flatten_mapM_behind {α : Type} {f g : α → Except Failure (List String)} {items : List α}
    (behind : ∀ item ∈ items, f item = sayBehind start (g item)) :
    (do return (← items.mapM f).flatten) = sayBehind start (do return (← items.mapM g).flatten) := by
  have each : items.mapM f = (items.mapM g).map (·.map (·.map (start ++ ·))) := by
    induction items with
    | nil => rfl
    | cons item rest ih =>
      obtain ⟨here, later⟩ := List.forall_mem_cons.1 behind
      rw [List.mapM_cons, List.mapM_cons, here, ih later]
      cases g item with
      | error failure => rfl
      | ok messages => cases List.mapM g rest <;> rfl
  rw [each]
  cases List.mapM g items with
  | error failure => rfl
  | ok messages => simp [sayBehind, Except.map, Bind.bind, Except.bind, pure, Except.pure, List.map_flatten]

/-- All checks of a document, by rule and then by place. -/
def checks (answer : GraphRule.Answer) (rules : RuleSet) (data : Json) : List (Except Failure (List String)) :=
  rules.flatMap fun entry => (Attribute.expand data entry.1).map (placeErrors answer entry.2)

theorem mem_checks {entry : String × List Constraint} (rule : entry ∈ rules)
    (reached : place ∈ Attribute.expand data entry.1) : placeErrors answer entry.2 place ∈ rules.checks answer data :=
  List.mem_flatMap.2 ⟨entry, rule, List.mem_map.2 ⟨place, reached, rfl⟩⟩

private theorem flatten_mapM_eq_ok {α : Type} {f : α → Except Failure (List String)} {items : List α}
    {found : List String} : (do return (← items.mapM f).flatten) = (.ok found : Except Failure (List String)) ↔
      (∀ item ∈ items, ∃ messages, f item = .ok messages) ∧ items.flatMap (fun item => said (f item)) = found := by
  rw [bind_eq_ok]
  constructor
  · rintro ⟨each, made, joined⟩
    obtain rfl := pure_eq_ok.1 joined
    refine ⟨fun item member => ?_, ?_⟩
    · obtain ⟨messages, -, here⟩ := mapM_image made member
      exact ⟨messages, here⟩
    · have pointwise := mapM_eq_ok.1 made
      clear made joined
      induction pointwise with
      | nil => rfl
      | cons here _ ih => rw [List.flatMap_cons, ih, here, List.flatten_cons, said_ok]
  · rintro ⟨made, rfl⟩
    refine ⟨items.map fun item => said (f item), mapM_eq_ok.2 ?_, rfl⟩
    rw [List.forall₂_map_right_iff, List.forall₂_same]
    intro item member
    obtain ⟨messages, here⟩ := made item member
    rw [here, said_ok]

/-- A document has messages if and only if every check of it has, and then it has all of theirs. -/
theorem errors_eq_ok {found : List String} : rules.errors answer data = .ok found ↔
    (∀ check ∈ rules.checks answer data, ∃ messages, check = .ok messages) ∧
      (rules.checks answer data).flatMap said = found := by
  have perRule (entry : String × List Constraint) (messages : List String) := @flatten_mapM_eq_ok _
    (placeErrors answer entry.2) (Attribute.expand data entry.1) messages
  rw [errors, flatten_mapM_eq_ok]
  simp only [checks, List.mem_flatMap, List.mem_map, List.flatMap_assoc, List.flatMap_map]
  constructor
  · rintro ⟨each, rfl⟩
    refine ⟨?_, List.flatMap_congr fun entry rule => ?_⟩
    · rintro _ ⟨entry, rule, place, reached, rfl⟩
      obtain ⟨messages, made⟩ := each entry rule
      exact ((perRule entry messages).1 made).1 place reached
    · obtain ⟨messages, made⟩ := each entry rule
      rw [made, said_ok, ((perRule entry messages).1 made).2]
  · rintro ⟨each, rfl⟩
    have made (entry) (rule : entry ∈ rules) := (perRule entry _).2
      ⟨fun place reached => each _ ⟨entry, rule, place, reached, rfl⟩, rfl⟩
    exact ⟨fun entry rule => ⟨_, made entry rule⟩, List.flatMap_congr fun entry rule => by rw [made entry rule, said_ok]⟩

/-- A document with messages has among them those of every check. -/
theorem told_of_errors {found : List String} (told : rules.errors answer data = .ok found)
    {check : Except Failure (List String)} (made : check ∈ rules.checks answer data) :
    ∃ messages, check = .ok messages ∧ messages.Sublist found := by
  obtain ⟨answered, rfl⟩ := errors_eq_ok.1 told
  obtain ⟨messages, rfl⟩ := answered check made
  refine ⟨messages, rfl, ?_⟩
  rw [List.flatMap_def]
  exact List.sublist_flatten_of_mem (List.mem_map.2 ⟨_, made, rfl⟩)

/-- An object on which the graph alone has a say is checked by its answer. -/
theorem placeErrors_object {question : GraphRule} {value : Json} (object : value.isObject) (parent : Option Members) :
    placeErrors answer [.isObject, .graph question] ⟨trail, parent, some value⟩ =
      answer question value (Attribute.path ⟨trail, parent, some value⟩) := by
  obtain ⟨members, rfl⟩ := Json.isObject_iff.1 object
  have whole : constraintErrors answer ⟨trail, parent, some (.object members)⟩ .isObject = .ok [] := rfl
  have asked : constraintErrors answer ⟨trail, parent, some (.object members)⟩ (.graph question) =
      answer question (.object members) (Attribute.path ⟨trail, parent, some (.object members)⟩) := rfl
  rw [placeErrors, if_neg (by simp [Attribute.isPresent]), attributeErrors, whole, ok_bind, if_neg (by simp),
    attributeErrors, asked]
  cases answer question (.object members) (Attribute.path ⟨trail, parent, some (.object members)⟩) <;>
    simp [Bind.bind, Except.bind, pure, Except.pure, Constraint.endsCheck, attributeErrors]

/-- Answers that are alike where a document asks for them give it the same messages. -/
theorem errors_congr (alike : ∀ entry ∈ rules, ∀ place ∈ Attribute.expand data entry.1, ∀ question,
      .graph question ∈ entry.2 → ∀ value, place.value = some value →
        answer question value place.path = other question value place.path) :
    rules.errors answer data = rules.errors other data := by
  have perConstraint {place : Attribute} {constraint : Constraint} (alike : ∀ question, constraint = .graph question →
      ∀ value, place.value = some value → answer question value place.path = other question value place.path) :
      constraintErrors answer place constraint = constraintErrors other place constraint := by
    obtain ⟨trail, parent, value⟩ := place
    cases constraint with
    | graph question =>
      cases value with
      | none => rfl
      | some value => exact alike question rfl value rfl
    | _ => cases value <;> rfl
  have perPlace (place : Attribute) (constraints : List Constraint) (alike : ∀ question, .graph question ∈ constraints →
      ∀ value, place.value = some value → answer question value place.path = other question value place.path) :
      placeErrors answer constraints place = placeErrors other constraints place := by
    unfold placeErrors
    congr 1
    induction constraints with
    | nil => rfl
    | cons constraint rest ih =>
      rw [attributeErrors, attributeErrors, ih fun question later => alike question (List.mem_cons_of_mem _ later),
        perConstraint fun question same => alike question (same ▸ List.mem_cons_self)]
  unfold errors
  congr 1
  refine mapM_congr fun entry rule => ?_
  obtain ⟨pattern, constraints⟩ := entry
  dsimp only
  rw [mapM_congr fun place reached => perPlace place constraints (alike _ rule place reached)]

/-! ## Checks of a part -/

/-- A constraint that has the messages behind some steps that it has without them, each behind a text. Those that give
their own message do when the path of the attribute is behind the text; the answers of the graph have to. -/
def Moves (answer : GraphRule.Answer) (trail : List Step) (start : String) (place : Attribute) : Constraint → Prop
  | .graph question => ∀ value, place.value = some value →
      answer question value (place.behind trail).path = sayBehind start (answer question value place.path)
  | _ => (place.behind trail).path = start ++ place.path ∧ place.path ≠ ""

private theorem constraintErrors_behind (moves : Moves answer trail start place constraint) :
    constraintErrors answer (place.behind trail) constraint =
      sayBehind start (constraintErrors answer place constraint) := by
  have text (stands : (place.behind trail).path = start ++ place.path) (silent : Bool) (problem : Option String) :
      (if silent then .ok [] else .ok (problem.toList.map fun problem => s!"{(place.behind trail).path}: {problem}")) =
        sayBehind start (if silent then .ok [] else .ok (problem.toList.map fun problem => s!"{place.path}: {problem}")) := by
    cases silent <;> cases problem <;> simp [sayBehind, Except.map, stands, String.append_assoc, toString]
  obtain ⟨steps, parent, value⟩ := place
  have usual (stands : _) := text stands (value.isNone && !constraint.seesAbsence) (constraint.problem? ⟨steps, parent, value⟩)
  cases constraint with
  | graph question =>
    cases value with
    | none => rfl
    | some value => exact moves value rfl
  | pivotFields allowed =>
    cases value with
    | none => rfl
    | some value =>
      change .ok (Constraint.pivotMessages allowed value _) = sayBehind start (.ok (Constraint.pivotMessages allowed value _))
      rw [moves.1]
      cases value <;> simp [Constraint.pivotMessages, sayBehind, Except.map, String.append_assoc, toString]
  | filterValue =>
    cases value with
    | none => rfl
    | some value =>
      have under {path : String} (worded : path ≠ "") : Path.under path "value" = path ++ ".value" := by
        rw [Path.under, if_neg (by simpa using worded), String.append_assoc]
        rfl
      obtain ⟨stands, worded⟩ := moves
      have wordedToo : start ++ Attribute.path ⟨steps, parent, some value⟩ ≠ "" := by simp [worded]
      change .ok (Constraint.filterMessages value _) = sayBehind start (.ok (Constraint.filterMessages value _))
      rw [stands]
      simp only [Constraint.filterMessages, under worded, under wordedToo]
      split
      · split <;> simp [sayBehind, Except.map, String.append_assoc, toString]
      · rfl
  | immutable => cases value <;> rfl
  | _ => cases value <;> exact usual moves.1

private theorem attributeErrors_behind (moves : ∀ constraint ∈ constraints, Moves answer trail start place constraint) :
    attributeErrors answer (place.behind trail) constraints =
      sayBehind start (attributeErrors answer place constraints) := by
  induction constraints with
  | nil => rfl
  | cons constraint rest ih =>
    obtain ⟨here, later⟩ := List.forall_mem_cons.1 moves
    rw [attributeErrors, attributeErrors, constraintErrors_behind here, ih later]
    cases constraintErrors answer place constraint with
    | error failure => rfl
    | ok messages =>
      simp only [sayBehind, Except.map, ok_bind, List.isEmpty_map]
      split
      · rfl
      · cases attributeErrors answer place rest <;> simp [Bind.bind, Except.bind, pure, Except.pure]

/-- A check of a part, made where the part stands. -/
theorem placeErrors_behind (moves : ∀ constraint ∈ constraints, Moves answer trail start place constraint) :
    placeErrors answer constraints (place.behind trail) = sayBehind start (placeErrors answer constraints place) := by
  unfold placeErrors
  rw [show (place.behind trail).isPresent = place.isPresent from rfl]
  split
  · rfl
  · exact attributeErrors_behind moves

/-! ## Failures -/

/-- A document is not refused in a way in which neither the constraints nor the answers to its questions are. -/
theorem errors_never {p : Failure → Prop} (writable : ∀ relation kind, ¬p (.unsupported (.readOnly relation kind)))
    {known : GraphRule → Prop} (answered : ∀ question, known question → ∀ value path, Never p (answer question value path))
    (asks : rules.Asks known) (data : Json) : Never p (rules.errors answer data) := by
  have perConstraint {place : Attribute} {constraint : Constraint}
      (asked : ∀ question, constraint = .graph question → known question) :
      Never p (constraintErrors answer place constraint) := by
    unfold constraintErrors
    split
    · exact Never.ok _
    · exact Never.ok _
    · exact Never.error (writable _ _)
    · next question value _ => exact answered question (asked question rfl) value place.path
    · split <;> exact Never.ok _
  refine Never.bind (Never.mapM fun entry rule => Never.bind (Never.mapM fun place _ => ?_) fun _ _ => Never.pure _)
    fun _ _ => Never.pure _
  have asked := asks entry rule
  generalize entry.2 = constraints at asked
  have each : Never p (attributeErrors answer place constraints) := by
    induction constraints with
    | nil => exact Never.ok _
    | cons constraint rest ih =>
      refine Never.bind (perConstraint fun question same => asked question (same ▸ List.mem_cons_self)) fun _ _ => ?_
      split
      · exact Never.pure _
      · exact Never.bind (ih fun question later => asked question (List.mem_cons_of_mem _ later)) fun _ _ => Never.pure _
  unfold placeErrors
  split
  · exact Never.ok _
  · exact each

end RuleSet

end ResourceApi
