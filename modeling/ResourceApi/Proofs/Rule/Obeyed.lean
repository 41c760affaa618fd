import ResourceApi.Proofs.Outcome
import ResourceApi.Rule.Check

/-!
Documents that keep to their rules. Without a message there is none at any place, and so every constraint on a place that
is there is met; rule sets for different paths are joined by putting one behind the other.
-/

namespace ResourceApi

open Outcome

namespace Json

theorem isIn_texts {value : Json} {names : List String} (listed : value.isIn (names.map .text)) :
    ∃ name ∈ names, value = .text name := by
  obtain ⟨other, member, same⟩ := List.any_eq_true.1 listed
  obtain ⟨name, named, rfl⟩ := List.mem_map.1 member
  cases value with
  | text text =>
    have equal : text = name := by simpa [Json.same, Json.sameScalar] using same
    exact ⟨name, named, congrArg Json.text equal⟩
  | _ => simp [Json.same, Json.sameScalar, Json.integer?] at same

theorem isList_iff {value : Json} : value.isList ↔ ∃ items, value = .list items := by
  cases value <;> simp [isList]

theorem isObject_iff {value : Json} : value.isObject ↔ ∃ members : Members, value = .object members := by
  cases value <;> simp [isObject]

end Json

namespace Attribute

/-- What is below a member is below the object. -/
theorem below_member {data value : Json} {key : String} (found : data.get? key = some value) (trail : List Step)
    (segment : Segment) (rest : List Segment) :
    below trail data (.name key :: segment :: rest) = below (trail ++ [.member key]) value (segment :: rest) := by
  simp only [below, found]

/-- A named member is reached whether it is there or not. -/
theorem below_last (trail : List Step) (members : Members) (key : String) :
    below trail (.object members) [.name key] = [⟨trail ++ [.member key], some members, members.get? key⟩] := rfl

/-- What is below an item is below the list. -/
theorem below_item {items : List Json} {item : Json} (member : item ∈ items) (trail : List Step) :
    ∃ inner, ∀ rest, ∀ place ∈ below inner item rest, place ∈ below trail (.list items) (.any :: rest) := by
  obtain ⟨position, inside, rfl⟩ := List.getElem_of_mem member
  refine ⟨trail ++ [.index position], fun rest place reached => ?_⟩
  have child : (Step.index position, items[position]) ∈ (Json.list items).children := by
    refine List.mem_map.2 ⟨(items[position], position), ?_, rfl⟩
    simp [List.mem_zipIdx_iff_getElem?]
  cases rest with
  | nil =>
    obtain rfl := List.mem_singleton.1 reached
    exact List.mem_map.2 ⟨_, child, rfl⟩
  | cons segment rest => exact List.mem_flatMap.2 ⟨_, child, reached⟩

end Attribute

namespace RuleSet

variable {answer : GraphRule.Answer} {place : Attribute} {constraint : Constraint} {constraints : List Constraint}
  {value : Json}

/-- A document without messages has none at any place that a rule reaches. -/
theorem placeErrors_of_errors {rules : RuleSet} {data : Json} (none : rules.errors answer data = .ok [])
    {pattern : String} (rule : (pattern, constraints) ∈ rules) (reached : place ∈ Attribute.expand data pattern) :
    placeErrors answer constraints place = .ok [] := by
  obtain ⟨found, checked, empty⟩ := bind_eq_ok.1 none
  have allEmpty := List.flatten_eq_nil_iff.1 (pure_eq_ok.1 empty)
  obtain ⟨messages, given, check⟩ := mapM_image checked rule
  obtain rfl := allEmpty messages given
  obtain ⟨perPlace, checkedPlaces, emptyPlaces⟩ := bind_eq_ok.1 check
  obtain ⟨ofPlace, givenPlace, checkPlace⟩ := mapM_image checkedPlaces reached
  obtain rfl := List.flatten_eq_nil_iff.1 (pure_eq_ok.1 emptyPlaces) ofPlace givenPlace
  exact checkPlace

theorem errors_of_errorsAt {rules : RuleSet} {data : Json} {path : String}
    (none : rules.errorsAt answer data path = .ok []) : rules.errors answer data = .ok [] := by
  obtain ⟨found, checked, empty⟩ := bind_eq_ok.1 none
  obtain rfl := List.map_eq_nil_iff.1 (pure_eq_ok.1 empty)
  exact checked

private theorem constraintErrors_of_attributeErrors (none : attributeErrors answer place constraints = .ok [])
    (member : constraint ∈ constraints) : constraintErrors answer place constraint = .ok [] := by
  induction constraints with
  | nil => cases member
  | cons first rest ih =>
    obtain ⟨messages, checked, after⟩ := bind_eq_ok.1 none
    split at after
    · next ended =>
      obtain rfl := pure_eq_ok.1 after
      simp at ended
    · obtain ⟨later, checkedLater, joined⟩ := bind_eq_ok.1 after
      obtain ⟨rfl, rfl⟩ := List.append_eq_nil_iff.1 (pure_eq_ok.1 joined)
      rcases List.mem_cons.1 member with rfl | further
      · exact checked
      · exact ih checkedLater further

/-- What is there meets every constraint on it. -/
theorem constraintErrors_of_present (none : placeErrors answer constraints place = .ok [])
    (present : place.value = some value) (member : constraint ∈ constraints) :
    constraintErrors answer place constraint = .ok [] := by
  rw [placeErrors, Attribute.isPresent, present] at none
  exact constraintErrors_of_attributeErrors none member

/-- What must be there meets every constraint on it, whether it is there or not. -/
theorem constraintErrors_of_needed (none : placeErrors answer constraints place = .ok [])
    (needed : Constraint.sometimes ∉ constraints) (member : constraint ∈ constraints) :
    constraintErrors answer place constraint = .ok [] := by
  unfold placeErrors at none
  split at none
  · next skipped =>
    obtain ⟨-, skips⟩ := Bool.and_eq_true_iff.1 skipped
    obtain ⟨other, listed, isSometimes⟩ := List.any_eq_true.1 skips
    cases other with
    | sometimes => exact absurd listed needed
    | _ => cases isSometimes
  · exact constraintErrors_of_attributeErrors none member

/-! ## What the constraints say -/

private theorem problem_of_messages {problem : Option String} {message : String → String}
    (none : (.ok (problem.toList.map message) : Except Failure (List String)) = .ok []) : problem = Option.none := by
  simpa using List.map_eq_nil_iff.1 (Except.ok.inj none)

/-- A constraint that is looked at even where nothing is there has no problem once it is met. -/
private theorem problem_of_met (looked : constraint.seesAbsence)
    (met : constraintErrors answer place constraint = .ok []) : constraint.problem? place = none := by
  obtain ⟨trail, parent, value⟩ := place
  cases constraint <;> cases looked <;> cases value <;> exact problem_of_messages met

section Met

variable (present : place.value = some value)
include present

theorem isList_of_met (met : constraintErrors answer place .isList = .ok []) : ∃ items, value = .list items := by
  obtain ⟨trail, parent, _⟩ := place
  cases present
  cases value with
  | list items => exact ⟨items, rfl⟩
  | _ => cases met

theorem isObject_of_met (met : constraintErrors answer place .isObject = .ok []) :
    ∃ members, value = .object members := by
  obtain ⟨trail, parent, _⟩ := place
  cases present
  cases value with
  | object members => exact ⟨members, rfl⟩
  | _ => cases met

theorem isText_of_met (met : constraintErrors answer place .isString = .ok []) : ∃ text, value = .text text := by
  obtain ⟨trail, parent, _⟩ := place
  cases present
  cases value with
  | text text => exact ⟨text, rfl⟩
  | _ => cases met

theorem isIn_of_met {values : List Json} (met : constraintErrors answer place (.oneOf values) = .ok []) :
    value.isIn values := by
  obtain ⟨trail, parent, _⟩ := place
  cases present
  have clear : (if value.isIn values then none else some _) = none := problem_of_messages met
  by_contra absent
  rw [if_neg absent] at clear
  cases clear

theorem answer_of_met {rule : GraphRule} (met : constraintErrors answer place (.graph rule) = .ok []) :
    answer rule value place.path = .ok [] := by
  obtain ⟨trail, parent, _⟩ := place
  cases present
  exact met

end Met

theorem isFilled_of_required (met : constraintErrors answer place .required = .ok []) : Json.isFilled place.value := by
  have clear : (if Json.isFilled place.value then none else some _) = none := problem_of_met rfl met
  by_contra empty
  rw [if_neg empty] at clear
  cases clear

theorem absent_of_prohibited (met : constraintErrors answer place .prohibited = .ok []) : place.value = none := by
  have clear : (if place.isPresent then some _ else none) = none := problem_of_met rfl met
  cases absent : place.value with
  | none => rfl
  | some value =>
    rw [if_pos (by rw [Attribute.isPresent, absent]; rfl)] at clear
    cases clear

theorem absent_of_immutable {name : String} {kind : Kind}
    (met : constraintErrors answer place (.immutable name kind) = .ok []) : place.value = none := by
  obtain ⟨trail, parent, value⟩ := place
  cases value with
  | none => rfl
  | some value => cases met

theorem isFilled_of_requiredWithout {other : String}
    (met : constraintErrors answer place (.requiredWithout other) = .ok []) :
    Json.isFilled (place.sibling? other) ∨ Json.isFilled place.value := by
  have clear : (if Json.isFilled (place.sibling? other) || Json.isFilled place.value then none else some _) = none :=
    problem_of_met rfl met
  by_contra empty
  rw [if_neg (by simpa using empty)] at clear
  cases clear

theorem isFilled_of_requiredIf {other : String} {values : List Json} {sibling : Json}
    (met : constraintErrors answer place (.requiredIf other values) = .ok [])
    (found : place.sibling? other = some sibling) (listed : sibling.isIn values) : Json.isFilled place.value := by
  have clear := problem_of_met rfl met
  simp only [Constraint.problem?, found] at clear
  by_contra empty
  rw [if_pos (by simpa [listed] using empty)] at clear
  cases clear

/-! ## Joining -/

/-- Constraints of which none equals one before it. -/
def Tidy (constraints : List Constraint) : Prop := constraints.Pairwise fun before after => !after.same before

instance (constraints : List Constraint) : Decidable (Tidy constraints) :=
  inferInstanceAs (Decidable (constraints.Pairwise _))

private theorem added_eq_append {constraints listed : List Constraint} (tidy : Tidy (listed ++ constraints)) :
    constraints.foldl (fun listed new => if listed.any new.same then listed else listed ++ [new]) listed =
      listed ++ constraints := by
  induction constraints generalizing listed with
  | nil => simp
  | cons constraint rest ih =>
    have fresh : listed.any constraint.same = false := by
      rw [List.any_eq_false]
      intro before member
      have different := (List.pairwise_append.1 tidy).2.2 before member constraint List.mem_cons_self
      simpa using different
    rw [List.foldl_cons, if_neg (by simp [fresh]), ih (by simpa using tidy)]
    simp

theorem extend_fresh {rules : RuleSet} {path : String} (fresh : path ∉ rules.map (·.1)) (tidy : Tidy constraints) :
    rules.extend path constraints = rules ++ [(path, constraints)] := by
  have unlisted : rules.any (·.1 == path) = false := by
    rw [List.any_eq_false]
    rintro ⟨other, _⟩ member same
    exact fresh (List.mem_map.2 ⟨_, member, by simpa using same⟩)
  rw [extend, if_neg (by simp [unlisted])]
  simpa using @added_eq_append constraints [] tidy

theorem merge_fresh {rules other : RuleSet} (distinct : ((rules ++ other).map (·.1)).Nodup)
    (tidy : ∀ entry ∈ other, Tidy entry.2) : rules.merge other = rules ++ other := by
  unfold merge
  induction other generalizing rules with
  | nil => simp
  | cons entry rest ih =>
    have fresh : entry.1 ∉ rules.map (·.1) := by
      intro listed
      rw [List.map_append, List.map_cons, List.nodup_append] at distinct
      exact distinct.2.2 _ listed _ List.mem_cons_self rfl
    rw [List.foldl_cons, extend_fresh fresh (tidy entry List.mem_cons_self)]
    rw [ih (by simpa using distinct) fun later member => tidy later (List.mem_cons_of_mem _ member)]
    simp

/-- Constraints for a path that is there are added to those it has. -/
theorem extend_there {before after : RuleSet} {path : String} {more : List Constraint}
    (distinct : ((before ++ (path, constraints) :: after).map (·.1)).Nodup) :
    extend (before ++ (path, constraints) :: after) path more =
      before ++ (path, more.foldl (fun listed new => if listed.any new.same then listed else listed ++ [new])
        constraints) :: after := by
  rw [List.map_append, List.map_cons] at distinct
  obtain ⟨-, later, apart⟩ := List.nodup_append.1 distinct
  let added (current : List Constraint) : List Constraint :=
    more.foldl (fun listed new => if listed.any new.same then listed else listed ++ [new]) current
  have keep {entries : RuleSet} (other : ∀ entry ∈ entries, entry.1 ≠ path) :
      entries.map (fun entry => if entry.1 == path then (path, added entry.2) else entry) = entries := by
    have same : ∀ entry ∈ entries, (if entry.1 == path then (path, added entry.2) else entry) = id entry := by
      intro entry member
      rw [if_neg (by simpa using other entry member), id]
    rw [List.map_congr_left same, List.map_id]
  have keepBefore := keep fun entry member same => apart _ (List.mem_map_of_mem member) _ List.mem_cons_self same
  have keepAfter := keep fun entry member same => (List.nodup_cons.1 later).1 (List.mem_map.2 ⟨entry, member, same⟩)
  have present : (before ++ (path, constraints) :: after).any (·.1 == path) := by simp
  rw [extend, if_pos present, List.map_append, List.map_cons, keepBefore, keepAfter, if_pos (by simp)]

/-- Constraints for a path that is there are put behind those it has. -/
theorem extend_known {before after : RuleSet} {path : String} {more : List Constraint}
    (distinct : ((before ++ (path, constraints) :: after).map (·.1)).Nodup) (tidy : Tidy (constraints ++ more)) :
    extend (before ++ (path, constraints) :: after) path more = before ++ (path, constraints ++ more) :: after := by
  rw [extend_there distinct, added_eq_append tidy]

end RuleSet

end ResourceApi
