import Mathlib.Data.List.Forall2
import ResourceApi.Json.Reading

/-!
What was read, taken apart: a value made of several parts was read part by part, and a list item by item.
-/

namespace ResourceApi.Reading

variable {α β : Type}

@[simp]
theorem map_eq_done {f : α → β} {reading : Reading α} {b : β} :
    f <$> reading = done b ↔ ∃ a, reading = done a ∧ f a = b := by
  change map f reading = done b ↔ _
  cases reading <;> simp [map]

@[simp]
theorem seq_eq_done {f : Reading (α → β)} {reading : Reading α} {b : β} :
    f <*> reading = done b ↔ ∃ g, f = done g ∧ ∃ a, reading = done a ∧ g a = b := by
  change both f (fun _ => reading) = done b ↔ _
  cases f <;> cases reading <;> simp [both]

@[simp]
theorem below_eq_done {reading : Reading α} {name : String} {a : α} : reading.below name = done a ↔ reading = done a := by
  cases reading <;> simp [below]

@[simp]
theorem problem_ne_done {text : String} {a : α} : (problem text : Reading α) ≠ done a := by
  intro same
  cases same

@[simp]
theorem result_eq_ok {reading : Reading α} {a : α} : reading.result = .ok a ↔ reading = done a := by
  cases reading <;> simp [result]

@[simp]
theorem text_eq_done {value : Json} {s : String} : text value = done s ↔ value = .text s := by
  cases value <;> simp [text]

@[simp]
theorem any_eq_done {value found : Json} : any value = done found ↔ value = found := by
  simp [any]

theorem optional_eq_done {read : Json → Reading α} {value : Json} {found : Option α}
    (success : optional read value = done found) :
    value = .null ∧ found = none ∨ ∃ a, read value = done a ∧ found = some a := by
  unfold optional at success
  split at success
  · cases success
    exact .inl ⟨rfl, rfl⟩
  · change some <$> read value = done found at success
    obtain ⟨a, given, rfl⟩ := map_eq_done.1 success
    exact .inr ⟨a, given, rfl⟩

theorem itemsFrom_eq_done {read : Json → Reading α} {position : Nat} {items : List Json} {values : List α}
    (success : itemsFrom read position items = done values) :
    List.Forall₂ (fun item value => read item = done value) items values := by
  induction items generalizing position values with
  | nil =>
    cases success
    exact .nil
  | cons item rest ih =>
    simp only [itemsFrom, seq_eq_done, map_eq_done, below_eq_done] at success
    obtain ⟨_, ⟨value, here, rfl⟩, others, later, rfl⟩ := success
    exact .cons here (ih later)

/-- A list is read item by item. -/
theorem list_eq_done {read : Json → Reading α} {value : Json} {values : List α} (success : list read value = done values) :
    ∃ items, value = .list items ∧ List.Forall₂ (fun item value => read item = done value) items values := by
  cases value with
  | list items => exact ⟨items, rfl, itemsFrom_eq_done success⟩
  | _ => cases success

theorem object_eq_done {name : String} {read : Members → Reading α} {value : Json} {a : α} :
    object name read value = done a ↔ ∃ members, value = .object members ∧ read members = done a := by
  cases value <;> simp [object]

theorem choice_eq_done {ofName? : String → Option α} {listed : String} {value : Json} {a : α} :
    choice ofName? listed value = done a ↔ ∃ text, value = .text text ∧ ofName? text = some a := by
  unfold choice
  cases value with
  | text s => cases found : ofName? s <;> simp [Json.text?, found]
  | _ => simp [Json.text?]

theorem required_eq_done {members : Members} {name : String} {read : Json → Reading α} {a : α} :
    required members name read = done a ↔ ∃ value, members.get? name = some value ∧ read value = done a := by
  unfold required
  cases members.get? name <;> simp

/-- A member that may be left out was read, or its default stands for it. -/
theorem member_eq_done {members : Members} {name : String} {default : α} {read : Json → Reading α} {a : α} :
    member members name default read = done a ↔
      (∃ value, members.get? name = some value ∧ read value = done a) ∨ members.get? name = none ∧ default = a := by
  unfold member
  cases members.get? name <;> simp

/-- The items of a list that may be left out. -/
theorem member_list_eq_done {members : Members} {name : String} {read : Json → Reading α} {values : List α}
    (success : member members name [] (list read) = done values) :
    (∃ items, members.get? name = some (.list items) ∧
      List.Forall₂ (fun item value => read item = done value) items values) ∨
      members.get? name = none ∧ values = [] := by
  rcases member_eq_done.1 success with ⟨value, present, given⟩ | ⟨absent, rfl⟩
  · obtain ⟨items, rfl, pointwise⟩ := list_eq_done given
    exact .inl ⟨items, present, pointwise⟩
  · exact .inr ⟨absent, rfl⟩

end ResourceApi.Reading
