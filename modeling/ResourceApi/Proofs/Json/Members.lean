import Mathlib.Data.List.Basic
import ResourceApi.Json.Basic

/-!
Entries by key, and the members of objects by theirs: setting one leaves the others, and so does taking members out by their
keys.
-/

namespace ResourceApi

/-- What is known by a key is found among the entries whose keys are kept if that one is. -/
theorem lookup_filter_keys {α β : Type} [BEq α] [LawfulBEq α] (keeps : α → Bool) (entries : List (α × β)) (key : α) :
    (entries.filter fun entry => keeps entry.1).lookup key = if keeps key then entries.lookup key else none := by
  induction entries with
  | nil => simp
  | cons entry rest ih =>
    obtain ⟨name, value⟩ := entry
    rw [List.filter_cons]
    by_cases same : key = name
    · subst same
      cases kept : keeps key <;> simp [kept, ih]
    · have unlike : (key == name) = false := by simpa using same
      cases kept : keeps name <;> simp [List.lookup_cons, unlike, ih]

theorem mem_of_lookup {α β : Type} [BEq α] [LawfulBEq α] {entries : List (α × β)} {key : α} {value : β}
    (found : entries.lookup key = some value) : (key, value) ∈ entries := by
  obtain ⟨before, later, rfl, -⟩ := List.lookup_eq_some_iff.1 found
  exact List.mem_append_right before List.mem_cons_self

/-- Nothing is known by a key that no entry has. -/
theorem lookup_eq_none {α β : Type} [BEq α] [LawfulBEq α] {entries : List (α × β)} {key : α} :
    entries.lookup key = none ↔ ∀ entry ∈ entries, entry.1 ≠ key := by
  simp only [List.lookup_eq_none_iff, bne_iff_ne, ne_comm]

theorem lookup_of_mem {α β : Type} [BEq α] [LawfulBEq α] {entries : List (α × β)} {key : α} {value : β}
    (nodup : (entries.map (·.1)).Nodup) (listed : (key, value) ∈ entries) : entries.lookup key = some value := by
  obtain ⟨before, later, rfl⟩ := List.append_of_mem listed
  refine List.lookup_eq_some_iff.2 ⟨before, later, rfl, fun entry earlier => ?_⟩
  rw [List.map_append, List.nodup_append] at nodup
  have other := nodup.2.2 entry.1 (List.mem_map_of_mem earlier) key (by simp)
  simpa using other.symm

namespace Members

theorem mem_of_get? {members : Members} {key : String} {value : Json} (found : members.get? key = some value) :
    (key, value) ∈ members := mem_of_lookup found

@[simp]
theorem get?_put_self (key : String) (value : Json) (members : Members) :
    (Members.put key value members).get? key = some value := by
  induction members with
  | nil => simp [put, get?]
  | cons entry rest ih =>
    rw [put]
    split
    · next same => simp [get?, eq_of_beq same]
    · next other =>
      have unequal : (key == entry.1) = false := by
        rw [beq_eq_false_iff_ne]
        rintro rfl
        exact other (beq_self_eq_true _)
      rwa [get?, List.lookup_cons, unequal]

theorem get?_put_of_ne {key other : String} (unequal : other ≠ key) (value : Json) (members : Members) :
    (Members.put key value members).get? other = members.get? other := by
  have different : (other == key) = false := beq_eq_false_iff_ne.2 unequal
  induction members with
  | nil => simp [put, get?, List.lookup_cons, different]
  | cons entry rest ih =>
    obtain ⟨name, old⟩ := entry
    rw [put]
    split
    · next same => simp [get?, List.lookup_cons, eq_of_beq same, different]
    · simp only [get?, List.lookup_cons] at ih ⊢
      split
      · rfl
      · exact ih

/-- Members that are kept by their keys are found as before. -/
theorem get?_filter (keeps : String → Bool) {key : String} (kept : keeps key) (members : Members) :
    Members.get? (members.filter (keeps ·.1)) key = members.get? key := by
  rw [get?, lookup_filter_keys, if_pos kept, get?]

theorem get?_erase_of_ne {key other : String} (unequal : other ≠ key) (members : Members) :
    (members.erase key).get? other = members.get? other :=
  get?_filter (· != key) (by simpa using unequal) members

theorem has_iff {members : Members} {key : String} : members.has key ↔ key ∈ members.keys := by
  induction members with
  | nil => simp [has, get?, keys]
  | cons entry rest ih =>
    obtain ⟨name, value⟩ := entry
    by_cases same : key = name
    · simp [has, get?, keys, same]
    · have unequal : (key == name) = false := beq_eq_false_iff_ne.2 same
      simpa only [has, get?, keys, List.lookup_cons, unequal, List.map_cons, List.mem_cons, same, false_or] using ih

theorem keys_put_of_has {members : Members} {key : String} (given : members.has key) (value : Json) :
    (members.put key value).keys = members.keys := by
  rw [has_iff] at given
  induction members with
  | nil => cases given
  | cons entry rest ih =>
    obtain ⟨name, old⟩ := entry
    rw [Members.put]
    split
    · rfl
    · next other =>
      rcases List.mem_cons.1 given with rfl | later
      · exact absurd (beq_self_eq_true _) other
      · exact congrArg (name :: ·) (ih later)

theorem keys_put_of_not_has {members : Members} {key : String} (absent : ¬members.has key) (value : Json) :
    (members.put key value).keys = members.keys ++ [key] := by
  rw [has_iff] at absent
  induction members with
  | nil => rfl
  | cons entry rest ih =>
    obtain ⟨name, old⟩ := entry
    obtain ⟨other, later⟩ := not_or.1 (mt List.mem_cons.2 absent)
    rw [Members.put, if_neg (by simpa using Ne.symm other)]
    exact congrArg (name :: ·) (ih later)

theorem mem_put {members : Members} {key : String} {value : Json} {member : String × Json}
    (listed : member ∈ members.put key value) : member = (key, value) ∨ member ∈ members := by
  induction members with
  | nil => exact .inl (List.mem_singleton.1 listed)
  | cons entry rest ih =>
    rw [Members.put] at listed
    split at listed
    · next same =>
      rcases List.mem_cons.1 listed with rfl | later
      · exact .inl (by rw [eq_of_beq same])
      · exact .inr (List.mem_cons_of_mem _ later)
    · rcases List.mem_cons.1 listed with rfl | later
      · exact .inr List.mem_cons_self
      · exact (ih later).imp_right (List.mem_cons_of_mem _)

end Members

end ResourceApi
