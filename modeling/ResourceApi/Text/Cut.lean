/-!
Cutting a text at every occurrence of a character.
-/

namespace ResourceApi.Text

/-- The pieces of a text between the separators, one more than there are separators. -/
def cut (separator : Char) : List Char → List (List Char)
  | [] => [[]]
  | c :: rest =>
    if c = separator then [] :: cut separator rest
    else match cut separator rest with
      | [] => [[c]]
      | first :: others => (c :: first) :: others

theorem cut_ne_nil (separator : Char) (cs : List Char) : cut separator cs ≠ [] := by
  cases cs with
  | nil => simp [cut]
  | cons c rest =>
    unfold cut
    split
    · simp
    · split <;> simp

theorem length_cut (separator : Char) (cs : List Char) : (cut separator cs).length = cs.count separator + 1 := by
  induction cs with
  | nil => rfl
  | cons c rest ih =>
    unfold cut
    by_cases here : c = separator
    · simp [here, ih]
    · have nonempty := cut_ne_nil separator rest
      rw [if_neg here, List.count_cons_of_ne here]
      cases found : cut separator rest with
      | nil => exact absurd found nonempty
      | cons first others => rw [found] at ih; simpa using ih

end ResourceApi.Text
