import ResourceApi.Text.Path

/-!
Taking dotted paths apart. Names without points are joined and taken apart again without loss.
-/

namespace ResourceApi

namespace Text

theorem cut_of_not_mem {separator : Char} {cs : List Char} (absent : separator ∉ cs) : cut separator cs = [cs] := by
  induction cs with
  | nil => rfl
  | cons c rest ih =>
    simp only [List.mem_cons, not_or] at absent
    rw [cut, if_neg (Ne.symm absent.1), ih absent.2]

theorem cut_append (separator : Char) (first second : List Char) :
    cut separator (first ++ separator :: second) = cut separator first ++ cut separator second := by
  induction first with
  | nil => simp [cut]
  | cons c rest ih =>
    rw [List.cons_append, cut, cut]
    by_cases here : c = separator
    · simp [here, ih]
    · rw [if_neg here, if_neg here, ih]
      cases found : cut separator rest with
      | nil => exact absurd found (cut_ne_nil separator rest)
      | cons piece pieces => rfl

/-- No piece holds the separator. -/
theorem not_mem_of_mem_cut {separator : Char} {cs piece : List Char} (member : piece ∈ cut separator cs) :
    separator ∉ piece := by
  induction cs generalizing piece with
  | nil =>
    obtain rfl := List.mem_singleton.1 member
    exact List.not_mem_nil
  | cons c rest ih =>
    rw [cut] at member
    split at member
    · rcases List.mem_cons.1 member with rfl | later
      · exact List.not_mem_nil
      · exact ih later
    · next different =>
      split at member
      · next none => exact absurd none (cut_ne_nil separator rest)
      · next first others found =>
        rw [found] at ih
        rcases List.mem_cons.1 member with rfl | later
        · have plain := ih List.mem_cons_self
          simp [Ne.symm different, plain]
        · exact ih (List.mem_cons_of_mem _ later)

/-- A text with a separator is a piece without any, the last one, behind all the others. -/
theorem exists_last_cut {separator : Char} {cs : List Char} (present : separator ∈ cs) :
    ∃ before last, cs = before ++ separator :: last ∧ separator ∉ last := by
  induction cs with
  | nil => cases present
  | cons c rest ih =>
    by_cases later : separator ∈ rest
    · obtain ⟨before, last, rfl, plain⟩ := ih later
      exact ⟨c :: before, last, rfl, plain⟩
    · rcases List.mem_cons.1 present with rfl | here
      · exact ⟨[], rest, rfl, later⟩
      · exact absurd here later

end Text

namespace Path

/-- A name that no point cuts. -/
def IsPlain (name : String) : Prop := '.' ∉ name.toList

instance (name : String) : Decidable (IsPlain name) := inferInstanceAs (Decidable (¬_))

variable {name : String}

theorem names_of_isPlain (plain : IsPlain name) : names name = [name] := by
  rw [names, Text.cut_of_not_mem plain, List.map_singleton, String.ofList_toList]

theorem isPlain_of_mem_names {path : String} (member : name ∈ names path) : IsPlain name := by
  obtain ⟨piece, inside, rfl⟩ := List.mem_map.1 member
  simpa [IsPlain] using Text.not_mem_of_mem_cut inside

theorem names_append (first second : String) : names (first ++ "." ++ second) = names first ++ names second := by
  have joined : (first ++ "." ++ second).toList = first.toList ++ '.' :: second.toList := by simp
  rw [names, joined, Text.cut_append, List.map_append]
  rfl

theorem segments_of_ne {path : String} (nonempty : path ≠ "") : segments path = names path := by
  rw [segments, if_neg (by simpa using nonempty)]

theorem segments_append {path : String} (nonempty : path ≠ "") (rest : String) :
    segments (path ++ "." ++ rest) = segments path ++ names rest := by
  rw [segments_of_ne nonempty, segments_of_ne (by simp), names_append]

theorem segments_under (path : String) {name : String} (nonempty : name ≠ "") :
    segments (under path name) = segments path ++ names name := by
  by_cases empty : path = ""
  · subst empty
    rw [under, if_pos (by rfl), segments_of_ne nonempty]
    rfl
  · rw [under, if_neg (by simpa using empty), segments_append empty]

theorem names_ne_nil (path : String) : names path ≠ [] := by
  rw [names, Ne, List.map_eq_nil_iff]
  exact Text.cut_ne_nil '.' path.toList

/-- A path is one plain name, or it ends in one behind another path. -/
theorem isPlain_or_append (path : String) :
    IsPlain path ∨ ∃ before last, path = before ++ "." ++ last ∧ IsPlain last := by
  by_cases pointed : '.' ∈ path.toList
  · obtain ⟨before, last, taken, plain⟩ := Text.exists_last_cut pointed
    refine .inr ⟨String.ofList before, String.ofList last, ?_, by simpa [IsPlain] using plain⟩
    rw [← String.toList_inj, taken]
    simp
  · exact .inl pointed

theorem ofNames_append {first second : List String} (nonempty : first ≠ []) (nonemptyToo : second ≠ []) :
    ofNames (first ++ second) = ofNames first ++ "." ++ ofNames second := by
  rw [ofNames, String.intercalate_append_of_ne_nil nonempty nonemptyToo]
  rfl

theorem ofNames_singleton (name : String) : ofNames [name] = name := String.intercalate_singleton

/-- Names that begin with a word make a path. -/
theorem ofNames_ne {first : String} (worded : first ≠ "") (rest : List String) : ofNames (first :: rest) ≠ "" := by
  cases rest with
  | nil => rwa [ofNames_singleton]
  | cons second rest =>
    rw [← List.singleton_append, ofNames_append (List.cons_ne_nil _ _) (List.cons_ne_nil _ _)]
    simp

/-- The names of a path make it again. -/
theorem ofNames_names (path : String) : ofNames (names path) = path := by
  induction same : path.toList.length using Nat.strongRecOn generalizing path with
  | ind size ih =>
    rcases isPlain_or_append path with plain | ⟨before, last, rfl, plain⟩
    · rw [names_of_isPlain plain, ofNames_singleton]
    · have shorter : before.toList.length < size := by
        rw [← same]
        simp
      rw [names_append, names_of_isPlain plain, ofNames_append (names_ne_nil before) (List.cons_ne_nil _ _),
        ih _ shorter before rfl, ofNames_singleton]

/-- Plain names that are joined are taken apart again. -/
theorem names_ofNames {parts : List String} (nonempty : parts ≠ []) (plain : ∀ name ∈ parts, IsPlain name) :
    names (ofNames parts) = parts := by
  induction parts with
  | nil => exact absurd rfl nonempty
  | cons first rest ih =>
    obtain ⟨here, later⟩ := List.forall_mem_cons.1 plain
    cases rest with
    | nil => rw [ofNames_singleton, names_of_isPlain here]
    | cons second more =>
      rw [← List.singleton_append, ofNames_append (List.cons_ne_nil _ _) (List.cons_ne_nil _ _), ofNames_singleton,
        names_append, names_of_isPlain here, ih (List.cons_ne_nil _ _) later]

theorem splitLast_of_isPlain (plain : IsPlain name) : splitLast name = ("", name) := by
  rw [splitLast, names_of_isPlain plain]
  rfl

theorem splitLast_append (before : String) (plain : IsPlain name) :
    splitLast (before ++ "." ++ name) = (before, name) := by
  rw [splitLast, names_append, names_of_isPlain plain, List.reverse_append, List.reverse_singleton,
    List.singleton_append]
  simp [ofNames_names]

theorem points_of_isPlain (plain : IsPlain name) : points name = 0 := List.count_eq_zero.2 plain

theorem points_append (first second : String) : points (first ++ "." ++ second) = points first + 1 + points second := by
  simp [points]
  omega

theorem points_eq_zero {path : String} : points path = 0 ↔ IsPlain path := List.count_eq_zero

/-! ## Paths that begin with a point -/

/-- A path of several names, the first of which is empty. -/
def IsRootless (path : String) : Prop := path.toList.head? = some '.'

instance (path : String) : Decidable (IsRootless path) := inferInstanceAs (Decidable (_ = _))

theorem isRootless_ofNames {first : String} (plain : IsPlain first) {rest : List String} (more : rest ≠ []) :
    IsRootless (ofNames (first :: rest)) ↔ first = "" := by
  rw [← List.singleton_append, ofNames_append (List.cons_ne_nil _ _) more, ofNames_singleton, IsRootless]
  constructor
  · intro pointed
    rw [← String.toList_eq_nil_iff]
    cases letters : first.toList with
    | nil => rfl
    | cons c cs =>
      have here : c = '.' := by simpa [letters] using pointed
      exact absurd (letters ▸ here ▸ List.mem_cons_self) plain
  · rintro rfl
    simp

/-- A path of two names at most that begins with a point is a plain name behind the point. -/
theorem eq_of_isRootless {path : String} (rootless : IsRootless path) (short : (names path).length ≤ 2) :
    ∃ name, path = "." ++ name ∧ IsPlain name := by
  obtain ⟨rest, letters⟩ : ∃ rest, path.toList = '.' :: rest := by
    cases here : path.toList with
    | nil => simp [IsRootless, here] at rootless
    | cons c rest => exact ⟨rest, by simpa [IsRootless, here] using rootless⟩
  have same : path = "." ++ String.ofList rest := by
    rw [← String.toList_inj, letters]
    simp
  refine ⟨String.ofList rest, same, ?_⟩
  have counted : (names path).length = 1 + (names (String.ofList rest)).length := by
    rw [same, show "." = "" ++ "." from rfl, names_append, List.length_append]
    rfl
  obtain ⟨first, more, parts⟩ := List.exists_cons_of_ne_nil (names_ne_nil (String.ofList rest))
  have alone : more = [] := by
    rw [parts, List.length_cons] at counted
    exact List.length_eq_zero_iff.1 (by omega)
  rw [← ofNames_names (String.ofList rest), parts, alone, ofNames_singleton]
  exact isPlain_of_mem_names (parts ▸ List.mem_cons_self)

end Path

end ResourceApi
