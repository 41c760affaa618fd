import Mathlib.Data.List.Basic
import ResourceApi.Text.SnakeCase

/-!
Words of names in camel case. Snake case keeps the words of a name apart by one underscore each if and only if none of
them is an acronym: an acronym is spelled out letter by letter, and two underscores part it from the word behind it.
-/

namespace ResourceApi.Text

/-- Small letters and digits. -/
def isLow (c : Char) : Bool := isSmall c || c.isDigit

/-- A capital and a small letter, with small letters and digits behind them. -/
def isCapitalised : List Char → Bool
  | initial :: second :: rest => isCapital initial && isSmall second && rest.all isLow
  | _ => false

/-- Two capitals or more. -/
def isAcronym (word : List Char) : Bool := 2 ≤ word.length && word.all isCapital

/-- Whether one of two words at most is an acronym. -/
def mayMeet (first second : List Char) : Bool := !(isAcronym first && isAcronym second)

/-- Words with another one in front, if that is not empty. -/
def led (start : List Char) (words : List (List Char)) : List (List Char) :=
  if start.isEmpty then words else start :: words

/-- A name made of words that stand side by side. It may begin with a word in small letters; every other word is
capitalised or an acronym, and no two acronyms are neighbours. -/
structure CamelName where
  start : List Char
  words : List (List Char)
  low : start.all isLow
  each : ∀ word ∈ words, isCapitalised word || isAcronym word
  apart : words.IsChain (mayMeet · ·)

/-- What stands between the underscores of a name: a capitalised word as a whole, an acronym letter by letter, and
nothing between an acronym and the word behind it. -/
def spellOut : List (List Char) → List (List Char)
  | [] => []
  | word :: rest =>
    if isAcronym word then word.map ([·]) ++ (if rest.isEmpty then [] else [[]]) ++ spellOut rest
    else word :: spellOut rest

/-- Words in lower case with an underscore between neighbours. -/
def joined (words : List (List Char)) : String :=
  "_".intercalate (words.map fun word => String.ofList (word.map Char.toLower))

namespace CamelName

def text (name : CamelName) : String := String.ofList (name.start ++ name.words.flatten)

def allWords (name : CamelName) : List (List Char) := led name.start name.words

def spelled (name : CamelName) : List (List Char) := led name.start (spellOut name.words)

end CamelName

/-! ## Letters -/

theorem isCapital_iff {c : Char} : isCapital c ↔ 65 ≤ c.toNat ∧ c.toNat ≤ 90 := by
  simp [isCapital, Char.le_def, UInt32.le_iff_toNat_le]

theorem isLow_iff {c : Char} : isLow c ↔ 97 ≤ c.toNat ∧ c.toNat ≤ 122 ∨ 48 ≤ c.toNat ∧ c.toNat ≤ 57 := by
  simp [isLow, isSmall, Char.isDigit, Char.le_def, UInt32.le_iff_toNat_le]

theorem isCapital_of_isLow {c : Char} (low : isLow c) : isCapital c = false := by
  rw [Bool.eq_false_iff, ne_eq, isCapital_iff]
  rw [isLow_iff] at low
  omega

theorem isLow_of_isSmall {c : Char} (small : isSmall c) : isLow c := by
  simp [isLow, small]

/-- Lower case makes no underscore. -/
theorem toLower_ne_underscore {c : Char} (plain : c ≠ '_') : c.toLower ≠ '_' := by
  unfold Char.toLower
  split
  · next capital =>
    intro same
    have code := congrArg (·.val.toNat) same
    simp [UInt32.le_iff_toNat_le] at code capital
    omega
  · exact plain

/-- Characters of ASCII become small one by one. -/
theorem lowerChars_ascii {before : Bool} {cs : List Char} (ascii : ∀ c ∈ cs, c.toNat < 128) :
    lowerChars before cs = cs.map Char.toLower := by
  induction cs generalizing before with
  | nil => rfl
  | cons c rest ih =>
    obtain ⟨here, later⟩ := List.forall_mem_cons.1 ascii
    have notDotted : c ≠ '\u0130' := by
      rintro rfl
      exact absurd here (by decide)
    have notSigma : c ≠ 'Σ' := by
      rintro rfl
      exact absurd here (by decide)
    simp [lowerChars, lowerChar, notDotted, notSigma, here, ih later]

/-! ## Words -/

variable {run lows after word : List Char} {words : List (List Char)}

theorem exists_of_isCapitalised (capitalised : isCapitalised word) :
    ∃ initial second rest, word = initial :: second :: rest ∧ isCapital initial ∧ isSmall second ∧
      ∀ c ∈ second :: rest, isLow c := by
  match word, capitalised with
  | initial :: second :: rest, capitalised =>
    simp only [isCapitalised, Bool.and_eq_true, List.all_eq_true] at capitalised
    obtain ⟨⟨capital, small⟩, low⟩ := capitalised
    exact ⟨initial, second, rest, rfl, capital, small, List.forall_mem_cons.2 ⟨isLow_of_isSmall small, low⟩⟩

theorem capitals_of_isAcronym (acronym : isAcronym word) : ∀ c ∈ word, isCapital c :=
  List.all_eq_true.1 (Bool.and_eq_true_iff.1 acronym).2

theorem two_le_of_isAcronym (acronym : isAcronym word) : 2 ≤ word.length := by
  simpa using (Bool.and_eq_true_iff.1 acronym).1

theorem isAcronym_of_isCapitalised (capitalised : isCapitalised word) : isAcronym word = false := by
  obtain ⟨initial, second, rest, rfl, -, small, -⟩ := exists_of_isCapitalised capitalised
  simp [isAcronym, isCapital_of_isLow (isLow_of_isSmall small)]

theorem exists_capital (known : isCapitalised word || isAcronym word) :
    ∃ initial rest, word = initial :: rest ∧ isCapital initial := by
  rcases Bool.or_eq_true_iff.1 known with capitalised | acronym
  · obtain ⟨initial, second, rest, rfl, capital, -⟩ := exists_of_isCapitalised capitalised
    exact ⟨initial, second :: rest, rfl, capital⟩
  · obtain ⟨initial, rest, rfl⟩ := List.exists_cons_of_length_pos (Nat.lt_of_lt_of_le Nat.two_pos (two_le_of_isAcronym acronym))
    exact ⟨initial, rest, rfl, capitals_of_isAcronym acronym initial List.mem_cons_self⟩

theorem letter_of_mem_word (known : isCapitalised word || isAcronym word) : ∀ c ∈ word, isCapital c ∨ isLow c := by
  rcases Bool.or_eq_true_iff.1 known with capitalised | acronym
  · obtain ⟨initial, second, rest, rfl, capital, -, low⟩ := exists_of_isCapitalised capitalised
    exact List.forall_mem_cons.2 ⟨.inl capital, fun c inside => .inr (low c inside)⟩
  · exact fun c inside => .inl (capitals_of_isAcronym acronym c inside)

/-- Nothing stands in front of words without being in their way. -/
theorem isChain_nil_cons (apart : words.IsChain (mayMeet · ·)) : ([] :: words).IsChain (mayMeet · ·) := by
  cases words with
  | nil => simp
  | cons next more => exact List.isChain_cons_cons.2 ⟨by simp [mayMeet, isAcronym], apart⟩

/-! ## Marks -/

theorem markCapitals_append (first second : List Char) :
    markCapitals (first ++ second) = markCapitals first ++ markCapitals second := List.flatMap_append

theorem markCapitals_low (low : ∀ c ∈ lows, isLow c) : markCapitals lows = lows := by
  induction lows with
  | nil => rfl
  | cons c rest ih =>
    obtain ⟨here, later⟩ := List.forall_mem_cons.1 low
    rw [markCapitals, List.flatMap_cons, isCapital_of_isLow here]
    exact congrArg (c :: ·) (ih later)

theorem markCapitals_capitals (capitals : ∀ c ∈ run, isCapital c) :
    markCapitals run = (run.map ([·])).flatMap ('_' :: ·) := by
  rw [markCapitals, List.flatMap_map]
  exact List.flatMap_congr fun c member => by rw [if_pos (capitals c member)]

/-- Capitals are gathered until something else comes. -/
theorem splitAcronyms_capitals (capitals : ∀ c ∈ run, isCapital c) (before after : List Char) :
    splitAcronyms before (run ++ after) = splitAcronyms (before ++ run) after := by
  induction run generalizing before with
  | nil => simp
  | cons c rest ih =>
    obtain ⟨here, later⟩ := List.forall_mem_cons.1 capitals
    rw [List.cons_append, splitAcronyms, if_pos here, ih later]
    simp

theorem splitAcronyms_low (low : ∀ c ∈ lows, isLow c) (after : List Char) :
    splitAcronyms [] (lows ++ after) = lows ++ splitAcronyms [] after := by
  induction lows with
  | nil => rfl
  | cons c rest ih =>
    obtain ⟨here, later⟩ := List.forall_mem_cons.1 low
    have nothing : splitAcronyms [] (c :: (rest ++ after)) =
        (if isSmall c && 2 ≤ 0 then ['_'] else []) ++ c :: splitAcronyms [] (rest ++ after) := by
      rw [splitAcronyms, isCapital_of_isLow here]
      rfl
    rw [List.cons_append, nothing, if_neg (by simp), ih later]
    rfl

/-- A capitalised word is parted from the capitals in front of it. -/
theorem splitAcronyms_capitalised (capitalised : isCapitalised word) (run after : List Char) :
    splitAcronyms run (word ++ after) =
      run ++ (if run.isEmpty then [] else ['_']) ++ word ++ splitAcronyms [] after := by
  obtain ⟨initial, second, rest, rfl, capital, small, low⟩ := exists_of_isCapitalised capitalised
  have gathered : splitAcronyms run (initial :: second :: rest ++ after) =
      (if isSmall second && 2 ≤ (run ++ [initial]).length then
        (run ++ [initial]).dropLast ++ '_' :: (run ++ [initial]).drop ((run ++ [initial]).length - 1)
      else run ++ [initial]) ++ second :: splitAcronyms [] (rest ++ after) := by
    rw [List.cons_append, List.cons_append, splitAcronyms, if_pos capital, splitAcronyms,
      isCapital_of_isLow (isLow_of_isSmall small)]
    rfl
  rw [gathered, splitAcronyms_low (List.forall_mem_cons.1 low).2]
  cases run with
  | nil => simp
  | cons c more => simp [small, List.dropLast_cons_of_ne_nil]

theorem markCapitals_capitalised (capitalised : isCapitalised word) : markCapitals word = '_' :: word := by
  obtain ⟨initial, second, rest, rfl, capital, -, low⟩ := exists_of_isCapitalised capitalised
  rw [markCapitals, List.flatMap_cons, if_pos capital]
  exact congrArg ('_' :: initial :: ·) (markCapitals_low low)

/-- The words of a name with their marks, behind the letters of an acronym that are gathered already. -/
theorem markCapitals_splitAcronyms (pending : run = [] ∨ isAcronym run)
    (each : ∀ word ∈ words, isCapitalised word || isAcronym word)
    (apart : (run :: words).IsChain (mayMeet · ·)) :
    markCapitals (splitAcronyms run words.flatten) =
      (run.map ([·]) ++ (if run.isEmpty || words.isEmpty then [] else [[]]) ++ spellOut words).flatMap ('_' :: ·) := by
  have capitals : ∀ c ∈ run, isCapital c := by
    rcases pending with rfl | acronym
    · simp
    · exact capitals_of_isAcronym acronym
  induction words generalizing run with
  | nil => simp [splitAcronyms, spellOut, markCapitals_capitals capitals]
  | cons word rest ih =>
    obtain ⟨here, later⟩ := List.forall_mem_cons.1 each
    obtain ⟨alone, apartLater⟩ := List.isChain_cons_cons.1 apart
    rcases Bool.or_eq_true_iff.1 here with capitalised | acronym
    · have others := @ih [] (.inl rfl) later (isChain_nil_cons apartLater.of_cons) (by simp)
      rw [List.flatten_cons, splitAcronyms_capitalised capitalised, spellOut, isAcronym_of_isCapitalised capitalised]
      simp only [markCapitals_append, markCapitals_capitals capitals, markCapitals_capitalised capitalised, others]
      cases run <;> simp [markCapitals, isCapital]
    · have none : run = [] := by
        rcases pending with empty | acronymToo
        · exact empty
        · simp [mayMeet, acronym, acronymToo] at alone
      subst none
      have nonempty : word ≠ [] := by
        rintro rfl
        cases acronym
      rw [List.flatten_cons, splitAcronyms_capitals (capitals_of_isAcronym acronym), List.nil_append,
        ih (.inr acronym) later apartLater (capitals_of_isAcronym acronym), spellOut, if_pos acronym]
      simp [nonempty]

/-- Capitals that are gathered are not lost, so that the first of them stays in front. -/
theorem splitAcronyms_cons (first : Char) (run cs : List Char) :
    ∃ tail, splitAcronyms (first :: run) cs = first :: tail := by
  induction cs generalizing run with
  | nil => exact ⟨run, rfl⟩
  | cons c rest ih =>
    rw [splitAcronyms]
    split
    · exact ih (run ++ [c])
    · change ∃ tail, (if isSmall c && 2 ≤ (first :: run).length then
        (first :: run).dropLast ++ '_' :: (first :: run).drop ((first :: run).length - 1) else first :: run) ++
          c :: splitAcronyms [] rest = first :: tail
      split
      · next several =>
        have more : run ≠ [] := by
          rintro rfl
          simp at several
        rw [List.dropLast_cons_of_ne_nil more]
        exact ⟨_, rfl⟩
      · exact ⟨_, rfl⟩

theorem intercalate_cons (separator : Char) (first : List Char) (rest : List (List Char)) :
    [separator].intercalate (first :: rest) = first ++ rest.flatMap (separator :: ·) := by
  induction rest generalizing first with
  | nil => simp
  | cons second more ih =>
    rw [List.intercalate_cons_cons, ih, List.flatMap_cons]
    simp

theorem map_intercalate (f : Char → Char) (separator : Char) (pieces : List (List Char)) :
    ([separator].intercalate pieces).map f = [f separator].intercalate (pieces.map (·.map f)) := by
  cases pieces with
  | nil => rfl
  | cons first rest => simp [intercalate_cons, List.map_flatMap, List.flatMap_map]

theorem mem_intercalate {separator c : Char} {pieces : List (List Char)} (inside : c ∈ [separator].intercalate pieces) :
    c = separator ∨ ∃ piece ∈ pieces, c ∈ piece := by
  cases pieces with
  | nil => simp at inside
  | cons first rest =>
    simp only [intercalate_cons, List.mem_append, List.mem_flatMap, List.mem_cons] at inside
    rcases inside with here | ⟨piece, listed, same | within⟩
    · exact .inr ⟨first, List.mem_cons_self, here⟩
    · exact .inl same
    · exact .inr ⟨piece, List.mem_cons_of_mem _ listed, within⟩

theorem count_intercalate {separator : Char} {pieces : List (List Char)} (some : pieces ≠ [])
    (plain : ∀ piece ∈ pieces, separator ∉ piece) :
    ([separator].intercalate pieces).count separator + 1 = pieces.length := by
  obtain ⟨first, rest, rfl⟩ := List.exists_cons_of_ne_nil some
  obtain ⟨here, later⟩ := List.forall_mem_cons.1 plain
  have others : (rest.flatMap (separator :: ·)).count separator = rest.length := by
    clear some plain here
    induction rest with
    | nil => rfl
    | cons second more ih =>
      obtain ⟨absent, further⟩ := List.forall_mem_cons.1 later
      simp [List.count_append, List.count_eq_zero.2 absent, ih further]
  rw [intercalate_cons, List.count_append, List.count_eq_zero.2 here, others, List.length_cons, Nat.zero_add]

theorem toList_joined (words : List (List Char)) :
    (joined words).toList = ['_'].intercalate (words.map (·.map Char.toLower)) := by
  rw [joined, String.toList_intercalate, List.map_map]
  simp only [Function.comp_def, String.toList_ofList]
  rfl

/-- Words that are joined have one underscore less than they are. -/
theorem count_joined (some : words ≠ []) (letters : ∀ word ∈ words, ∀ c ∈ word, isCapital c ∨ isLow c) :
    (joined words).toList.count '_' + 1 = words.length := by
  rw [toList_joined, count_intercalate (by simpa using some), List.length_map]
  intro piece listed inside
  obtain ⟨word, member, rfl⟩ := List.mem_map.1 listed
  obtain ⟨c, within, same⟩ := List.mem_map.1 inside
  refine toLower_ne_underscore ?_ same
  rintro rfl
  exact absurd (letters word member _ within) (by decide)

/-! ## Names -/

theorem length_led (start : List Char) (words : List (List Char)) :
    (led start words).length = (if start.isEmpty then 0 else 1) + words.length := by
  unfold led
  split <;> simp [Nat.add_comm]

/-- What is spelled out has the letters of the words. -/
theorem mem_of_mem_spellOut {piece : List Char} {c : Char} (listed : piece ∈ spellOut words) (inside : c ∈ piece) :
    ∃ word ∈ words, c ∈ word := by
  induction words with
  | nil => cases listed
  | cons word rest ih =>
    have further (listed : piece ∈ spellOut rest) : ∃ other ∈ word :: rest, c ∈ other := by
      obtain ⟨other, member, within⟩ := ih listed
      exact ⟨other, List.mem_cons_of_mem _ member, within⟩
    rw [spellOut] at listed
    split at listed
    · simp only [List.mem_append, List.mem_map] at listed
      rcases listed with (⟨letter, member, rfl⟩ | between) | later
      · obtain rfl := List.mem_singleton.1 inside
        exact ⟨word, List.mem_cons_self, member⟩
      · split at between
        · cases between
        · obtain rfl := List.mem_singleton.1 between
          cases inside
      · exact further later
    · rcases List.mem_cons.1 listed with rfl | later
      · exact ⟨piece, List.mem_cons_self, inside⟩
      · exact further later

theorem spellOut_eq_self (none : ∀ word ∈ words, isAcronym word = false) : spellOut words = words := by
  induction words with
  | nil => rfl
  | cons word rest ih =>
    obtain ⟨here, later⟩ := List.forall_mem_cons.1 none
    rw [spellOut, here, ih later]
    rfl

theorem length_le_spellOut (words : List (List Char)) : words.length ≤ (spellOut words).length := by
  induction words with
  | nil => exact Nat.le_refl 0
  | cons word rest ih =>
    rw [spellOut]
    split
    · next acronym =>
      have letters := two_le_of_isAcronym acronym
      simp only [List.length_append, List.length_map, List.length_cons]
      omega
    · simpa using ih

/-- An acronym has more letters than it is words. -/
theorem length_lt_spellOut (listed : word ∈ words) (acronym : isAcronym word) :
    words.length < (spellOut words).length := by
  induction words with
  | nil => cases listed
  | cons first rest ih =>
    have others := length_le_spellOut rest
    rw [spellOut]
    split
    · next long =>
      have letters := two_le_of_isAcronym long
      simp only [List.length_append, List.length_map, List.length_cons]
      omega
    · next short =>
      rcases List.mem_cons.1 listed with rfl | later
      · exact absurd acronym short
      · simpa using ih later

namespace CamelName

variable (name : CamelName)

theorem snakeChars_eq : snakeChars (name.start ++ name.words.flatten) = ['_'].intercalate name.spelled := by
  obtain ⟨start, words, low, each, apart⟩ := name
  have marked : markCapitals (splitAcronyms [] words.flatten) = (spellOut words).flatMap ('_' :: ·) :=
    (markCapitals_splitAcronyms (.inl rfl) each (isChain_nil_cons apart)).trans (by simp)
  rw [List.all_eq_true] at low
  rw [snakeChars, splitAcronyms_low low]
  cases start with
  | cons c more =>
    rw [spelled, led, if_neg (by simp), intercalate_cons, ← marked, List.cons_append]
    dsimp only
    rw [markCapitals_append, markCapitals_low (List.forall_mem_cons.1 low).2, List.cons_append]
  | nil =>
    cases words with
    | nil => rfl
    | cons word rest =>
      obtain ⟨initial, letters, rfl, capital⟩ := exists_capital (each _ List.mem_cons_self)
      obtain ⟨tail, split⟩ := splitAcronyms_cons initial [] (letters ++ rest.flatten)
      have whole : splitAcronyms [] ((initial :: letters) :: rest).flatten = initial :: tail := by
        rw [List.flatten_cons, List.cons_append, splitAcronyms, if_pos capital, List.nil_append, split]
      rw [whole, markCapitals, List.flatMap_cons, if_pos capital] at marked
      dsimp only
      rw [List.nil_append, whole, spelled, led, if_pos List.isEmpty_nil]
      cases spelled : spellOut ((initial :: letters) :: rest) with
      | nil => simp [spelled] at marked
      | cons first pieces =>
        rw [spelled, List.flatMap_cons] at marked
        rw [intercalate_cons]
        exact (List.cons.inj marked).2

variable {name} in
/-- Pieces of the words of a name are made of capitals, small letters and digits. -/
theorem letter_of_mem {pieces : List (List Char)} (taken : ∀ piece ∈ pieces, ∀ c ∈ piece, ∃ word ∈ name.words, c ∈ word) :
    ∀ piece ∈ led name.start pieces, ∀ c ∈ piece, isCapital c ∨ isLow c := by
  have ofPiece (piece) (listed : piece ∈ pieces) (c) (inside : c ∈ piece) : isCapital c ∨ isLow c := by
    obtain ⟨word, member, within⟩ := taken piece listed c inside
    exact letter_of_mem_word (name.each word member) c within
  unfold led
  split
  · exact ofPiece
  · exact List.forall_mem_cons.2 ⟨fun c inside => .inr (List.all_eq_true.1 name.low c inside), ofPiece⟩

theorem letter_of_mem_spellOut : ∀ piece ∈ name.spelled, ∀ c ∈ piece, isCapital c ∨ isLow c :=
  letter_of_mem fun _ listed _ inside => mem_of_mem_spellOut listed inside

/-- Snake case spells a name out. -/
theorem snakeCase_text : snakeCase name.text = joined name.spelled := by
  have ascii : ∀ c ∈ snakeChars (name.start ++ name.words.flatten), c.toNat < 128 := by
    rw [name.snakeChars_eq]
    intro c inside
    rcases mem_intercalate inside with rfl | ⟨piece, listed, within⟩
    · decide
    · rcases name.letter_of_mem_spellOut piece listed c within with capital | low
      · have := isCapital_iff.1 capital
        omega
      · have := isLow_iff.1 low
        omega
  rw [snakeCase, text, String.toList_ofList, lowerChars_ascii ascii, name.snakeChars_eq, map_intercalate,
    ← String.toList_inj, toList_joined, String.toList_ofList]
  rfl

/-- The words of a name in lower case, joined by single underscores, are what snake case makes of it if and only if none
of them is an acronym; in any case it joins what the name is spelled out to. -/
theorem parts_of_snakeCase :
    snakeCase name.text = joined name.spelled ∧
      (snakeCase name.text = joined name.allWords ↔ ∀ word ∈ name.words, isAcronym word = false) := by
  refine ⟨name.snakeCase_text, fun same word listed => ?_, fun none => ?_⟩
  · by_contra acronym
    have more := length_lt_spellOut listed (by simpa using acronym)
    have counted := @count_joined name.allWords ?_
      (letter_of_mem fun piece member _ inside => ⟨piece, member, inside⟩)
    · rw [← same, name.snakeCase_text, count_joined ?_ name.letter_of_mem_spellOut] at counted
      · simp only [spelled, allWords, length_led] at counted
        omega
      · exact List.ne_nil_of_length_pos (by rw [spelled, length_led]; omega)
    · exact List.ne_nil_of_length_pos (by rw [allWords, length_led]; have := List.length_pos_of_mem listed; omega)
  · rw [name.snakeCase_text, spelled, spellOut_eq_self none, allWords]

/-- The name of an answer to a request: an acronym and a word. -/
def httpResponse : CamelName where
  start := []
  words := ["HTTP".toList, "Response".toList]
  low := by decide
  each := by decide
  apart := by decide

/-- An acronym in a name comes apart. -/
theorem httpResponse_comes_apart :
    httpResponse.text = "HTTPResponse" ∧ joined httpResponse.allWords = "http_response" ∧
      snakeCase httpResponse.text = "h_t_t_p__response" := by
  decide

end CamelName

end ResourceApi.Text
