import ResourceApi.Proofs.Outcome
import ResourceApi.Proofs.Storage.Order
import ResourceApi.Proofs.Storage.Tables
import ResourceApi.Query.Evaluation
import ResourceApi.Session.Record

/-!
Values on their way to the storage and back. A column keeps some cells as they are, and most cells are read as values
that are written as the same cell again; on such cells a comparison with a value is the order of cells.
-/

namespace ResourceApi

open Outcome

namespace Cell

/-! ## Cells that a column keeps -/

/-- Whether a column of an affinity keeps the cell as it is. -/
def IsStored (affinity : Affinity) (cell : Cell) : Prop := cell.stored affinity = cell

private theorem wholeReal_cases (d : Double) : (∃ n, wholeReal d = .int n) ∨ wholeReal d = .real d := by
  unfold wholeReal
  split
  · split
    · exact .inl ⟨_, rfl⟩
    · exact .inr rfl
  · exact .inr rfl

theorem ofNumberText?_cases {s : String} {number : Cell} (found : ofNumberText? s = some number) :
    (∃ n, number = .int n) ∨ ∃ d, number = .real d := by
  obtain ⟨numeral, -, made⟩ := Option.map_eq_some_iff.1 found
  rw [← made]
  by_cases whole : (numeral.isWhole && Word.holds (if numeral.negative then -(numeral.digits : Int) else numeral.digits)) = true
  · exact .inl ⟨_, if_pos whole⟩
  · exact .inr ⟨_, if_neg whole⟩

/-- What a column makes of a value it keeps as it is. -/
theorem stored_isStored (affinity : Affinity) (cell : Cell) : IsStored affinity (cell.stored affinity) := by
  unfold IsStored
  have whole (d : Double) (numeric : affinity = .integer ∨ affinity = .numeric) :
      (wholeReal d).stored affinity = wholeReal d := by
    rcases wholeReal_cases d with ⟨n, is⟩ | is <;> rw [is] <;> rcases numeric with rfl | rfl <;>
      first | rfl | exact is
  have text (s : String) (numeric : affinity = .integer ∨ affinity = .numeric) :
      ((Cell.text s).stored affinity).stored affinity = (Cell.text s).stored affinity := by
    cases found : ofNumberText? s with
    | none => rcases numeric with rfl | rfl <;> simp [stored, found]
    | some number =>
      rcases ofNumberText?_cases found with ⟨n, rfl⟩ | ⟨d, rfl⟩
      · rcases numeric with rfl | rfl <;> simp [stored, found]
      · have made : (Cell.text s).stored affinity = wholeReal d := by
          rcases numeric with rfl | rfl <;> simp [stored, found]
        rw [made, whole d numeric]
  cases affinity with
  | text => cases cell <;> rfl
  | real =>
    cases cell with
    | text s =>
      cases found : ofNumberText? s with
      | none => simp [stored, found]
      | some number => simp [stored, found]
    | _ => rfl
  | integer =>
    cases cell with
    | text s => exact text s (.inl rfl)
    | real d => exact whole d (.inl rfl)
    | _ => rfl
  | numeric =>
    cases cell with
    | text s => exact text s (.inr rfl)
    | real d => exact whole d (.inr rfl)
    | _ => rfl

variable {affinity : Affinity} {a b : Cell}

theorem asNumber_of_isStored (kept : IsStored affinity a) (numeric : affinity.isNumeric = true) : a.asNumber = a := by
  cases a with
  | text s =>
    unfold IsStored at kept
    cases found : ofNumberText? s with
    | none => simp [asNumber, found]
    | some number =>
      exfalso
      rcases ofNumberText?_cases found with ⟨n, rfl⟩ | ⟨d, rfl⟩
      · cases affinity <;> simp [stored, found, Affinity.isNumeric] at kept numeric
      · rcases wholeReal_cases d with ⟨n, is⟩ | is <;>
          cases affinity <;> simp [stored, found, is, Affinity.isNumeric] at kept numeric
  | _ => rfl

theorem asText_of_isStored (kept : IsStored affinity a) (textual : affinity.isNumeric = false) : a.asText = a := by
  cases affinity with
  | text =>
    unfold IsStored at kept
    cases a with
    | int n => cases kept
    | real d => simp [stored, text?] at kept
    | _ => rfl
  | _ => cases textual

/-- Cells that a column keeps are compared by it as they stand. -/
theorem orderFor_of_isStored (first : IsStored affinity a) (second : IsStored affinity b) :
    orderFor affinity a b = order a b := by
  unfold orderFor
  cases numeric : affinity.isNumeric with
  | true => rw [if_pos rfl, asNumber_of_isStored first numeric, asNumber_of_isStored second numeric]
  | false => rw [if_neg (by simp), asText_of_isStored first numeric, asText_of_isStored second numeric]

theorem orderBetween_of_isStored (first : IsStored affinity a) (second : IsStored affinity b) :
    orderBetween affinity affinity a b = order a b := by
  unfold orderBetween
  cases numeric : affinity.isNumeric with
  | true => rw [Bool.or_self, if_pos rfl, asNumber_of_isStored first numeric, asNumber_of_isStored second numeric]
  | false => rw [Bool.or_self, if_neg (by simp)]

/-- Whether a cell from elsewhere compares with the cells of a column as one of them does. -/
def CountsAs (affinity : Affinity) (made cell : Cell) : Prop :=
  ∀ other, IsStored affinity other → orderFor affinity other made = order other cell

theorem CountsAs.of_isStored (kept : IsStored affinity a) : a.CountsAs affinity a :=
  fun _ stored => orderFor_of_isStored stored kept

end Cell

/-! ## Texts of moments -/

/-- Digits with a line behind them are no number. -/
private theorem Numeral.ofText?_of_line {s : String} {first : Char} {digits rest : List Char}
    (text : s.toList = first :: (digits ++ '-' :: rest)) (digit : ∀ c ∈ first :: digits, c.isDigit = true) :
    ofText? s = none := by
  have is := digit first List.mem_cons_self
  have notSpace : isSpace first = false := by
    rw [Char.isDigit_iff_toNat] at is
    have tab : ¬first.toNat ≤ '\r'.toNat := fun small => absurd (is.1.trans small) (by decide)
    have blank : first ≠ ' ' := by
      rintro rfl
      exact absurd is.1 (by decide)
    simp only [isSpace, blank, decide_false, Bool.false_or, Bool.and_eq_false_iff, decide_eq_false_iff_not]
    exact .inr tab
  have whole : Text.spanDigits (first :: (digits ++ '-' :: rest)) = (first :: digits, '-' :: rest) := by
    rw [← List.cons_append, Text.spanDigits, List.takeWhile_append_of_pos digit, List.dropWhile_append_of_pos digit]
    simp [show '-'.isDigit = false by decide]
  have start : ∃ numeral, atStart? s.toList = some (numeral, '-' :: rest) := by
    unfold atStart?
    rw [text, List.dropWhile_cons_of_neg (by simp [notSpace])]
    dsimp only
    split
    · next same =>
      obtain ⟨rfl, -⟩ := List.cons.inj same
      exact absurd is (by decide)
    · next same =>
      obtain ⟨rfl, -⟩ := List.cons.inj same
      exact absurd is (by decide)
    · dsimp only
      rw [whole]
      exact ⟨_, rfl⟩
  obtain ⟨numeral, start⟩ := start
  rw [ofText?, start]
  simp [isSpace]

/-- A text that stands for a moment is no number. -/
theorem Moment.ofNumberText?_eq_none {s moment : String} (read : ofText? s = some moment) : Cell.ofNumberText? s = none := by
  obtain ⟨⟨date, rest⟩, dated, -⟩ := Option.bind_eq_some_iff.1 read
  obtain ⟨⟨year, behind⟩, digits, dated⟩ := Option.bind_eq_some_iff.1 dated
  obtain ⟨later, line, -⟩ := Option.bind_eq_some_iff.1 dated
  unfold digits? at digits
  dsimp only at digits
  split at digits
  · next front =>
    obtain ⟨four, all⟩ := Bool.and_eq_true_iff.1 front
    obtain ⟨-, rfl⟩ := Prod.mk.inj (Option.some.inj digits)
    have behind : s.toList.drop 4 = '-' :: later := by
      unfold expect? at line
      split at line
      · next held =>
        split at line
        · next is => rw [← Option.some.inj line, is, held]
        · cases line
      · cases line
    obtain ⟨first, others, begins⟩ := List.exists_cons_of_length_pos (l := s.toList.take 4) (by simp_all)
    have text : s.toList = first :: (others ++ '-' :: later) := by
      rw [← List.take_append_drop 4 s.toList, begins, behind]
      rfl
    rw [Cell.ofNumberText?, Numeral.ofText?_of_line text (begins ▸ List.all_eq_true.1 all)]
    rfl
  · cases digits

theorem Query.holds_compare (affinity : Affinity) (a b : Cell) :
    Truth.holds (Query.compare .equal affinity a b) = (a != .null && b != .null && Cell.orderFor affinity a b == .eq) := by
  unfold Query.compare
  by_cases first : a = .null
  · simp [first, Truth.holds]
  · by_cases second : b = .null
    · simp [second, Truth.holds]
    · cases same : Cell.orderFor affinity a b == .eq <;> simp [first, second, same, answers, Truth.holds]

/-! ## Numbers and texts as cells -/

/-- The cell of a value that is no collection. -/
def Json.cell : Json → Cell
  | .null | .list _ | .object _ => .null
  | .bool b => .int (if b then 1 else 0)
  | .int n => .int n
  | .double d => .real d
  | .text s => .text s

@[simp]
theorem Cell.json_cell (cell : Cell) : cell.json.cell = cell := by
  cases cell <;> rfl

/-- A value that is the same as that of a cell stands in the place of the cell. -/
theorem Json.place_of_same {j : Json} {cell : Cell} (same : j.same cell.json = true) : j.cell.place = cell.place := by
  have whole {n : Int} {d : Double} (met : d.compareInt? n = some .eq) : Cell.order (.int n) (.real d) = .eq := by
    simp [Cell.order, met]
  rw [← Cell.order_eq_iff]
  cases j with
  | null => cases cell <;> first | rfl | cases same
  | bool b =>
    cases cell with
    | int n =>
      have is : (if b then 1 else 0) = n := by simpa [Cell.json, Json.same, Json.sameScalar, Json.integer?] using same
      simp [Json.cell, is, Cell.order_self]
    | real d => exact whole (by simpa [Cell.json, Json.same, Json.sameScalar, Json.integer?] using same)
    | _ => cases same
  | int m =>
    cases cell with
    | int n =>
      obtain rfl : m = n := by simpa [Cell.json, Json.same, Json.sameScalar, Json.integer?] using same
      exact Cell.order_self _
    | real d => exact whole (by simpa [Cell.json, Json.same, Json.sameScalar, Json.integer?] using same)
    | _ => cases same
  | double d =>
    cases cell with
    | int n =>
      have met : d.compareInt? n = some .eq := by
        simpa [Cell.json, Json.same, Json.sameScalar, Json.integer?] using same
      simp [Json.cell, Cell.order, met]
    | real e =>
      have met : d.compare? e = some .eq := by
        simpa [Cell.json, Json.same, Json.sameScalar, Double.sameValue] using same
      simp [Json.cell, Cell.order, met]
    | _ => cases same
  | text s =>
    cases cell with
    | text t =>
      obtain rfl : s = t := by simpa [Cell.json, Json.same, Json.sameScalar] using same
      exact Cell.order_self _
    | _ => cases same
  | list items => cases cell <;> cases same
  | object members => cases cell <;> cases same

/-! ## Values for columns -/

namespace Value

@[simp]
theorem formedFor_plain (type : ColumnType) (j : Json) : (plain j).formedFor type = Bound.formed ⟨type.bindType, j⟩ := rfl

/-- The cell that a value of a column is handed to the storage as. -/
def cellFor (column : Column) (value : Value) : Except Failure Cell := do Cell.ofJson (← value.formedFor column.type)

theorem cellFor_moment {column : Column} (date : column.type = .datetime) (text : String) (zoned : Bool) :
    (moment text zoned).cellFor column = .ok (.text (storedMoment text)) := by
  rw [cellFor, date]
  rfl

/-- The cells of values are those of the values one by one, each under the name of its column. -/
theorem cells_eq_ok {values : List (Column × Value)} {cells : List (String × Cell)} :
    Value.cells values = .ok cells ↔
      List.Forall₂ (fun entry cell => cell.1 = entry.1.name ∧ entry.2.cellFor entry.1 = .ok cell.2) values cells := by
  unfold Value.cells
  simp only [bind_eq_ok, mapM_eq_ok, pure_eq_ok]
  induction values generalizing cells with
  | nil => simp [List.forall₂_nil_left_iff]
  | cons entry rest ih =>
    obtain ⟨column, value⟩ := entry
    simp only [List.forall₂_cons_left_iff]
    constructor
    · rintro ⟨_, ⟨formed, others, here, later, rfl⟩, taken⟩
      obtain ⟨cell, more, ⟨given, made, rfl⟩, after, rfl⟩ := List.forall₂_cons_left_iff.1 taken
      obtain ⟨json, is, rfl⟩ := here
      exact ⟨(column.name, given), more, ⟨rfl, bind_eq_ok.2 ⟨json, is, made⟩⟩, ih.1 ⟨others, later, after⟩, rfl⟩
    · rintro ⟨⟨name, given⟩, more, ⟨rfl, made⟩, after, rfl⟩
      obtain ⟨others, later, taken⟩ := ih.2 after
      obtain ⟨json, is, cell⟩ := bind_eq_ok.1 made
      exact ⟨_, ⟨(column.name, json), others, ⟨json, is, rfl⟩, later, rfl⟩, .cons ⟨given, cell, rfl⟩ taken⟩

/-- The cells of some values and of further ones, taken apart again. -/
theorem cells_append {values further : List (Column × Value)} {cells : List (String × Cell)}
    (made : Value.cells (values ++ further) = .ok cells) :
    Value.cells values = .ok (cells.take values.length) ∧ Value.cells further = .ok (cells.drop values.length) := by
  have pointwise := cells_eq_ok.1 made
  have first := List.forall₂_take values.length pointwise
  have second := List.forall₂_drop values.length pointwise
  rw [List.take_left] at first
  rw [List.drop_left] at second
  exact ⟨cells_eq_ok.2 first, cells_eq_ok.2 second⟩

/-- The cell under the name of a column is that of its value, provided that no two columns have one name. -/
theorem lookup_cells {values : List (Column × Value)} {cells : List (String × Cell)}
    (made : Value.cells values = .ok cells) (nodup : (values.map (·.1.name)).Nodup) {column : Column} {value : Value}
    (listed : (column, value) ∈ values) : ∃ cell, value.cellFor column = .ok cell ∧ cells.lookup column.name = some cell := by
  have pointwise := cells_eq_ok.1 made
  clear made
  induction pointwise with
  | nil => cases listed
  | @cons entry cell rest cells here later ih =>
    obtain ⟨fresh, others⟩ := List.nodup_cons.1 nodup
    obtain ⟨name, given⟩ := cell
    obtain ⟨rfl, made⟩ := here
    rcases List.mem_cons.1 listed with rfl | further
    · exact ⟨given, made, by simp⟩
    · obtain ⟨other, is, found⟩ := ih others further
      refine ⟨other, is, ?_⟩
      have unlike : (column.name == entry.1.name) = false := by
        rw [beq_eq_false_iff_ne]
        intro same
        exact fresh (List.mem_map.2 ⟨_, further, same⟩)
      rw [List.lookup_cons, unlike]
      exact found

theorem lookup_cells_none {values : List (Column × Value)} {cells : List (String × Cell)}
    (made : Value.cells values = .ok cells) {name : String} (absent : name ∉ values.map (·.1.name)) :
    cells.lookup name = none := by
  have pointwise := cells_eq_ok.1 made
  clear made
  induction pointwise with
  | nil => rfl
  | @cons entry cell rest cells here later ih =>
    rw [List.map_cons, List.mem_cons, not_or] at absent
    have unlike : (name == cell.1) = false := by
      rw [beq_eq_false_iff_ne, here.1]
      exact absent.1
    rw [List.lookup_cons, unlike]
    exact ih absent.2

end Value

/-- Whether a column writes what it reads of a cell as the same cell again. -/
def Column.Returns (column : Column) (cell : Cell) : Prop :=
  ∀ value, Value.ofCell column.type cell = .ok value → value.cellFor column = .ok cell

namespace Value

variable {type : ColumnType} {cell : Cell} {value : Value}

/-- What a column reads of a cell: the moment of a text, or the number, the text or the null itself. -/
theorem ofCell_eq_ok (read : Value.ofCell type cell = .ok value) :
    (value = .plain cell.json ∧ (type = .datetime → cell = .null)) ∨
      (type = .datetime ∧ ∃ s text, cell = .text s ∧ value = .moment text false) := by
  obtain ⟨shown, is, made⟩ := bind_eq_ok.1 read
  cases type with
  | datetime =>
    cases cell with
    | null =>
      cases is
      cases made
      exact .inl ⟨rfl, fun _ => rfl⟩
    | text s =>
      rw [Cell.shown] at is
      split at is
      · cases is
        cases made
        exact .inr ⟨rfl, s, _, rfl, rfl⟩
      · cases is
    | int n => cases is
    | real d => cases is
  | _ =>
    left
    cases cell <;> cases is <;> cases made <;> exact ⟨rfl, fun same => by cases same⟩

end Value

namespace Column.Returns

variable {column : Column} {cell other : Cell} {value second : Value}

/-- What is not a number is written as null. -/
theorem isNumber {d : Double} (returns : column.Returns (.real d)) (other : column.type ≠ .datetime) :
    d ≠ .notANumber := by
  rintro rfl
  have read : Value.ofCell column.type (.real .notANumber) = .ok (.plain (.double .notANumber)) := by
    cases type : column.type with
    | datetime => exact absurd type other
    | _ => rfl
  have written := returns _ read
  have null : Value.cellFor column (.plain (.double .notANumber)) = .ok .null := by
    cases type : column.type with
    | datetime => exact absurd type other
    | _ => simp [Value.cellFor, type, ColumnType.bindType, Bound.formed, Cell.ofJson]
  rw [null] at written
  cases written

theorem null (column : Column) : column.Returns .null := by
  intro value read
  rcases Value.ofCell_eq_ok read with ⟨rfl, -⟩ | ⟨-, s, text, none, -⟩
  · cases type : column.type <;> simp [Value.cellFor, Cell.json, type, ColumnType.bindType, Bound.formed, Cell.ofJson]
  · cases none

theorem text (type : column.type = .string) (s : String) : column.Returns (.text s) := by
  intro value read
  rw [type] at read
  cases read
  simp [Value.cellFor, type, ColumnType.bindType, Bound.formed, Cell.ofJson]

theorem textual (type : column.type = .string) (held : cell = .null ∨ ∃ s, cell = .text s) : column.Returns cell := by
  rcases held with rfl | ⟨s, rfl⟩
  · exact null column
  · exact text type s

/-- A value that was read is the same as itself. -/
theorem same_self (returns : column.Returns cell) (read : Value.ofCell column.type cell = .ok value) :
    value.same value = true := by
  rcases Value.ofCell_eq_ok read with ⟨rfl, plain⟩ | ⟨-, s, text, -, rfl⟩
  · cases cell with
    | real d =>
      have number := returns.isNumber fun type => by cases plain type
      simp [Value.same, Cell.json, Json.same, Json.sameScalar, Double.sameValue_self number]
    | _ => simp [Value.same, Cell.json, Json.same, Json.sameScalar, Json.integer?]
  · simp [Value.same]

/-- Cells that are read as one value stand in one place of the order. -/
theorem order_of_same (first : column.Returns cell) (third : column.Returns other)
    (read : Value.ofCell column.type cell = .ok value) (readToo : Value.ofCell column.type other = .ok second)
    (same : value.same second = true) : Cell.order cell other = .eq := by
  rcases Value.ofCell_eq_ok read with ⟨rfl, -⟩ | ⟨-, s, text, rfl, rfl⟩
  · rcases Value.ofCell_eq_ok readToo with ⟨rfl, -⟩ | ⟨-, t, words, rfl, rfl⟩
    · have one := Json.place_of_same same
      rw [Cell.json_cell] at one
      exact Cell.order_eq_iff.2 one
    · cases cell <;> cases same
  · rcases Value.ofCell_eq_ok readToo with ⟨rfl, -⟩ | ⟨-, t, words, rfl, rfl⟩
    · cases other <;> cases same
    · obtain rfl : text = words := by simpa [Value.same] using same
      have one := (first _ read).symm.trans (third _ readToo)
      rw [Except.ok.inj one]
      exact Cell.order_self _

/-- A value that was read is compared with a column as the cell it was read of. -/
theorem cell_compared (returns : column.Returns cell) (kept : Cell.IsStored column.type.affinity cell)
    (read : Value.ofCell column.type cell = .ok value) (type : ColumnType) :
    Bound.cell ⟨BindType.compared type value.compared, value.compared⟩ = cell := by
  have written := returns _ read
  rcases Value.ofCell_eq_ok read with ⟨rfl, plain⟩ | ⟨date, s, text, rfl, rfl⟩
  · cases cell with
    | null => cases type <;> rfl
    | text s => rfl
    | real d =>
      have number := returns.isNumber fun type => by cases plain type
      cases d <;> first | rfl | exact absurd rfl number
    | int n =>
      have word : Cell.ofJson (.int n) = .ok (.int n) := by
        cases same : column.type with
        | datetime => cases plain same
        | float =>
          rw [same] at kept
          cases kept
        | _ => simpa [Value.cellFor, Cell.json, same, ColumnType.bindType, Bound.formed] using written
      simp [Bound.cell, Bound.cell?, Value.compared, Cell.json, BindType.compared, Bound.formed, word]
  · rw [Value.cellFor_moment date] at written
    exact Except.ok.inj written

end Column.Returns

/-! ## Keys -/

/-- Whether a cell is a value of a type. -/
def ColumnType.Holds : ColumnType → Cell → Prop
  | .integer, .int _ | .string, .text _ | .datetime, .text _ | .float, .real _ => True
  | _, _ => False

theorem ColumnType.ne_null_of_holds {type : ColumnType} {cell : Cell} (holds : type.Holds cell) : cell ≠ .null := by
  rintro rfl
  cases type <;> cases holds

/-- Whether a value is that of a cell by which rows of two tables can be matched: a value of the type of the columns, which
is written as it is read. -/
structure Value.IsKey (type : ColumnType) (value : Value) (cell : Cell) : Prop where
  read : Value.ofCell type cell = .ok value
  holds : type.Holds cell
  stored : Cell.IsStored type.affinity cell
  returns : ∀ column : Column, column.type = type → column.Returns cell

namespace Value.IsKey

variable {type : ColumnType} {value other : Value} {cell second : Cell} (key : value.IsKey type cell)
include key

theorem ne_null : cell ≠ .null := ColumnType.ne_null_of_holds key.holds

theorem cellFor_eq {column : Column} (same : column.type = type) : value.cellFor column = .ok cell :=
  key.returns column same value (same ▸ key.read)

/-- Keys are the same value if their cells stand in one place of the order. -/
theorem same_iff (also : other.IsKey type second) : value.same other = true ↔ Cell.order cell second = .eq := by
  constructor
  · exact (key.returns ⟨"", type, false, true, .null⟩ rfl).order_of_same (also.returns ⟨"", type, false, true, .null⟩ rfl)
      key.read also.read
  · intro met
    have holds := key.holds
    have holdsToo := also.holds
    have read := key.read
    have readToo := also.read
    cases type with
    | integer =>
      cases cell <;> cases holds
      cases second <;> cases holdsToo
      cases read
      cases readToo
      simpa [Cell.order, Value.same, Json.same, Json.sameScalar, Json.integer?] using met
    | string =>
      cases cell <;> cases holds
      cases second <;> cases holdsToo
      cases read
      cases readToo
      simpa [Cell.order, Value.same, Json.same, Json.sameScalar] using met
    | float =>
      cases cell <;> cases holds
      cases second <;> cases holdsToo
      cases read
      cases readToo
      have number := (key.returns ⟨"", .float, false, true, .null⟩ rfl).isNumber (fun same => by cases same)
      have numberToo := (also.returns ⟨"", .float, false, true, .null⟩ rfl).isNumber (fun same => by cases same)
      simpa [Value.same, Json.same, Json.sameScalar] using (Cell.order_real number numberToo).1 met
    | datetime =>
      cases cell <;> cases holds
      cases second <;> cases holdsToo
      obtain rfl : _ = _ := by simpa [Cell.order] using met
      cases Except.ok.inj (read.symm.trans readToo)
      exact (key.returns ⟨"", .datetime, false, true, .null⟩ rfl).same_self read

/-- In a list that begins with a key of the type, a key is compared as its cell. -/
theorem cell_among (also : other.IsKey type second) :
    Bound.cell ⟨BindType.compared type other.compared, value.compared⟩ = cell := by
  have alone := (key.returns ⟨"", type, false, true, .null⟩ rfl).cell_compared key.stored key.read type
  have kind : BindType.compared type other.compared = BindType.compared type value.compared := by
    have holds := key.holds
    have holdsToo := also.holds
    have read := key.read
    have readToo := also.read
    rcases ofCell_eq_ok read with ⟨rfl, -⟩ | ⟨rfl, s, text, rfl, rfl⟩
    · rcases ofCell_eq_ok readToo with ⟨rfl, -⟩ | ⟨rfl, t, words, rfl, rfl⟩
      · cases type <;> cases cell <;> cases holds <;> cases second <;> cases holdsToo <;> rfl
      · cases cell <;> cases holds
        rfl
    · rcases ofCell_eq_ok readToo with ⟨rfl, -⟩ | ⟨-, t, words, rfl, rfl⟩
      · cases second <;> cases holdsToo
        rfl
      · rfl
  rw [kind]
  exact alone

end Value.IsKey

end ResourceApi
