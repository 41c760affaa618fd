import ResourceApi.Proofs.Number.Exact
import ResourceApi.Proofs.Session.Taken

/-!
Cells that stand for values. A cell bears a value if it is what its column makes of the value, or if it is read as the same
value. Cells of columns of one type that bear one value stand in one place of the order, whatever the form of the value is.
-/

namespace ResourceApi

open Outcome

namespace Double

theorem value_of_toInt? {d : Double} {n : ℤ} (whole : d.toInt? = some n) : d.value = ((n : ℚ) : WithTop ℚ) := by
  cases d with
  | infinite below => cases whole
  | notANumber => cases whole
  | finite negative m e =>
    have product : (signed negative m : ℚ) * 2 ^ e = n := by
      by_cases above : 0 ≤ e
      · obtain ⟨k, rfl⟩ := Int.eq_ofNat_of_zero_le above
        obtain rfl : signed negative (m * 2 ^ k) = n := by simpa [toInt?] using whole
        cases negative <;> simp [signed]
      · obtain ⟨k, opposite⟩ := Int.eq_ofNat_of_zero_le (show 0 ≤ -e by omega)
        have power : (2 : ℚ) ^ e = (2 ^ k)⁻¹ := by
          rw [show e = -(k : ℤ) by omega, zpow_neg, zpow_natCast]
        by_cases divides : 2 ^ k ∣ m
        · obtain ⟨q, rfl⟩ := divides
          obtain rfl : signed negative q = n := by simpa [toInt?, above, opposite] using whole
          have nonzero : (2 : ℚ) ^ k ≠ 0 := pow_ne_zero k two_ne_zero
          rw [power]
          cases negative <;> simp [signed, mul_comm ((2 : ℚ) ^ k), nonzero]
        · have rest : ¬m % 2 ^ k = 0 := fun none => divides (Nat.dvd_of_mod_eq_zero none)
          simp [toInt?, above, opposite, rest] at whole
    rw [value, product]

private theorem ite_ne {c : Prop} [Decidable c] {d e : Double} (first : d ≠ .notANumber) (second : e ≠ .notANumber) :
    (if c then d else e) ≠ .notANumber := by
  split <;> assumption

theorem ofRatio_ne (negative : Bool) (num den : ℕ) : ofRatio negative num den ≠ .notANumber :=
  ite_ne (by simp) (ite_ne (by simp) (by simp))

theorem ofDecimal_ne (negative : Bool) (digits : ℕ) (exponent : ℤ) : ofDecimal negative digits exponent ≠ .notANumber := by
  have ratio := ofRatio_ne negative
  exact ite_ne (ratio _ _) (ite_ne (ratio _ _) (ite_ne (by simp) (ite_ne (ratio _ _) (ratio _ _))))

end Double

namespace Cell

/-- Whether a cell holds no number but one of the binary64 format or an integer. -/
def IsExact : Cell → Prop
  | .real d => d.Fits
  | _ => True

theorem place_wholeReal (d : Double) : (wholeReal d).place = place (.real d) := by
  unfold wholeReal
  split
  · next n whole =>
    split
    · have known : d ≠ .notANumber := by
        rintro rfl
        cases whole
      rw [place_real known, Double.value_of_toInt? whole]
      rfl
    · rfl
  · rfl

/-- A column of integers keeps a cell as the number that it counts as. -/
theorem place_stored_integer (cell : Cell) : (cell.stored .integer).place = cell.asNumber.place := by
  cases cell with
  | null => rfl
  | int n => rfl
  | real d => exact place_wholeReal d
  | text s =>
    cases found : ofNumberText? s with
    | none => simp [stored, asNumber, found]
    | some number => cases number <;> simp [stored, asNumber, found, place_wholeReal]

theorem stored_numeric (cell : Cell) : cell.stored .numeric = cell.stored .integer := by
  cases cell <;> rfl

theorem stored_text (cell : Cell) : cell.stored .text = cell.asText := by
  cases cell <;> rfl

theorem orderFor_number {affinity : Affinity} {a : Cell} (stored : IsStored affinity a) (numeric : affinity.isNumeric = true)
    (b : Cell) : orderFor affinity a b = order a b.asNumber := by
  rw [orderFor, if_pos numeric, asNumber_of_isStored stored numeric]

theorem orderFor_words {affinity : Affinity} {a : Cell} (stored : IsStored affinity a) (textual : affinity.isNumeric = false)
    (b : Cell) : orderFor affinity a b = order a b.asText := by
  rw [orderFor, if_neg (by simp [textual]), asText_of_isStored stored textual]

theorem eq_null_of_place {cell : Cell} (number : cell ≠ .real .notANumber) (same : cell.place = Cell.null.place) :
    cell = .null := by
  have kinds : cell.place.1 = 0 := by rw [same]; rfl
  cases cell with
  | null => rfl
  | real d =>
    rw [place_real fun none => number (by rw [none])] at kinds
    cases kinds
  | int n => cases kinds
  | text s => cases kinds

private theorem wholeReal_ne {d : Double} (number : d ≠ .notANumber) : wholeReal d ≠ .real .notANumber := by
  unfold wholeReal
  split
  · split <;> simp [number]
  · simp [number]

private theorem ofNumberText?_ne {s : String} {number : Cell} (found : ofNumberText? s = some number) :
    number ≠ .real .notANumber := by
  obtain ⟨numeral, -, made⟩ := Option.map_eq_some_iff.1 found
  have known : numeral.toDouble ≠ .notANumber := Double.ofDecimal_ne _ _ _
  rw [← made]
  dsimp only
  generalize (if numeral.negative = true then -(numeral.digits : ℤ) else numeral.digits) = n
  split <;> simp [known]

private theorem toDouble_ne {s : String} {number : Cell} (found : ofNumberText? s = some number) :
    number.toDouble ≠ .notANumber := by
  have known := ofNumberText?_ne found
  rcases ofNumberText?_cases found with ⟨n, rfl⟩ | ⟨d, rfl⟩
  · exact Double.ofRatio_ne _ _ _
  · exact fun none => known (congrArg real none)

/-- No column makes what is not a number of a cell that is none. -/
theorem stored_ne {cell : Cell} (number : cell ≠ .real .notANumber) (affinity : Affinity) :
    cell.stored affinity ≠ .real .notANumber := by
  cases cell with
  | null => cases affinity <;> simp [stored]
  | int n => cases affinity <;> simp [stored, text?, Double.ofInt, Double.ofRatio_ne]
  | real d =>
    have known : d ≠ .notANumber := fun none => number (by rw [none])
    cases affinity <;> simp [stored, text?, known, wholeReal_ne known]
  | text s =>
    cases found : ofNumberText? s with
    | none => cases affinity <;> simp [stored, found]
    | some number =>
      have real := toDouble_ne found
      rcases ofNumberText?_cases found with ⟨n, rfl⟩ | ⟨d, rfl⟩
      · cases affinity <;> simp [stored, found, real]
      · have whole : wholeReal d ≠ .real .notANumber := wholeReal_ne real
        cases affinity <;> simp [stored, found, real, whole]

end Cell

/-! ## Values and the cells that stand for them -/

/-- What a cell of a column is expected to be: kept by the column, exact, and written as it is read if it is no integer. -/
structure Column.Proper (column : Column) (cell : Cell) : Prop where
  stored : Cell.IsStored column.type.affinity cell
  exact : cell.IsExact
  returns : (∃ n, cell = .int n) ∨ column.Returns cell

/-- Whether a cell of a column stands for a value: it is what the column makes of the value, or it is read as the same value. -/
def Column.Bears (column : Column) (value : Value) (cell : Cell) : Prop :=
  (∃ made, value.cellFor column = .ok made ∧ cell = made.stored column.type.affinity) ∨
    column.Proper cell ∧ ∃ old, Value.ofCell column.type cell = .ok old ∧ value.same old = true

namespace Cell

theorem place_of_ofJson {j : Json} {cell : Cell} (made : Cell.ofJson j = .ok cell) :
    cell.place = j.cell.place ∧ cell ≠ .real .notANumber := by
  cases j with
  | null =>
    cases made
    exact ⟨rfl, by simp⟩
  | bool b =>
    cases made
    exact ⟨rfl, by simp⟩
  | int n =>
    rw [Cell.ofJson] at made
    split at made
    · cases made
      exact ⟨rfl, by simp⟩
    · cases made
  | double d =>
    cases d with
    | notANumber =>
      cases made
      exact ⟨rfl, by simp⟩
    | _ =>
      cases made
      exact ⟨rfl, by simp⟩
  | text s =>
    cases made
    exact ⟨rfl, by simp⟩
  | list items => cases made
  | object members => cases made

theorem eq_text_of_place {cell : Cell} {s : String} (same : cell.place = (Cell.text s).place) : cell = .text s := by
  have kind : cell.place.1 = 2 := by rw [same]; rfl
  cases cell with
  | null => cases kind
  | int n => cases kind
  | real d => cases d <;> cases kind
  | text t =>
    have words : (Cell.text t).place.2.2 = s := by rw [same]; rfl
    exact congrArg text words

end Cell

namespace Value

theorem same_moment {value : Value} {text : String} {zoned : Bool} (same : value.same (.moment text zoned) = true) :
    value = .moment text zoned := by
  cases value with
  | plain j => cases same
  | moment words mark =>
    obtain ⟨rfl, rfl⟩ : words = text ∧ mark = zoned := by simpa [Value.same] using same
    rfl

end Value

namespace Column.Proper

variable {column : Column} {cell made : Cell} {j : Json} (proper : column.Proper cell)
  (place : j.cell.place = cell.place) (written : (Value.plain j).cellFor column = .ok made)
include proper place written

private theorem place_integer (type : column.type = .integer) : (made.stored .integer).place = cell.place := by
  have stored := proper.stored
  have formed : Cell.ofJson j = .ok made := by simpa [Value.cellFor, type, ColumnType.bindType, Bound.formed] using written
  obtain ⟨same, -⟩ := Cell.place_of_ofJson formed
  rw [Cell.place_stored_integer]
  rw [type] at stored
  cases made with
  | text s =>
    obtain rfl := Cell.eq_text_of_place (place.symm.trans same.symm)
    rw [Cell.asNumber_of_isStored stored rfl]
  | _ => exact same.trans place

private theorem place_string (type : column.type = .string) : (made.stored .text).place = cell.place := by
  have stored := proper.stored
  have formed : Cell.ofJson j = .ok made := by simpa [Value.cellFor, type, ColumnType.bindType, Bound.formed] using written
  obtain ⟨same, number⟩ := Cell.place_of_ofJson formed
  rw [Cell.stored_text]
  rw [type] at stored
  cases cell with
  | null =>
    obtain rfl := Cell.eq_null_of_place number (same.trans place)
    rfl
  | text s =>
    obtain rfl := Cell.eq_text_of_place (same.trans place)
    rfl
  | int n => cases stored
  | real d => simp [Cell.IsStored, ColumnType.affinity, Cell.stored, Cell.text?] at stored

/-- What a column of floats makes of an integer is the number itself where that is one of the binary64 format. -/
private theorem place_whole {n : ℤ} (type : column.type = .float) (whole : j.integer? = some n) (is : j.cell = .int n) :
    (made.stored .real).place = cell.place := by
  have exact := proper.exact
  have stored := proper.stored
  rw [is] at place
  obtain ⟨d, rfl⟩ : ∃ d, cell = .real d := by
    have kind : cell.place.1 = 1 := by rw [← place]; rfl
    cases cell with
    | null => cases kind
    | text s => cases kind
    | int m =>
      rw [type] at stored
      cases stored
    | real d => exact ⟨d, rfl⟩
  have number : d ≠ .notANumber := by
    rintro rfl
    cases place
  have value : d.value = ((n : ℚ) : WithTop ℚ) := by
    rw [Cell.place_real number] at place
    exact (congrArg (fun p => p.2.1) place).symm
  have same := Double.value_ofInt exact value
  have known : Double.ofInt n ≠ .notANumber := Double.ofRatio_ne _ _ _
  have formed : made = .real (.ofInt n) := by
    cases j <;> cases whole <;>
      simp only [Value.cellFor, Value.formedFor_plain, type, ColumnType.bindType, Bound.formed, Json.integer?,
        Option.map_some] at written <;>
      cases double : Double.ofInt _ <;> rw [double] at written <;> cases written <;> rfl
  rw [formed, ← place]
  change (Cell.real (.ofInt n)).place = _
  rw [Cell.place_real known, same]
  rfl

private theorem place_float (type : column.type = .float) : (made.stored .real).place = cell.place := by
  cases shape : j with
  | null =>
    subst shape
    simp only [Value.cellFor, Value.formedFor_plain, type, ColumnType.bindType, Bound.formed, ok_bind, Cell.ofJson] at written
    cases written
    exact place
  | bool b => exact proper.place_whole place written type (by rw [shape]; rfl) (by rw [shape]; rfl)
  | int n => exact proper.place_whole place written type (by rw [shape]; rfl) (by rw [shape]; rfl)
  | double d =>
    subst shape
    simp only [Value.cellFor, Value.formedFor_plain, type, ColumnType.bindType, Bound.formed, ok_bind] at written
    have same := (Cell.place_of_ofJson written).1
    cases d <;> cases written <;> exact place
  | text s =>
    subst shape
    obtain rfl := Cell.eq_text_of_place place.symm
    have returned := proper.returns.resolve_left (by simp) (.plain (.text s)) (by rw [type]; rfl)
    simp only [Value.cellFor, Value.formedFor_plain, type, ColumnType.bindType, Bound.formed] at returned
    split at returned
    · next d _ => cases d <;> cases returned
    · cases returned
  | list items =>
    subst shape
    simp only [Value.cellFor, Value.formedFor_plain, type, ColumnType.bindType, Bound.formed] at written
    cases written
  | object members =>
    subst shape
    simp only [Value.cellFor, Value.formedFor_plain, type, ColumnType.bindType, Bound.formed] at written
    cases written

omit proper in
private theorem place_datetime (type : column.type = .datetime) : (made.stored .numeric).place = cell.place := by
  cases j with
  | null =>
    simp only [Value.cellFor, Value.formedFor_plain, type, ColumnType.bindType, Bound.formed, ok_bind, Cell.ofJson] at written
    cases written
    exact place
  | _ =>
    simp only [Value.cellFor, Value.formedFor_plain, type, ColumnType.bindType, Bound.formed] at written
    cases written

/-- A value is written as a cell in the place of a cell that it is equal to. -/
theorem place_of_place : (made.stored column.type.affinity).place = cell.place := by
  cases type : column.type with
  | datetime => exact place_datetime place written type
  | integer => exact proper.place_integer place written type
  | string => exact proper.place_string place written type
  | float => exact proper.place_float place written type

end Column.Proper

/-- A value that is the same as one that was read is written as a cell in the place of the one that was read. -/
theorem Column.Proper.place_of_written {column : Column} {cell made : Cell} {value old : Value} (proper : column.Proper cell)
    (read : Value.ofCell column.type cell = .ok old) (same : value.same old = true) (written : value.cellFor column = .ok made) :
    (made.stored column.type.affinity).place = cell.place := by
  rcases Value.ofCell_eq_ok read with ⟨rfl, -⟩ | ⟨-, s, text, rfl, rfl⟩
  · cases value with
    | moment text zoned => cases cell <;> cases same
    | plain j => exact proper.place_of_place (Json.place_of_same same) written
  · obtain rfl := Value.same_moment same
    obtain rfl : _ = made := Except.ok.inj ((proper.returns.resolve_left (by simp) _ read).symm.trans written)
    rw [proper.stored]

/-- A column of floats is written numbers. -/
private theorem Value.number_of_cellFor {column : Column} {value : Value} {made : Cell} (type : column.type = .float)
    (written : value.cellFor column = .ok made) : made = .null ∨ ∃ d, made = .real d := by
  obtain ⟨formed, shape, made⟩ := bind_eq_ok.1 written
  rw [type] at shape
  have number : formed = .null ∨ ∃ d, formed = .double d := by
    cases value with
    | moment text zoned => cases shape
    | plain j =>
      simp only [Value.formedFor_plain, ColumnType.bindType, Bound.formed] at shape
      split at shape <;> grind
  rcases number with rfl | ⟨d, rfl⟩
  · cases made
    exact .inl rfl
  · cases d <;> cases made <;> simp

/-- The cell that a value is written as compares with the cells of its column as what the column makes of it does. -/
theorem Value.countsAs_stored {column : Column} {value : Value} {made : Cell} (written : value.cellFor column = .ok made) :
    made.CountsAs column.type.affinity (made.stored column.type.affinity) := by
  intro other stored
  cases type : column.type with
  | string =>
    rw [type] at stored
    rw [Cell.orderFor_words stored rfl, ColumnType.affinity, Cell.stored_text]
  | integer =>
    rw [type] at stored
    rw [Cell.orderFor_number stored rfl, Cell.order_eq_cmp, Cell.order_eq_cmp, ColumnType.affinity,
      Cell.place_stored_integer]
  | datetime =>
    rw [type] at stored
    rw [Cell.orderFor_number stored rfl, Cell.order_eq_cmp, Cell.order_eq_cmp, ColumnType.affinity, Cell.stored_numeric,
      Cell.place_stored_integer]
  | float =>
    rw [type] at stored
    rw [Cell.orderFor_number stored rfl]
    rcases number_of_cellFor type written with rfl | ⟨d, rfl⟩ <;> rfl

/-- A value that is the same as one that was read compares with the cells of its column as the one that was read does. -/
theorem Column.Proper.countsAs {column : Column} {cell made : Cell} {value old : Value} (proper : column.Proper cell)
    (read : Value.ofCell column.type cell = .ok old) (same : value.same old = true) (written : value.cellFor column = .ok made) :
    made.CountsAs column.type.affinity cell := by
  intro other stored
  rw [Value.countsAs_stored written other stored, Cell.order_eq_cmp, proper.place_of_written read same written,
    ← Cell.order_eq_cmp]

namespace Column.Bears

variable {first second : Column} {value : Value} {a b : Cell}

theorem written {column : Column} {made : Cell} (written : value.cellFor column = .ok made) :
    column.Bears value (made.stored column.type.affinity) := .inl ⟨made, written, rfl⟩

theorem read {column : Column} {cell : Cell} (proper : column.Proper cell) (read : Value.ofCell column.type cell = .ok value) :
    column.Bears value cell := by
  refine .inr ⟨proper, value, read, ?_⟩
  rcases proper.returns with ⟨n, rfl⟩ | returns
  · cases type : column.type <;> rw [type] at read <;> cases read <;> simp [Value.same, Json.same, Json.sameScalar, Json.integer?]
  · exact returns.same_self read

theorem isStored (bears : first.Bears value a) : Cell.IsStored first.type.affinity a := by
  rcases bears with ⟨made, -, rfl⟩ | ⟨proper, -⟩
  · exact Cell.stored_isStored _ _
  · exact proper.stored

theorem isNumber (bears : first.Bears value a) : a ≠ .real .notANumber := by
  rcases bears with ⟨made, written, rfl⟩ | ⟨proper, old, read, -⟩
  · obtain ⟨formed, -, made⟩ := bind_eq_ok.1 written
    exact Cell.stored_ne (Cell.place_of_ofJson made).2 _
  · rintro rfl
    refine (proper.returns.resolve_left (by simp)).isNumber (fun type => ?_) rfl
    rw [type] at read
    cases read

/-- What is no value to the storage is borne by null alone. -/
theorem eq_null {column : Column} {j : Json} {cell : Cell} (bears : column.Bears (.plain j) cell)
    (none : j = .null ∨ j = .double .notANumber) : cell = .null := by
  rcases bears with ⟨made, written, rfl⟩ | ⟨-, old, read, same⟩
  · have null : made = .null := by
      cases type : column.type <;> rcases none with rfl | rfl <;>
        simp only [Value.cellFor, Value.formedFor_plain, type, ColumnType.bindType, Bound.formed] at written <;>
        cases written <;> rfl
    rw [null]
    cases column.type.affinity <;> rfl
  · rcases Value.ofCell_eq_ok read with ⟨rfl, -⟩ | ⟨-, s, text, -, rfl⟩
    · rcases none with rfl | rfl
      · cases cell <;> first | rfl | cases same
      · cases cell with
        | null => rfl
        | real d => cases d <;> cases same
        | int n => cases same
        | text s => cases same
    · cases same

/-- The cell that a value is written as stands where the cell stands that bears it. -/
theorem place_of_written (bears : first.Bears value a) {made : Cell} (written : value.cellFor first = .ok made) :
    (made.stored first.type.affinity).place = a.place := by
  rcases bears with ⟨other, is, rfl⟩ | ⟨proper, old, read, same⟩
  · cases is.symm.trans written
    rfl
  · exact proper.place_of_written read same written

/-- Cells of columns of one type that bear one value stand in one place. -/
theorem place_eq (one : first.Bears value a) (two : second.Bears value b) (type : first.type = second.type) :
    a.place = b.place := by
  rcases one with ⟨made, written, rfl⟩ | ⟨proper, old, read, same⟩
  · rw [Value.cellFor_congr type] at written
    rw [type]
    exact two.place_of_written written
  rcases two with ⟨made, written, rfl⟩ | ⟨properToo, other, readToo, sameToo⟩
  · rw [← Value.cellFor_congr type] at written
    rw [← type]
    exact (proper.place_of_written read same written).symm
  rcases Value.ofCell_eq_ok read with ⟨rfl, -⟩ | ⟨-, s, text, rfl, rfl⟩
  · rcases Value.ofCell_eq_ok readToo with ⟨rfl, -⟩ | ⟨-, t, words, rfl, rfl⟩
    · cases value with
      | plain j => exact (Json.place_of_same same).symm.trans (Json.place_of_same sameToo)
      | moment text zoned => cases a <;> cases same
    · obtain rfl := Value.same_moment sameToo
      cases a <;> cases same
  · obtain rfl := Value.same_moment same
    rcases Value.ofCell_eq_ok readToo with ⟨rfl, -⟩ | ⟨-, t, words, rfl, rfl⟩
    · cases b <;> cases sameToo
    · cases Value.same_moment sameToo
      have one := proper.returns.resolve_left (by simp) _ read
      rw [Value.cellFor_congr type] at one
      rw [Except.ok.inj (one.symm.trans (properToo.returns.resolve_left (by simp) _ readToo))]

theorem ne_null (one : first.Bears value a) (two : second.Bears value b) (type : first.type = second.type)
    (known : b ≠ .null) : a ≠ .null := by
  rintro rfl
  exact known (Cell.eq_null_of_place two.isNumber (two.place_eq one type.symm))

end Column.Bears

/-- Columns agree if they are of one type and bear one value, and it is not null. -/
theorem Table.agrees_of_bears {table other : Table} {row record : Row} {column key : String} {first second : Column} {value : Value}
    (found : table.column? column = some first) (foundToo : other.column? key = some second)
    (type : first.type = second.type) (one : first.Bears value (row.cell column)) (two : second.Bears value (record.cell key))
    (known : record.cell key ≠ .null) : table.agrees row column other record key = true := by
  have stored := one.isStored
  have storedToo := two.isStored
  rw [← type] at storedToo
  rw [Table.agrees, Table.type_ref found, Table.type_ref foundToo, ← type, Cell.orderBetween_of_isStored stored storedToo,
    Cell.order_eq_iff.2 (one.place_eq two type)]
  simp [known, one.ne_null two type known]

/-- A column of texts holds a value that it bears. -/
theorem Table.holds_of_bears {table : Table} {row : Row} {name : String} {column : Column} {j : Json}
    (found : table.column? name = some column) (type : column.type = .string) (known : j ≠ .null)
    (number : j ≠ .double .notANumber) (bears : column.Bears (.plain j) (row.cell name)) :
    table.holds row name j = true := by
  obtain ⟨made, written⟩ : ∃ made, (Value.plain j).cellFor column = .ok made := by
    rcases bears with ⟨made, written, -⟩ | ⟨proper, old, read, same⟩
    · exact ⟨made, written⟩
    · have stored := proper.stored
      rw [type] at stored read
      cases cell : row.cell name with
      | null =>
        rw [cell] at read
        cases read
        cases j <;> first | exact absurd rfl known | cases same
      | text s =>
        rw [cell] at read
        cases read
        cases j with
        | text t => exact ⟨.text t, by simp [Value.cellFor, type, ColumnType.bindType, Bound.formed, Cell.ofJson]⟩
        | _ => cases same
      | int n =>
        rw [cell] at stored
        cases stored
      | real d =>
        rw [cell] at stored
        simp [Cell.IsStored, ColumnType.affinity, Cell.stored, Cell.text?] at stored
  have formed : Cell.ofJson j = .ok made := by
    simpa [Value.cellFor, type, ColumnType.bindType, Bound.formed] using written
  obtain ⟨bound, some⟩ : Bound.cell ⟨BindType.compared column.type j, j⟩ = made ∧ made ≠ .null := by
    rw [type]
    cases j with
    | null => exact absurd rfl known
    | bool b => cases b <;> cases formed <;> exact ⟨rfl, by simp⟩
    | int n =>
      refine ⟨by simp [Bound.cell, Bound.cell?, BindType.compared, Bound.formed, formed], ?_⟩
      rintro rfl
      simp only [Cell.ofJson] at formed
      split at formed <;> cases formed
    | double d =>
      cases d with
      | notANumber => exact absurd rfl number
      | _ => cases formed; exact ⟨rfl, by simp⟩
    | text s => cases formed; exact ⟨rfl, by simp⟩
    | list items => cases formed
    | object members => cases formed
  have place := bears.place_of_written written
  have counts := Value.countsAs_stored written _ bears.isStored
  have there : row.cell name ≠ .null := by
    intro nothing
    rw [nothing, type] at place
    cases made with
    | null => exact some rfl
    | _ =>
      have kind : (2 : ℕ) = 0 := congrArg (·.1) place
      cases kind
  rw [Table.holds_compare known, Table.type_ref found, bound, Query.holds_compare, counts, Cell.order_eq_iff.2 place.symm]
  simp [there, some]

end ResourceApi
