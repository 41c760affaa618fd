import ResourceApi.Proofs.Session.Standing

/-!
Keys that were looked for, and the cells that hold them. Cells that stand in one place of the order hold the same values, so
that a row that takes the key it was found by is found by it again, and by no other key.
-/

namespace ResourceApi

open Outcome

/-! ## Cells in one place -/

theorem Value.isNull_plain {j : Json} (known : j ≠ .null) : (Value.plain j).isNull = false := by
  cases j <;> first | rfl | exact absurd rfl known

namespace Column.Bears

variable {column : Column} {value : Value} {cell : Cell}

theorem ne_of_known (bears : column.Bears value cell) (known : cell ≠ .null) :
    value.isNull = false ∧ value ≠ .plain (.double .notANumber) := by
  refine ⟨?_, fun none => known (Column.Bears.eq_null (none ▸ bears) (.inr rfl))⟩
  cases null : value.isNull with
  | false => rfl
  | true =>
    cases value with
    | moment text zoned => cases null
    | plain j =>
      by_cases none : j = .null
      · exact absurd (bears.eq_null (.inl none)) known
      · rw [Value.isNull_plain none] at null
        cases null

end Column.Bears

theorem Cell.eq_null_congr {a b : Cell} (first : a ≠ .real .notANumber) (second : b ≠ .real .notANumber)
    (place : a.place = b.place) : a = .null ↔ b = .null := by
  constructor
  · rintro rfl
    exact Cell.eq_null_of_place second place.symm
  · rintro rfl
    exact Cell.eq_null_of_place first place

/-- Cells of columns of one type that stand in one place hold the same values. -/
theorem Table.holds_congr {table other : Table} {row record : Row} {name key : String} {first second : Column} {j : Json}
    (found : table.column? name = some first) (foundToo : other.column? key = some second) (type : first.type = second.type)
    (stored : Cell.IsStored first.type.affinity (row.cell name))
    (storedToo : Cell.IsStored second.type.affinity (record.cell key)) (number : row.cell name ≠ .real .notANumber)
    (numberToo : record.cell key ≠ .real .notANumber) (place : (row.cell name).place = (record.cell key).place) :
    table.holds row name j = other.holds record key j := by
  have null := Cell.eq_null_congr number numberToo place
  by_cases none : j = .null
  · subst none
    have answer (a b : Cell) (alike : a = .null ↔ b = .null) : (a == .null) = (b == .null) := by
      rw [Bool.eq_iff_iff, beq_iff_eq, beq_iff_eq, alike]
    simp only [Table.holds, Comparison.outcome]
    rw [answer _ _ null]
  · rw [Table.holds_compare none, Table.holds_compare none, Table.type_ref found, Table.type_ref foundToo, ← type,
      Query.holds_compare, Query.holds_compare]
    rw [← type] at storedToo
    have order (value : Cell) : Cell.orderFor first.type.affinity (row.cell name) value =
        Cell.orderFor first.type.affinity (record.cell key) value := by
      cases numeric : first.type.affinity.isNumeric with
      | true =>
        rw [Cell.orderFor_number stored numeric, Cell.orderFor_number storedToo numeric, Cell.order_eq_cmp,
          Cell.order_eq_cmp, place]
      | false =>
        rw [Cell.orderFor_words stored numeric, Cell.orderFor_words storedToo numeric, Cell.order_eq_cmp,
          Cell.order_eq_cmp, place]
    have known : (row.cell name != .null) = (record.cell key != .null) := by
      rw [Bool.eq_iff_iff, bne_iff_ne, bne_iff_ne, ne_eq, ne_eq, null]
    rw [order, known]

/-- A value that a column holds is held by the columns that agree with it. -/
theorem Table.holds_of_agrees {table other : Table} {row record : Row} {column key : String} {first second : Column} {j : Json}
    (found : table.column? column = some first) (foundToo : other.column? key = some second) (type : first.type = second.type)
    (stored : Cell.IsStored first.type.affinity (row.cell column))
    (storedToo : Cell.IsStored second.type.affinity (record.cell key)) (number : record.cell key ≠ .real .notANumber)
    (agrees : table.agrees row column other record key = true) (holds : other.holds record key j = true) :
    table.holds row column j = true := by
  rw [Table.agrees, Table.type_ref found, Table.type_ref foundToo, ← type] at agrees
  rw [← type] at storedToo
  simp only [Bool.and_eq_true, bne_iff_ne, beq_iff_eq] at agrees
  obtain ⟨⟨-, known⟩, met⟩ := agrees
  rw [Cell.orderBetween_of_isStored stored storedToo, Cell.order_eq_iff] at met
  have numberToo : row.cell column ≠ .real .notANumber := by
    intro none
    rw [none] at met
    exact known (Cell.eq_null_of_place number met.symm)
  rw [Table.holds_congr found foundToo type stored (type ▸ storedToo) numberToo number met, holds]

/-- A column holds what a record has read of it. -/
theorem Record.Shows.holds_value {record : Record} {row : Row} {column : Column} (shows : record.Shows row)
    (nodup : record.table.columnNames.Nodup) (full : record.table.fullRow row = row) (listed : column ∈ record.table.columns)
    (returns : column.Returns (row.cell column.name)) (known : row.cell column.name ≠ .null) :
    (record.value column.name).compared ≠ .null ∧
      record.table.holds row column.name (record.value column.name).compared = true := by
  have stored := Table.isStored_of_full nodup full listed
  have compared := returns.cell_compared stored (shows.read_value nodup listed).1
  have some : (record.value column.name).compared ≠ .null := by
    intro none
    have cell := compared .integer
    rw [none] at cell
    exact known cell.symm
  refine ⟨some, ?_⟩
  rw [Table.holds_compare some, Table.type_ref (Table.column?_of_mem nodup listed), compared, Query.holds_compare,
    Cell.orderFor_of_isStored stored stored, Cell.order_self]
  simp [known]

/-! ## Keys that were looked for -/

section Held

variable {table : Table} {row : Row} {name : String} {column : Column} {j : Json}

theorem Table.ne_null_of_holds (known : j ≠ .null) (holds : table.holds row name j = true) : row.cell name ≠ .null := by
  rw [Table.holds_compare known, Query.holds_compare] at holds
  simp only [Bool.and_eq_true, bne_iff_ne] at holds
  exact holds.1.1

/-- A value that a column holds is a number or a text that the storage takes, and equal to the cell. -/
theorem Table.order_of_holds (found : table.column? name = some column) (known : j ≠ .null)
    (holds : table.holds row name j = true) :
    Cell.ofJson j = .ok j.cell ∧ j.cell ≠ .null ∧ Cell.orderFor column.type.affinity (row.cell name) j.cell = .eq := by
  rw [Table.holds_compare known, Table.type_ref found, Query.holds_compare] at holds
  simp only [Bool.and_eq_true, bne_iff_ne, ne_eq, beq_iff_eq] at holds
  obtain ⟨⟨-, some⟩, met⟩ := holds
  have taken : Cell.ofJson j = .ok j.cell ∧ Bound.cell ⟨BindType.compared column.type j, j⟩ = j.cell := by
    cases j with
    | null => exact absurd rfl known
    | bool b => cases b <;> exact ⟨rfl, rfl⟩
    | int n =>
      by_cases word : Word.holds n = true
      · have formed : Cell.ofJson (.int n) = .ok (.int n) := if_pos word
        exact ⟨formed, by simp [Bound.cell, Bound.cell?, BindType.compared, Bound.formed, formed, Json.cell]⟩
      · have refused : Cell.ofJson (.int n) = .error (.fault .integerTooLarge) := if_neg word
        simp [Bound.cell, Bound.cell?, BindType.compared, Bound.formed, refused] at some
    | double d =>
      cases d with
      | notANumber => exact absurd rfl some
      | _ => exact ⟨rfl, rfl⟩
    | text s => exact ⟨rfl, rfl⟩
    | list items =>
      cases type : column.type <;> rw [type] at some <;> exact absurd rfl some
    | object members =>
      cases type : column.type <;> rw [type] at some <;> exact absurd rfl some
  rw [taken.2] at some met
  exact ⟨taken.1, some, met⟩

theorem Json.same_self {j : Json} (known : j.cell ≠ .null) (taken : Cell.ofJson j = .ok j.cell) : j.same j = true := by
  cases j with
  | null => exact absurd rfl known
  | bool b => simp [Json.same, Json.sameScalar, Json.integer?]
  | int n => simp [Json.same, Json.sameScalar, Json.integer?]
  | double d =>
    have number : d ≠ .notANumber := by
      rintro rfl
      cases taken
    simp [Json.same, Json.sameScalar, Double.sameValue_self number]
  | text s => simp [Json.same, Json.sameScalar]
  | list items => exact absurd rfl known
  | object members => exact absurd rfl known

namespace Column

/-- A cell of which a value was read that is the same as another one stands in the place of that one. -/
private theorem place_of_read (type : column.type ≠ .datetime) {cell : Cell} {old : Value}
    (read : Value.ofCell column.type cell = .ok old) (same : (Value.plain j).same old = true) :
    j.cell.place = cell.place := by
  rcases Value.ofCell_eq_ok read with ⟨rfl, -⟩ | ⟨date, -⟩
  · exact Json.place_of_same same
  · exact absurd date type

namespace Bears

variable {cell : Cell} (found : table.column? name = some column) (proper : column.Proper (row.cell name))
  (known : j ≠ .null) (holds : table.holds row name j = true) (bears : column.Bears (.plain j) cell)
include found proper known holds bears

private theorem place_of_integer (type : column.type = .integer) : cell.place = (row.cell name).place := by
  obtain ⟨taken, -, met⟩ := Table.order_of_holds found known holds
  have stored := proper.stored
  rw [type] at stored met
  have place : j.cell.asNumber.place = (row.cell name).place := by
    rw [Cell.orderFor_number stored rfl] at met
    exact (Cell.order_eq_iff.1 met).symm
  rcases bears with ⟨made, written, rfl⟩ | ⟨own, old, read, same⟩
  · have formed : Cell.ofJson j = .ok made := by
      simpa [Value.cellFor, type, ColumnType.bindType, Bound.formed] using written
    cases taken.symm.trans formed
    rw [type]
    exact (Cell.place_stored_integer _).trans place
  · have equal := place_of_read (by simp [type]) read same
    have kept := own.stored
    rw [type] at kept
    rw [← place, ← equal]
    cases shape : j.cell with
    | text s =>
      obtain rfl := Cell.eq_text_of_place (equal.symm.trans (congrArg Cell.place shape))
      rw [Cell.asNumber_of_isStored kept rfl]
    | _ => rfl

private theorem place_of_string (type : column.type = .string) : cell.place = (row.cell name).place := by
  obtain ⟨taken, some, met⟩ := Table.order_of_holds found known holds
  have number := (Cell.place_of_ofJson taken).2
  have stored := proper.stored
  rw [type] at stored met
  have place : j.cell.asText.place = (row.cell name).place := by
    rw [Cell.orderFor_words stored rfl] at met
    exact (Cell.order_eq_iff.1 met).symm
  rcases bears with ⟨made, written, rfl⟩ | ⟨own, old, read, same⟩
  · have formed : Cell.ofJson j = .ok made := by
      simpa [Value.cellFor, type, ColumnType.bindType, Bound.formed] using written
    cases taken.symm.trans formed
    rw [type, ← place]
    exact congrArg Cell.place (Cell.stored_text _)
  · have equal := place_of_read (by simp [type]) read same
    have kept := own.stored
    rw [type] at kept
    rw [← place, ← equal]
    cases cell with
    | null => exact absurd (Cell.eq_null_of_place number equal) some
    | text s =>
      rw [Cell.eq_text_of_place equal]
      rfl
    | int n => cases kept
    | real d => simp [Cell.IsStored, ColumnType.affinity, Cell.stored, Cell.text?] at kept

private theorem place_of_float (type : column.type = .float) (form : ∀ s, j ≠ .text s) :
    cell.place = (row.cell name).place := by
  obtain ⟨-, -, met⟩ := Table.order_of_holds found known holds
  have stored := proper.stored
  rw [type] at stored met
  have place : j.cell.place = (row.cell name).place := by
    have plain : j.cell.asNumber = j.cell := by
      cases j with
      | text s => exact absurd rfl (form s)
      | _ => rfl
    rw [Cell.orderFor_number stored rfl, plain] at met
    exact (Cell.order_eq_iff.1 met).symm
  rcases bears with ⟨made, written, rfl⟩ | ⟨own, old, read, same⟩
  · exact proper.place_of_place place written
  · exact (place_of_read (by simp [type]) read same).symm.trans place

/-- A cell that bears a value that another cell of the column is equal to stands in the place of that one. A text for a
column of floats is left out: it may be another number to the storage than to the column. -/
theorem place_of_holds (form : column.type = .float → ∀ s, j ≠ .text s) : cell.place = (row.cell name).place := by
  cases type : column.type with
  | integer => exact place_of_integer found proper known holds bears type
  | string => exact place_of_string found proper known holds bears type
  | float => exact place_of_float found proper known holds bears type (form type)
  | datetime =>
    -- no plain value is a moment
    exfalso
    rcases bears with ⟨made, written, -⟩ | ⟨-, old, read, same⟩
    · simp only [Value.cellFor, Value.formedFor_plain, type, ColumnType.bindType] at written
      cases j <;> first | exact known rfl | cases written
    · rcases Value.ofCell_eq_ok read with ⟨rfl, plain⟩ | ⟨-, s, text, -, rfl⟩
      · obtain rfl := plain type
        cases j <;> first | exact known rfl | cases same
      · cases same

end Bears

end Column

end Held

end ResourceApi
