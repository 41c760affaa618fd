import ResourceApi.Proofs.Session.Written

/-!
Taking values out of a record. Where a record shows a row, setting some of its columns to null and writing it changes that
row in these columns and no other row.
-/

namespace ResourceApi

open Outcome

/-- A row without values in some columns. -/
def Row.cleared (names : List String) (row : Row) : Row := row.update (names.map (·, .null))

/-- A record without values in some columns. -/
def Record.cleared (names : List String) (record : Record) : Record :=
  (names.map fun name => (name, Value.null)).foldl (fun record entry => record.set entry.1 entry.2) record

theorem lookup_nulls {α : Type} (names : List String) (null : α) (name : String) :
    (names.map (·, null)).lookup name = if name ∈ names then some null else none := by
  induction names with
  | nil => rfl
  | cons first rest ih =>
    rw [List.map_cons, List.lookup_cons, ih]
    by_cases same : name = first
    · simp [same]
    · have unlike : (name == first) = false := by simpa using same
      simp [same, unlike]

namespace Row

theorem cell_cleared (names : List String) (row : Row) (name : String) :
    (row.cleared names).cell name = if name ∈ names then .null else row.cell name := by
  rw [Row.cleared, cell_update, lookup_nulls]
  by_cases inside : (row.lookup name).isSome = true
  · by_cases taken : name ∈ names <;> simp [inside, taken]
  · have absent : row.cell name = .null := by
      rw [Option.not_isSome_iff_eq_none] at inside
      simp [Row.cell, inside]
    simp [inside, absent]

end Row

namespace Record

variable {record : Record} {names : List String} {name : String}

@[simp]
theorem table_cleared : (record.cleared names).table = record.table := table_setAll

@[simp]
theorem kept_cleared : (record.cleared names).kept = record.kept := kept_setAll

@[simp]
theorem isStored_cleared : (record.cleared names).isStored = record.isStored := isStored_setAll

theorem value?_cleared :
    (record.cleared names).value? name = if name ∈ names then some .null else record.value? name := by
  have cleared : record.cleared names = record.setAll (names.map (·, .null)) := rfl
  rw [cleared, value?_setAll, ← List.map_reverse, lookup_nulls]
  by_cases taken : name ∈ names <;> simp [taken]

end Record

namespace Value

theorem cellFor_null (column : Column) : Value.null.cellFor column = .ok .null := by
  cases type : column.type <;> simp [Value.null, Value.cellFor, type, ColumnType.bindType, Bound.formed, Cell.ofJson]

theorem same_null {value : Value} (same : Value.null.same value = true) : value = .null := by
  cases value with
  | plain j => cases j <;> first | rfl | cases same
  | moment text zoned => cases same

theorem cell_of_null {type : ColumnType} {cell : Cell} (read : Value.ofCell type cell = .ok .null) : cell = .null := by
  rcases ofCell_eq_ok read with ⟨plain, -⟩ | ⟨-, s, text, -, moment⟩
  · cases cell <;> first | rfl | cases plain
  · cases moment

end Value

namespace Record.Shows

variable {record : Record} {row : Row} {database : Database} (shows : record.Shows row)
  (keeps : database.Keeps record.table) (inside : row ∈ database.rows record.table.name) {names : List String}
include shows keeps inside

/-- Of the columns that were cleared those have changed that held something. -/
theorem mem_changes_cleared {column : Column} {value : Value} (changed : (column, value) ∈ (record.cleared names).changes) :
    column ∈ record.table.columns ∧ column.name ∈ names ∧ value = .null := by
  unfold Record.changes at changed
  obtain ⟨other, listed, found⟩ := List.mem_filterMap.1 changed
  rw [table_cleared] at listed
  obtain ⟨is, held⟩ := shows.value_eq keeps listed
  rw [value?_cleared, kept_cleared, shows.kept, held] at found
  by_cases taken : other.name ∈ names
  · rw [if_pos taken] at found
    cases same : Value.null.same (record.value other.name) with
    | true => simp [same] at found
    | false =>
      simp [same] at found
      obtain ⟨rfl, rfl⟩ := found
      exact ⟨listed, taken, rfl⟩
  · have same := (keeps.returns row inside other listed).same_self is
    simp [taken, Record.value?, held, same] at found

omit inside in
theorem changes_cleared_of_ne {column : Column} (listed : column ∈ record.table.columns) (taken : column.name ∈ names)
    (known : row.cell column.name ≠ .null) : (column, Value.null) ∈ (record.cleared names).changes := by
  unfold Record.changes
  refine List.mem_filterMap.2 ⟨column, by simpa using listed, ?_⟩
  obtain ⟨is, held⟩ := shows.value_eq keeps listed
  rw [value?_cleared, kept_cleared, shows.kept, held, if_pos taken]
  cases same : Value.null.same (record.value column.name) with
  | true =>
    rw [Value.same_null same] at is
    exact absurd (Value.cell_of_null is) known
  | false => simp [same]

omit inside in
/-- The row is found by what was read of it, whether or not it is taken out. -/
theorem keyValue_cleared {column : Column} (listed : column ∈ record.table.columns) :
    (record.cleared names).keyValue column.name = record.value column.name := by
  obtain ⟨-, held⟩ := shows.value_eq keeps listed
  have known : (record.cleared names).value column.name =
      if column.name ∈ names then .null else record.value column.name := by
    rw [Record.value, value?_cleared]
    split <;> rfl
  unfold Record.keyValue
  dsimp only
  rw [kept_cleared, shows.kept, held, Option.getD_some, known]
  by_cases taken : column.name ∈ names
  · rw [if_pos taken]
    cases same : Value.null.same (record.value column.name) with
    | true => rw [if_pos rfl, Value.same_null same]
    | false => rw [if_neg (by simp)]
  · rw [if_neg taken]
    exact ite_self _

/-- The row that takes the changes is the row without values in the columns. -/
theorem fullRow_cleared {cells : List (String × Cell)} (made : Value.cells (record.cleared names).changes = .ok cells) :
    record.table.fullRow (row.update cells) = row.cleared names := by
  have full := keeps.full row inside
  have columns : row.map Prod.fst = record.table.columnNames := by
    rw [← full, Table.columns_fullRow]
  have sameColumns : (record.table.fullRow (row.update cells)).map Prod.fst = (row.cleared names).map Prod.fst := by
    rw [Table.columns_fullRow, Row.cleared, Row.columns_update, columns]
  have changedColumns : ((record.cleared names).changes.map (·.1.name)).Nodup :=
    nodup_changes (by rw [table_cleared]; exact keeps.nodup)
  refine Row.ext sameColumns (by rw [Table.columns_fullRow]; exact keeps.nodup) fun name named => ?_
  rw [Table.columns_fullRow] at named
  obtain ⟨column, listed, rfl⟩ := List.mem_map.1 named
  rw [Table.cell_fullRow_update keeps.nodup full listed, Row.cell_cleared]
  by_cases changed : column.name ∈ (record.cleared names).changes.map (·.1.name)
  · obtain ⟨⟨other, value⟩, present, same⟩ := List.mem_map.1 changed
    obtain ⟨-, taken, rfl⟩ := shows.mem_changes_cleared keeps inside present
    obtain ⟨cell, null, found⟩ := Value.lookup_cells made changedColumns present
    rw [Value.cellFor_null] at null
    cases null
    dsimp only at same
    rw [same] at found taken
    rw [found, if_pos taken, Option.map_some, Option.getD_some]
    cases column.type <;> rfl
  · rw [Value.lookup_cells_none made changed, Option.map_none, Option.getD_none]
    by_cases taken : column.name ∈ names
    · rw [if_pos taken]
      by_contra known
      exact changed (List.mem_map_of_mem (f := (·.1.name)) (shows.changes_cleared_of_ne keeps listed taken known))
    · rw [if_neg taken]

end Record.Shows

namespace Job

variable {work after : Work} {number : Nat} {record : Record} {row : Row} {names : List String}

/-- A record that was cleared in some columns, alone among the records in hand, is written: its row is without values in
these columns, and no other row is touched. -/
theorem flush_cleared (ran : (flush number).runOn work = (.ok (), after)) (nodup : (work.records.map (·.1)).Nodup)
    (others : ∀ entry ∈ work.records, entry.1 ≠ number → entry.2.IsWritten)
    (found : work.records.lookup number = some (record.cleared names)) (shows : record.Shows row)
    (keeps : work.database.Keeps record.table) (keyed : record.table.keyColumns ≠ [])
    (inside : row ∈ work.database.rows record.table.name) :
    Database.Touches work.database after.database record.table.name ∧
      (after.database.rows record.table.name).Perm
        ((work.database.rows record.table.name).map fun other => if other = row then other.cleared names else other) := by
  have table : (record.cleared names).table = record.table := Record.table_cleared
  obtain ⟨cells, database, made, -, touched, perm, rfl⟩ := flush_eq_ok ran nodup others found
    (Record.isStored_cleared.trans shows.stored) (table ▸ keeps.orderly) (table ▸ keyed) (table ▸ inside) (by
      intro column listed made written
      rw [table] at listed
      have listed := Table.mem_of_mem_keyColumns listed
      rw [shows.keyValue_cleared keeps listed] at written
      exact shows.countsAs keeps.orderly inside listed (keeps.returns row inside column listed) written)
  rw [table, shows.fullRow_cleared keeps inside made] at perm
  refine ⟨table ▸ touched, perm.trans (List.Perm.of_eq (List.map_congr_left fun other _ => ?_))⟩
  by_cases same : other = row <;> simp [same]

end Job

end ResourceApi
