import Mathlib.Data.List.Nodup
import Mathlib.Data.List.Pairwise
import ResourceApi.Proofs.Relation.Linked
import ResourceApi.Proofs.Session.Values
import ResourceApi.Session.Records

/-!
Records in step with the rows they stand for. As long as nothing was set in them there is nothing to write, and to find a
record is to look up its row: the row is taken in hand as the record that it is already, or as a new one.
-/

namespace ResourceApi

open Outcome

/-! ## Tables whose rows are as the storage keeps them -/

namespace Database

/-- Whether a table stands in the database with rows as its columns keep them, whose values are written as they are read,
and no two of which have one key. -/
structure Keeps (database : Database) (table : Table) : Prop where
  stores : database.Stores table
  nodup : table.columnNames.Nodup
  full : ∀ row ∈ database.rows table.name, table.fullRow row = row
  returns : ∀ row ∈ database.rows table.name, ∀ column ∈ table.columns, column.Returns (row.cell column.name)
  distinct : (database.rows table.name).Pairwise fun a b => ¬StoredTable.sameKey table a b

/-- Whether a table stands in the database with full rows, no two of which have one key. -/
structure Orderly (database : Database) (table : Table) : Prop where
  stores : database.Stores table
  nodup : table.columnNames.Nodup
  full : ∀ row ∈ database.rows table.name, table.fullRow row = row
  distinct : StoredTable.Distinct table (database.rows table.name)

theorem Keeps.orderly {database : Database} {table : Table} (keeps : database.Keeps table) : database.Orderly table :=
  ⟨keeps.stores, keeps.nodup, keeps.full, keeps.distinct⟩

end Database

namespace Table

variable {table : Table} {row other : Row} {column : Column}

theorem column?_of_mem (nodup : table.columnNames.Nodup) (listed : column ∈ table.columns) :
    table.column? column.name = some column := by
  unfold Table.column?
  unfold Table.columnNames at nodup
  generalize table.columns = columns at listed nodup
  induction columns with
  | nil => cases listed
  | cons first rest ih =>
    obtain ⟨fresh, others⟩ := List.nodup_cons.1 nodup
    rcases List.mem_cons.1 listed with rfl | later
    · simp
    · have unlike : (first.name == column.name) = false := by
        rw [beq_eq_false_iff_ne]
        intro same
        exact fresh (List.mem_map.2 ⟨column, later, same.symm⟩)
      rw [List.find?_cons, unlike]
      exact ih later others

theorem mem_of_column? {name : String} (found : table.column? name = some column) :
    column ∈ table.columns ∧ column.name = name :=
  ⟨List.mem_of_find?_eq_some found, by simpa using List.find?_some found⟩

/-- The cells of a full row are kept by their columns. -/
theorem isStored_of_full (nodup : table.columnNames.Nodup) (full : table.fullRow row = row)
    (listed : column ∈ table.columns) : Cell.IsStored column.type.affinity (row.cell column.name) := by
  have made := cell_fullRow table row column.name
  rw [full, column?_of_mem nodup listed] at made
  exact made.symm

/-- A row is full if it has a cell for each column that the column keeps. -/
theorem full_iff (nodup : table.columnNames.Nodup) :
    table.fullRow row = row ↔ row.map Prod.fst = table.columnNames ∧
      ∀ column ∈ table.columns, Cell.IsStored column.type.affinity (row.cell column.name) := by
  constructor
  · intro full
    refine ⟨?_, fun column listed => isStored_of_full nodup full listed⟩
    rw [← full, columns_fullRow]
  · rintro ⟨columns, stored⟩
    apply Row.ext
    · rw [columns_fullRow, columns]
    · rw [columns_fullRow]
      exact nodup
    · intro name named
      rw [columns_fullRow] at named
      obtain ⟨column, listed, rfl⟩ := List.mem_map.1 named
      rw [cell_fullRow, column?_of_mem nodup listed]
      exact stored column listed

/-- A full row is made of any cells. -/
theorem fullRow_fullRow (nodup : table.columnNames.Nodup) (cells : List (String × Cell)) :
    table.fullRow (table.fullRow cells) = table.fullRow cells := by
  refine (full_iff nodup).2 ⟨columns_fullRow table cells, fun column listed => ?_⟩
  rw [cell_fullRow, column?_of_mem nodup listed]
  exact Cell.stored_isStored _ _

/-- Changing a full row changes the cells of the columns that are named. -/
theorem cell_fullRow_update (nodup : table.columnNames.Nodup) (full : table.fullRow row = row)
    (listed : column ∈ table.columns) (cells : List (String × Cell)) :
    (table.fullRow (row.update cells)).cell column.name =
      ((cells.lookup column.name).map (Cell.stored column.type.affinity)).getD (row.cell column.name) := by
  have there : (row.lookup column.name).isSome = true := by
    rw [List.lookup_isSome_iff]
    have named := List.mem_map_of_mem (f := (·.name)) listed
    rw [← columnNames, ← ((full_iff nodup).1 full).1] at named
    obtain ⟨entry, present, same⟩ := List.mem_map.1 named
    exact ⟨entry, present, by simp [same]⟩
  have updated : ((row.update cells).lookup column.name).getD .null =
      (cells.lookup column.name).getD (row.cell column.name) := by
    have cell := Row.cell_update row cells column.name
    rwa [if_pos there] at cell
  rw [cell_fullRow, column?_of_mem nodup listed, Option.map_some, Option.getD_some, updated]
  cases cells.lookup column.name with
  | none => exact isStored_of_full nodup full listed
  | some cell => rfl

/-- Rows have one key if their cells in all columns of the key stand in one place. -/
theorem sameKey_iff (keyed : table.keyColumns ≠ []) :
    StoredTable.sameKey table row other = true ↔
      ∀ column ∈ table.keyColumns, Cell.order (row.cell column.name) (other.cell column.name) = .eq := by
  simp [StoredTable.sameKey, keyed]

theorem mem_of_mem_keyColumns (listed : column ∈ table.keyColumns) : column ∈ table.columns := List.mem_of_mem_filter listed

/-- The column that says where rows are placed is one of integers. -/
theorem placeColumn?_eq_some {place : Column} (found : table.placeColumn? = some place) :
    place ∈ table.columns ∧ place.type = .integer := by
  unfold placeColumn? at found
  split at found
  · next only alone =>
    split at found
    · next integer =>
      cases found
      exact ⟨mem_of_mem_keyColumns (alone ▸ List.mem_singleton_self _), integer⟩
    · cases found
  · cases found

theorem type_of_isPlaceColumn (nodup : table.columnNames.Nodup) (listed : column ∈ table.columns)
    (placed : table.isPlaceColumn column = true) : column.type = .integer := by
  unfold isPlaceColumn at placed
  cases found : table.placeColumn? with
  | none => simp [found] at placed
  | some place =>
    obtain ⟨there, integer⟩ := placeColumn?_eq_some found
    have same : place.name = column.name := by simpa [found] using placed
    exact List.inj_on_of_nodup_map nodup there listed same ▸ integer

/-- The values that are read of a row. -/
def read (table : Table) (row : Row) : Except Failure Values :=
  table.columns.mapM fun column => return (column.name, ← Value.ofCell column.type (row.cell column.name))

theorem names_of_read {values : Values} (read : table.read row = .ok values) : values.map (·.1) = table.columnNames := by
  have pointwise := mapM_eq_ok.1 read
  unfold Table.columnNames
  clear read
  generalize table.columns = columns at pointwise
  induction pointwise with
  | nil => rfl
  | cons here _ ih =>
    simp only [bind_eq_ok, pure_eq_ok] at here
    obtain ⟨value, -, rfl⟩ := here
    rw [List.map_cons, List.map_cons, ih]

/-- Every column has the value that is read of its cell. -/
theorem lookup_of_read {values : Values} (nodup : table.columnNames.Nodup) (read : table.read row = .ok values)
    (listed : column ∈ table.columns) :
    ∃ value, Value.ofCell column.type (row.cell column.name) = .ok value ∧ values.lookup column.name = some value := by
  have pointwise := mapM_eq_ok.1 read
  unfold Table.columnNames at nodup
  clear read
  generalize table.columns = columns at pointwise listed nodup
  induction pointwise with
  | nil => cases listed
  | @cons first entry rest others here _ ih =>
    obtain ⟨fresh, distinct⟩ := List.nodup_cons.1 nodup
    simp only [bind_eq_ok, pure_eq_ok] at here
    obtain ⟨value, is, rfl⟩ := here
    rcases List.mem_cons.1 listed with rfl | later
    · exact ⟨value, is, by simp⟩
    · obtain ⟨found, reads, held⟩ := ih later distinct
      refine ⟨found, reads, ?_⟩
      have unlike : (column.name == first.name) = false := by
        rw [beq_eq_false_iff_ne]
        intro same
        exact fresh (List.mem_map.2 ⟨column, later, same⟩)
      rw [List.lookup_cons, unlike]
      exact held

end Table

namespace StoredTable

variable {table : Table} {rows : List Row} {cells : List (String × Cell)} {column : Column}

/-- A row that is added has what its columns make of the given cells, but for a place that was not given. -/
theorem cell_added (nodup : table.columnNames.Nodup) (listed : column ∈ table.columns)
    (given : ((cells.lookup column.name).getD .null).stored column.type.affinity ≠ .null ∨
      table.isPlaceColumn column = false) (rows : List Row) :
    (added ⟨table, rows⟩ cells).cell column.name =
      ((cells.lookup column.name).getD .null).stored column.type.affinity := by
  have full := Table.cell_fullRow table cells column.name
  rw [Table.column?_of_mem nodup listed, Option.map_some, Option.getD_some] at full
  unfold added
  dsimp only
  split
  · next place found =>
    split
    · next missing =>
      have other : column.name ≠ place.name := by
        intro same
        rcases given with known | elsewhere
        · rw [← same, full] at missing
          exact known missing
        · simp [Table.isPlaceColumn, found, same] at elsewhere
      have apart : (column.name == place.name) = false := by simpa using other
      rw [Row.cell_update]
      split
      · simp [List.lookup_cons, apart, full]
      · next absent =>
        rw [Option.not_isSome_iff_eq_none] at absent
        rw [← full, Row.cell, absent]
        rfl
    · exact full
  · exact full

/-- A row that is added is full. -/
theorem full_added (nodup : table.columnNames.Nodup) :
    table.fullRow (added ⟨table, rows⟩ cells) = added ⟨table, rows⟩ cells := by
  have full := Table.fullRow_fullRow nodup cells
  unfold added
  dsimp only
  split
  · next place found =>
    split
    · obtain ⟨there, integer⟩ := Table.placeColumn?_eq_some found
      obtain ⟨columns, stored⟩ := (Table.full_iff nodup).1 full
      refine (Table.full_iff nodup).2 ⟨(Row.columns_update _ _).trans columns, fun column listed => ?_⟩
      rw [Row.cell_update]
      split
      · by_cases same : column.name = place.name
        · obtain rfl : column = place := List.inj_on_of_nodup_map nodup listed there same
          rw [integer]
          simp [Cell.IsStored, Cell.stored, ColumnType.affinity]
        · have apart : (column.name == place.name) = false := by simpa using same
          simp only [List.lookup_cons, apart, List.lookup_nil, Option.getD_none]
          exact stored column listed
      · cases column.type <;> rfl
    · exact full
  · exact full

end StoredTable

namespace Database

variable {database : Database} {table : Table} {row other : Row}

/-- Rows of one key are one row. -/
theorem Orderly.eq_of_sameKey (orderly : database.Orderly table) (first : row ∈ database.rows table.name)
    (second : other ∈ database.rows table.name) (same : StoredTable.sameKey table row other = true) : row = other := by
  by_contra different
  have symmetric : Std.Symm fun a b => ¬StoredTable.sameKey table a b = true :=
    ⟨fun a b no yes => no (StoredTable.sameKey_comm table b a ▸ yes)⟩
  have distinct : (database.rows table.name).Pairwise fun a b => ¬StoredTable.sameKey table a b := orderly.distinct
  exact distinct.forall first second different same

namespace Keeps

theorem eq_of_sameKey (keeps : database.Keeps table) (first : row ∈ database.rows table.name)
    (second : other ∈ database.rows table.name) (same : StoredTable.sameKey table row other = true) : row = other :=
  keeps.orderly.eq_of_sameKey first second same

theorem sameKey_self (keyed : table.keyColumns ≠ []) (row : Row) : StoredTable.sameKey table row row = true :=
  (Table.sameKey_iff keyed).2 fun _ _ => Cell.order_self _

/-- A table of a name has one form. -/
theorem table_eq {second : Table} (keeps : database.Keeps table) (also : database.Keeps second)
    (same : second.name = table.name) : second = table := by
  obtain ⟨rows, found⟩ := keeps.stores
  obtain ⟨others, foundToo⟩ := also.stores
  rw [same, found] at foundToo
  cases foundToo
  rfl

end Keeps

end Database

/-! ## Records and their rows -/

/-- A record is written to the one row that its key counts as. -/
theorem Database.Orderly.isRowOf_iff {database : Database} {record : Record} {row other : Row}
    (orderly : database.Orderly record.table) (keyed : record.table.keyColumns ≠ [])
    (inside : row ∈ database.rows record.table.name) (there : other ∈ database.rows record.table.name)
    {value : Column → Value} {keys : List (String × Cell)}
    (cells : Value.cells (record.table.keyColumns.map fun column => (column, value column)) = .ok keys)
    (counts : ∀ column ∈ record.table.keyColumns, ∀ made, (value column).cellFor column = .ok made →
      made.CountsAs column.type.affinity (row.cell column.name)) :
    Job.isRowOf record keys other = true ↔
      other = row ∧ ∀ column ∈ record.table.keyColumns,
        row.cell column.name ≠ .null ∧ Row.cell keys column.name ≠ .null := by
  have columns : (record.table.keyColumns.map fun column => (column, value column)).map (·.1.name) =
      record.table.keyColumns.map (·.name) := by simp
  have nodup : (record.table.keyColumns.map (·.name)).Nodup :=
    orderly.nodup.sublist (List.filter_sublist.map _)
  have compared (column : Column) (listed : column ∈ record.table.keyColumns) :
      Truth.holds (Query.compare .equal column.type.affinity (other.cell column.name) (Row.cell keys column.name)) = true ↔
        other.cell column.name ≠ .null ∧ Row.cell keys column.name ≠ .null ∧
          Cell.order (other.cell column.name) (row.cell column.name) = .eq := by
    obtain ⟨cell, made, held⟩ := Value.lookup_cells cells (columns ▸ nodup) (List.mem_map.2 ⟨column, listed, rfl⟩)
    have given : Row.cell keys column.name = cell := by simp [Row.cell, held]
    have stored := Table.isStored_of_full orderly.nodup (orderly.full _ there) (Table.mem_of_mem_keyColumns listed)
    rw [given, Query.holds_compare, counts column listed cell made _ stored]
    simp [and_assoc]
  unfold Job.isRowOf
  rw [List.all_eq_true]
  constructor
  · intro all
    have each := fun column listed => (compared column listed).1 (all column listed)
    obtain rfl := orderly.eq_of_sameKey there inside
      ((Table.sameKey_iff keyed).2 fun column listed => (each column listed).2.2)
    exact ⟨rfl, fun column listed => ⟨(each column listed).1, (each column listed).2.1⟩⟩
  · rintro ⟨rfl, known⟩ column listed
    exact (compared column listed).2 ⟨(known column listed).1, (known column listed).2, Cell.order_self _⟩

namespace Record

/-- Whether a record is what is read of a row, and nothing has been set in it. -/
structure Shows (record : Record) (row : Row) : Prop where
  stored : record.isStored = true
  kept : record.kept = record.values
  read : record.table.read row = .ok record.values

namespace Shows

variable {record : Record} {row other : Row} {database : Database} (shows : record.Shows row)
include shows

theorem read_value (nodup : record.table.columnNames.Nodup) {column : Column} (listed : column ∈ record.table.columns) :
    Value.ofCell column.type (row.cell column.name) = .ok (record.value column.name) ∧
      record.values.lookup column.name = some (record.value column.name) := by
  obtain ⟨value, is, found⟩ := Table.lookup_of_read nodup shows.read listed
  have same : record.value column.name = value := by simp [Record.value, Record.value?, found]
  rw [same]
  exact ⟨is, found⟩

/-- What was read of the columns of a key is written as it stands. -/
theorem countsAs (orderly : database.Orderly record.table) (inside : row ∈ database.rows record.table.name)
    {column : Column} (listed : column ∈ record.table.columns) (returns : column.Returns (row.cell column.name))
    {made : Cell} (written : (record.value column.name).cellFor column = .ok made) :
    made.CountsAs column.type.affinity (row.cell column.name) := by
  have same := returns _ (shows.read_value orderly.nodup listed).1
  obtain rfl : _ = made := Except.ok.inj (same.symm.trans written)
  exact .of_isStored (Table.isStored_of_full orderly.nodup (orderly.full _ inside) listed)

variable (keeps : database.Keeps record.table)
include keeps

theorem value_eq {column : Column} (listed : column ∈ record.table.columns) :
    Value.ofCell column.type (row.cell column.name) = .ok (record.value column.name) ∧
      record.values.lookup column.name = some (record.value column.name) :=
  shows.read_value keeps.nodup listed

variable (inside : row ∈ database.rows record.table.name)
include inside

/-- Nothing has changed in a record that shows a row. -/
theorem changes_eq_nil : record.changes = [] := by
  unfold Record.changes
  rw [List.filterMap_eq_nil_iff]
  intro column listed
  obtain ⟨is, found⟩ := shows.value_eq keeps listed
  have same := (keeps.returns row inside column listed).same_self is
  simp [Record.value?, shows.kept, found, same]

/-- The record stands for a row that is read if that row is its own. -/
theorem isOf_iff (keyed : record.table.keyColumns ≠ []) (there : other ∈ database.rows record.table.name)
    {values : Values} (read : record.table.read other = .ok values) :
    record.isOf record.table values = true ↔ other = row := by
  have compared (column : Column) (listed : column ∈ record.table.keyColumns) :
      ∃ value, Value.ofCell column.type (other.cell column.name) = .ok value ∧
        (values.lookup column.name).getD .null = value ∧
        (record.kept.lookup column.name).getD .null = record.value column.name := by
    obtain ⟨value, is, found⟩ := Table.lookup_of_read keeps.nodup read (Table.mem_of_mem_keyColumns listed)
    obtain ⟨-, held⟩ := shows.value_eq keeps (Table.mem_of_mem_keyColumns listed)
    exact ⟨value, is, by rw [found, Option.getD_some], by rw [shows.kept, held, Option.getD_some]⟩
  unfold Record.isOf
  simp only [shows.stored, beq_self_eq_true, Bool.and_self, Bool.true_and, List.all_eq_true]
  constructor
  · intro all
    refine (keeps.eq_of_sameKey inside there ((Table.sameKey_iff keyed).2 fun column listed => ?_)).symm
    obtain ⟨value, is, here, known⟩ := compared column listed
    have same := all column listed
    rw [here, known] at same
    have listedToo := Table.mem_of_mem_keyColumns listed
    exact (keeps.returns row inside column listedToo).order_of_same (keeps.returns other there column listedToo)
      (shows.value_eq keeps listedToo).1 is same
  · rintro rfl column listed
    obtain ⟨value, is, here, known⟩ := compared column listed
    have listedToo := Table.mem_of_mem_keyColumns listed
    have own := (shows.value_eq keeps listedToo).1
    rw [here, known]
    cases is.symm.trans own
    exact (keeps.returns _ there column listedToo).same_self own

omit inside in
/-- What is known of a row is not completed further. -/
theorem complete_eq {values : Values} (read : record.table.read other = .ok values) : record.complete values = record := by
  have names := Table.names_of_read read
  have missing : (values.filter fun entry => (record.values.lookup entry.1).isNone) = [] := by
    rw [List.filter_eq_nil_iff]
    intro entry listed
    have named : entry.1 ∈ record.table.columnNames := by
      rw [← names]
      exact List.mem_map_of_mem listed
    obtain ⟨column, listed, same⟩ := List.mem_map.1 named
    obtain ⟨-, held⟩ := shows.value_eq keeps listed
    rw [← same, held]
    simp
  obtain ⟨-, kept, -⟩ := shows
  obtain ⟨table, known, old, isStored⟩ := record
  obtain rfl : old = known := kept
  simp only [Record.complete, missing, List.append_nil]

end Shows

end Record

end ResourceApi
