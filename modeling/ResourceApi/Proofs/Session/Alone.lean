import ResourceApi.Proofs.Mutation.Single
import ResourceApi.Proofs.Session.Rows
import ResourceApi.Proofs.Session.Standing
import ResourceApi.Session.Operations

/-!
Work that begins with nothing in hand. Of one record it is said in full what becomes of it: that it is found, or why it is
not; that a value set in one of its columns is written to its row; that its row is removed.
-/

namespace ResourceApi

open Outcome

/-! ## Keys of requests -/

/-- Whether a value is of the type of a column, and one that the storage takes. -/
def ColumnType.Takes : ColumnType → Json → Prop
  | .integer, .int n => Word.holds n = true
  | .string, .text _ | .float, .double _ => True
  | .datetime, .text s => ∃ moment, Moment.ofText? s = some moment
  | _, _ => False

namespace ColumnType.Takes

variable {type : ColumnType} {key : Json} (takes : type.Takes key)
include takes

theorem ne_null : key ≠ .null := by
  rintro rfl
  cases type <;> cases takes

/-- A key stands in a statement as a comparison with a value that the storage takes. -/
theorem accepted (ref : ColumnRef) : ∃ bound, Cond.ofComparison .equal ref key = .ok (.compare .equal ref bound) ∧
    Bound.acceptAll [bound] = .ok () := by
  refine ⟨Cond.bound ref key, ?_, ?_⟩
  · cases type <;> cases key <;> first | rfl | cases takes
  · cases type with
    | integer =>
      cases key with
      | int n =>
        have word : Word.holds n = true := takes
        simp [Bound.acceptAll, Cond.bound, BindType.compared, Bound.formed, Cell.ofJson, word]
        rfl
      | _ => cases takes
    | string => cases key <;> first | rfl | cases takes
    | float =>
      cases key with
      | double d => cases d <;> rfl
      | _ => cases takes
    | datetime => cases key <;> first | rfl | cases takes

end ColumnType.Takes

/-- A column holds a key of its type when its cell is equal to that of the key. -/
theorem Table.holds_takes {table : Table} {name : String} {key : Json} {row : Row} {column : Column}
    (found : table.column? name = some column) (takes : column.type.Takes key)
    (stored : Cell.IsStored column.type.affinity (row.cell name)) (known : row.cell name ≠ .null)
    (number : row.cell name ≠ .real .notANumber) :
    table.holds row name key = (Cell.order (row.cell name) key.cell == .eq) := by
  rw [Table.holds_compare takes.ne_null, Table.type_ref found, Query.holds_compare]
  have there : (row.cell name != .null) = true := by simpa using known
  have same (cell : Cell) (made : Bound.cell ⟨BindType.compared column.type key, key⟩ = cell) (some : cell ≠ .null)
      (kept : Cell.IsStored column.type.affinity cell) (is : key.cell = cell) :
      (row.cell name != .null && Bound.cell ⟨BindType.compared column.type key, key⟩ != .null &&
        Cell.orderFor column.type.affinity (row.cell name) (Bound.cell ⟨BindType.compared column.type key, key⟩) == .eq) =
        (Cell.order (row.cell name) key.cell == .eq) := by
    rw [made, is, there, Cell.orderFor_of_isStored stored kept]
    simp [some]
  cases type : column.type with
  | integer =>
    rw [type] at takes
    cases key with
    | int n =>
      have word : Word.holds n = true := takes
      rw [← type]
      exact same (.int n) (by simp [Bound.cell, Bound.cell?, BindType.compared, Bound.formed, Cell.ofJson, word]) (by simp)
        (by rw [type]; rfl) rfl
    | _ => cases takes
  | string =>
    rw [type] at takes
    cases key with
    | text s =>
      rw [← type]
      exact same (.text s) rfl (by simp) (by rw [type]; rfl) rfl
    | _ => cases takes
  | float =>
    rw [type] at takes
    cases key with
    | double d =>
      rw [← type]
      by_cases none : d = .notANumber
      · -- what is not a number is equal to nothing, neither to the storage nor in the order
        subst none
        have apart : Cell.order (row.cell name) (.real .notANumber) ≠ .eq := by
          intro met
          have place : (row.cell name).place = (Cell.real .notANumber).place := Cell.order_eq_iff.1 met
          exact known (Cell.eq_null_of_place number place)
        have null : Bound.cell ⟨BindType.compared column.type (.double .notANumber), .double .notANumber⟩ = .null := rfl
        simp [null, Json.cell, apart]
      · refine same (.real d) ?_ (by simp) (by rw [type]; rfl) rfl
        cases d <;> first | rfl | exact absurd rfl none
    | _ => cases takes
  | datetime =>
    rw [type] at takes
    cases key with
    | text s =>
      obtain ⟨moment, read⟩ := takes
      rw [← type]
      refine same (.text s) rfl (by simp) ?_ rfl
      rw [type, Cell.IsStored, ColumnType.affinity, Cell.stored, Moment.ofNumberText?_eq_none read]
    | _ => cases takes

/-- Whether a row has a cell for its key that stands in the place of a given one. -/
def Resource.isAt (resource : Resource) (cell : Cell) (row : Row) : Bool := Cell.order (row.cell resource.key) cell == .eq

/-- Rows that hold a key are those whose cell is equal to it. -/
theorem Resource.isFor_eq {resource : Resource} {key : Json} {withDeleted : Bool} {row : Row} {column : Column}
    (found : resource.table.column? resource.key = some column) (takes : column.type.Takes key)
    (stored : Cell.IsStored column.type.affinity (row.cell resource.key)) (known : row.cell resource.key ≠ .null)
    (number : row.cell resource.key ≠ .real .notANumber) :
    resource.isFor key withDeleted row = (resource.isAt key.cell row && (withDeleted || resource.isLive row)) := by
  rw [isFor, Table.holds_takes found takes stored known number, isAt]

namespace Job

/-! ## Finding -/

section Find

variable {work : Work} {resource : Resource} {key : Json} {column : Column} (none : work.records = [])
  (found : resource.table.column? resource.key = some column) (takes : column.type.Takes key) (withDeleted : Bool)
include none found takes

/-- With nothing in hand, a key is looked for among the rows as they stand. -/
private theorem find_eq : (find resource key withDeleted).runOn work =
    (match ((work.database.rows resource.table.name).filter (resource.isFor key withDeleted)).map fun row => [row] with
      | [] => fail (.notFound resource.name key)
      | [frame] => do
        let values ← resource.table.columns.mapM fun column => do
          return (column.name, ← Job.of (Value.ofCell column.type ((frame.headD []).cell column.name)))
        takeRow resource.table values
      | _ => fail (.storage .severalRows) : Job Nat).runOn work := by
  have has : resource.table.hasColumn resource.key = true := by rw [Table.hasColumn, found]; rfl
  obtain ⟨bound, made, accepted⟩ := takes.accepted (resource.table.ref 0 0 resource.key)
  have bounds : Query.allBounds (.compare .equal (resource.table.ref 0 0 resource.key) bound ::
      if withDeleted then [] else Related.alive resource 0) = [bound] := by
    cases withDeleted with
    | true => rfl
    | false =>
      unfold Related.alive
      cases resource.deletedAt <;> rfl
  have wrote : writeAll.runOn work = (.ok (), work) := by
    rw [writeAll_runOn, none]
    rfl
  unfold find
  dsimp only
  rw [if_neg (by simp [has]), bind_runOn, of_runOn, made]
  dsimp only
  rw [bind_runOn, unattributed_runOn wrote]
  dsimp only
  rw [bind_runOn, of_runOn, bounds, accepted]
  dsimp only
  rw [bind_runOn, database_runOn]
  dsimp only
  rw [matching_eq made]
  rfl

theorem find_runOn_none (absent : (work.database.rows resource.table.name).filter (resource.isFor key withDeleted) = []) :
    (find resource key withDeleted).runOn work = (.error (.notFound resource.name key), work) := by
  rw [find_eq none found takes, absent]
  rfl

theorem find_runOn_one {row : Row} {values : Values}
    (alone : (work.database.rows resource.table.name).filter (resource.isFor key withDeleted) = [row])
    (read : resource.table.read row = .ok values) :
    (find resource key withDeleted).runOn work = (.ok work.next, { work with
      records := [(work.next, ⟨resource.table, values, values, true⟩)], next := work.next + 1 }) := by
  have looked (column : Column) : (do
      return (column.name, ← Job.of (Value.ofCell column.type (row.cell column.name))) : Job (String × Value)).runOn
        work = (do return (column.name, ← Value.ofCell column.type (row.cell column.name)), work) := by
    rw [bind_runOn, of_runOn]
    cases Value.ofCell column.type (row.cell column.name) <;> rfl
  have valued := mapM_runOn looked resource.table.columns
  rw [← Table.read, read] at valued
  rw [find_eq none found takes, alone]
  simp only [List.map_cons, List.map_nil, List.headD_cons]
  rw [bind_runOn, valued]
  dsimp only
  unfold takeRow
  rw [bind_runOn, get_runOn]
  simp only [none, List.find?_nil]
  change ((.ok work.next, { work with
    records := work.records ++ [(work.next, ⟨resource.table, values, values, true⟩)], next := work.next + 1 }) :
      Except Failure Nat × Work) = _
  rw [none, List.nil_append]

end Find

end Job

/-! ## Writing -/

/-- What is taken of a list is what is taken of the one item that something is taken of. -/
private theorem filterMap_eq_toList {α β : Type} {f : α → Option β} {items : List α} {item : α} (nodup : items.Nodup)
    (listed : item ∈ items) (others : ∀ other ∈ items, other ≠ item → f other = none) :
    items.filterMap f = (f item).toList := by
  obtain ⟨before, later, rfl⟩ := List.append_of_mem listed
  rw [List.nodup_append, List.nodup_cons] at nodup
  obtain ⟨-, ⟨notLater, -⟩, notBefore⟩ := nodup
  have nothing (part : List α) (inside : ∀ other ∈ part, f other = none) : part.filterMap f = [] :=
    List.filterMap_eq_nil_iff.2 inside
  rw [List.filterMap_append, List.filterMap_cons, nothing before fun other there => others other
    (List.mem_append_left _ there) (notBefore other there item List.mem_cons_self),
    nothing later fun other there => others other (List.mem_append_right _ (.tail _ there)) (by
      rintro rfl
      exact notLater there)]
  cases f item <;> rfl

/-- A table whose rows are as the storage keeps them: each fits, and they stand in the order of their places. -/
structure Database.Stands (database : Database) (table : Table) : Prop where
  keeps : database.Keeps table
  keyed : table.keyColumns ≠ []
  fits : ∀ row ∈ database.rows table.name, StoredTable.Fits table row
  placed : StoredTable.Placed table (database.rows table.name)

/-- The cells by which a row is found. -/
def Table.keysOf (table : Table) (row : Row) : List (String × Cell) :=
  table.keyColumns.map fun column => (column.name, row.cell column.name)

section Shown

variable {database : Database} {record : Record} {row other : Row} (shows : record.Shows row)
  (stands : database.Stands record.table) (inside : row ∈ database.rows record.table.name)
include shows stands inside

/-- What was read of the key of a row is written as its cells. -/
theorem Record.Shows.cells_keys :
    Value.cells (record.table.keyColumns.map fun column => (column, record.value column.name)) =
      .ok (record.table.keysOf row) := by
  refine Value.cells_eq_ok.2 ?_
  rw [Table.keysOf, List.forall₂_map_left_iff, List.forall₂_map_right_iff, List.forall₂_same]
  intro column listed
  have there := Table.mem_of_mem_keyColumns listed
  exact ⟨rfl, stands.keeps.returns row inside column there _ (shows.value_eq stands.keeps there).1⟩

/-- By its key a row is found, and no other one. -/
theorem Record.Shows.isRowOf_iff (there : other ∈ database.rows record.table.name) :
    Job.isRowOf record (record.table.keysOf row) other = true ↔ other = row := by
  have cells := shows.cells_keys stands inside
  rw [stands.keeps.orderly.isRowOf_iff stands.keyed inside there cells fun column listed made written =>
    shows.countsAs stands.keeps.orderly inside (Table.mem_of_mem_keyColumns listed)
      (stands.keeps.returns row inside column (Table.mem_of_mem_keyColumns listed)) written]
  refine and_iff_left fun column listed => ?_
  have known := (stands.fits row inside).known column (Table.mem_of_mem_keyColumns listed)
    (by simp [List.of_mem_filter listed])
  have nodup : (record.table.keyColumns.map (·.name)).Nodup := stands.keeps.nodup.sublist (List.filter_sublist.map _)
  have held : Row.cell (record.table.keysOf row) column.name = row.cell column.name := by
    have listedKeys : (column.name, row.cell column.name) ∈ record.table.keysOf row :=
      List.mem_map.2 ⟨column, listed, rfl⟩
    have distinct : ((record.table.keysOf row).map (·.1)).Nodup := by
      rw [Table.keysOf, List.map_map]
      exact nodup
    rw [Row.cell, lookup_of_mem distinct listedKeys]
    rfl
  exact ⟨known, held ▸ known⟩

/-- Setting one column of a record that shows a row changes that column, unless it has the value already. -/
theorem Record.Shows.changes_set {column : Column} (listed : column ∈ record.table.columns) (value : Value) :
    (record.set column.name value).changes =
      if value.same (record.value column.name) then [] else [(column, value)] := by
  have known (name : String) : (record.set column.name value).value? name =
      if name = column.name then some value else record.value? name := Record.lookup_put _ _ _
  have nodup : record.table.columns.Nodup := List.Nodup.of_map _ stands.keeps.nodup
  have held {other : Column} (there : other ∈ record.table.columns) :
      record.value? other.name = some (record.value other.name) := (shows.value_eq stands.keeps there).2
  have kept {other : Column} (there : other ∈ record.table.columns) :
      (record.set column.name value).kept.lookup other.name = some (record.value other.name) := by
    rw [← held there]
    exact congrArg (List.lookup other.name) shows.kept
  have table : (record.set column.name value).table = record.table := rfl
  rw [Record.changes, table, filterMap_eq_toList nodup listed]
  · rw [known, if_pos rfl, kept listed]
    cases same : value.same (record.value column.name) <;> simp [same]
  · intro other there apart
    have unlike : other.name ≠ column.name := fun same =>
      apart (List.inj_on_of_nodup_map stands.keeps.nodup there listed same)
    have same := (stands.keeps.returns row inside other there).same_self (shows.value_eq stands.keeps there).1
    rw [known, if_neg unlike, held there, kept there]
    simp [same]

end Shown

/-- A column in which a row may be without a value. -/
structure Column.IsFree (column : Column) : Prop where
  notKey : column.isKey = false
  nullable : column.isNullable = true

section Marked

variable {table : Table} {row : Row} {column : Column} (nodup : table.columnNames.Nodup) (listed : column ∈ table.columns)
  (free : column.IsFree)
include nodup listed free

theorem Column.IsFree.ne {other : Column} (there : other ∈ table.columns) (needed : (!other.isNullable || other.isKey) = true) :
    other.name ≠ column.name := by
  intro same
  obtain rfl : other = column := List.inj_on_of_nodup_map nodup there listed same
  simp [free.notKey, free.nullable] at needed

/-- A row that fits a table fits it with any cell in a column that may be without a value. -/
theorem StoredTable.Fits.mark (fits : Fits table row) (cell : Cell) : Fits table (row.mark column.name cell) where
  place place found := by
    have keyed := isKey_of_placeColumn? found
    rw [Row.cell_mark_other (free.ne nodup listed (Table.mem_of_mem_keyColumns keyed) (by simp [List.of_mem_filter keyed]))]
    exact fits.place place found
  known other there needed := by
    rw [Row.cell_mark_other (free.ne nodup listed there needed)]
    exact fits.known other there needed

theorem Table.keys_mark (cell : Cell) {key : Column} (keyed : key ∈ table.keyColumns) :
    (row.mark column.name cell).cell key.name = row.cell key.name :=
  Row.cell_mark_other (free.ne nodup listed (Table.mem_of_mem_keyColumns keyed) (by simp [List.of_mem_filter keyed])) _ _

end Marked

/-- What was read of the key still finds the row after a column was set that is not of the key. -/
theorem Record.Shows.keyValues_set {record : Record} {row : Row} (shows : record.Shows row)
    (nodup : record.table.columnNames.Nodup) {column : Column} (listed : column ∈ record.table.columns)
    (free : column.IsFree) (value : Value) :
    (record.table.keyColumns.map fun key => (key, (record.set column.name value).keyValue key.name)) =
      record.table.keyColumns.map fun key => (key, record.value key.name) := by
  refine List.map_congr_left fun key keyed => ?_
  have apart := free.ne nodup listed (Table.mem_of_mem_keyColumns keyed) (by simp [List.of_mem_filter keyed])
  have known : (record.set column.name value).value key.name = record.value key.name := by
    have looked : (Record.put column.name value record.values).lookup key.name = _ := Record.lookup_put _ _ _
    rw [if_neg apart] at looked
    exact congrArg (Option.getD · .null) looked
  have kept : ((record.set column.name value).kept.lookup key.name).getD .null = record.value key.name :=
    congrArg (fun values : Values => (values.lookup key.name).getD .null) shows.kept
  simp only [Record.keyValue, known, kept, ite_self]

/-- A database in which one row of a table has another cell in one column. -/
def Database.marked (database : Database) (table : Table) (row : Row) (column : String) (cell : Cell) : Database :=
  database.set ⟨table, (database.rows table.name).map fun other => if other = row then row.mark column cell else other⟩

namespace Job

section Written

variable {work : Work} {number : Nat} {record : Record} {row : Row} (shows : record.Shows row)
  (stands : work.database.Stands record.table) (inside : row ∈ work.database.rows record.table.name)
include shows stands inside

section Set

variable {column : Column} (listed : column ∈ record.table.columns) (free : column.IsFree) {value : Value} {made : Cell}
  (written : value.cellFor column = .ok made) (records : work.records = [(number, record.set column.name value)])
include listed free written records

/-- Writing a record in which a column was set to another value: the row takes what the column makes of the value. -/
private theorem writeChanges_other (other : value.same (record.value column.name) = false) :
    (writeChanges number).runOn work = (.ok (), { work with
      database := work.database.marked record.table row column.name (made.stored column.type.affinity)
      records := [(number, (record.set column.name value).settled)] }) := by
  have found : work.records.lookup number = some (record.set column.name value) := by simp [records]
  have nodup := stands.keeps.nodup
  have changes : (record.set column.name value).changes = [(column, value)] := by
    rw [shows.changes_set stands inside listed, other]
    rfl
  have keys := shows.keyValues_set stands.keeps.nodup listed free value
  have cells : Value.cells ([(column, value)] ++ record.table.keyColumns.map fun key =>
      (key, (record.set column.name value).keyValue key.name)) =
      .ok ((column.name, made) :: record.table.keysOf row) := by
    rw [keys]
    exact Value.cells_eq_ok.2 (.cons ⟨rfl, written⟩ (Value.cells_eq_ok.1 (shows.cells_keys stands inside)))
  have chosen (other : Row) (there : other ∈ work.database.rows record.table.name) :
      isRowOf (record.set column.name value) (record.table.keysOf row) other = true ↔ other = row :=
    shows.isRowOf_iff stands inside there
  have some : (work.database.rows record.table.name).any
      (isRowOf (record.set column.name value) (record.table.keysOf row)) = true :=
    List.any_eq_true.2 ⟨row, inside, (chosen row inside).2 rfl⟩
  have full := stands.keeps.full row inside
  have new := Table.fullRow_update_single nodup full listed made
  have fits : StoredTable.Fits record.table (record.table.fullRow (row.update [(column.name, made)])) :=
    new ▸ (stands.fits row inside).mark nodup listed free _
  have updated := Database.update_of_stored stands.keeps.stores (StoredTable.update_single stands.keeps.distinct
    stands.placed chosen fits fun key keyed => new ▸ Table.keys_mark nodup listed free _ keyed)
  rw [new] at updated
  unfold writeChanges
  rw [bind_runOn, record_runOn found]
  have stored : (record.set column.name value).isStored = true := shows.stored
  have table : (record.set column.name value).table = record.table := rfl
  simp only [stored, Bool.not_true, Bool.false_eq_true, if_false, changes, List.isEmpty_cons, Bool.not_false, if_true, table,
    bind_runOn, of_runOn, cells, List.length_singleton, List.drop_succ_cons, List.drop_zero, database_runOn, some,
    List.take_succ_cons, List.take_zero]
  rw [Job.stored, of_runOn, updated]
  simp only [Except.mapError]
  rw [setDatabase, modify_runOn]
  simp only [setRecord_runOn, records, List.map_cons, beq_self_eq_true, if_true, List.map_nil]
  rfl

/-- Writing a record in which a column was set: the row takes what the column makes of the value, which may be what it
holds already. -/
theorem writeAll_set (distinct : (work.database.tables.map (·.table.name)).Nodup)
    (already : value.same (record.value column.name) = true → made.stored column.type.affinity = row.cell column.name) :
    writeAll.runOn work = (.ok (), { work with
      database := work.database.marked record.table row column.name (made.stored column.type.affinity)
      records := [(number, (record.set column.name value).settled)] }) := by
  suffices wrote : (writeChanges number).runOn work = (.ok (), { work with
      database := work.database.marked record.table row column.name (made.stored column.type.affinity)
      records := [(number, (record.set column.name value).settled)] }) by
    rw [writeAll_runOn, records, List.forIn_cons, bind_runOn, bind_runOn, wrote]
    rfl
  cases same : value.same (record.value column.name) with
  | false => exact writeChanges_other shows stands inside listed free written records same
  | true =>
    have found : work.records.lookup number = some (record.set column.name value) := by simp [records]
    have changes : (record.set column.name value).changes = [] := by
      rw [shows.changes_set stands inside listed, same]
      rfl
    have still : work.database.marked record.table row column.name (made.stored column.type.affinity) = work.database := by
      have each : (work.database.rows record.table.name).map (fun other =>
          if other = row then row.mark column.name (made.stored column.type.affinity) else other) =
            work.database.rows record.table.name := by
        refine (List.map_congr_left fun other _ => ?_).trans (List.map_id _)
        split
        · next own =>
          rw [already same, Table.mark_self stands.keeps.nodup (stands.keeps.full row inside) listed, own]
          rfl
        · rfl
      rw [Database.marked, each, Database.set_self stands.keeps.stores distinct]
    unfold writeChanges
    rw [bind_runOn, record_runOn found]
    have stored : (record.set column.name value).isStored = true := shows.stored
    simp only [stored, Bool.not_true, Bool.false_eq_true, if_false, changes, List.isEmpty_nil, setRecord_runOn, records,
      List.map_cons, beq_self_eq_true, if_true, List.map_nil, still]

end Set

/-- Removing a record: its row goes, and the others stay. -/
theorem remove_runOn (records : work.records = [(number, record)]) : (remove number).runOn work = (.ok (), { work with
    database := work.database.set ⟨record.table, (work.database.rows record.table.name).filter (· ≠ row)⟩ }) := by
  have found : work.records.lookup number = some record := by simp [records]
  have chosen (other : Row) (there : other ∈ work.database.rows record.table.name) :
      isRowOf record (record.table.keysOf row) other = true ↔ other = row :=
    shows.isRowOf_iff stands inside there
  have keys : keyCells record = .ok (record.table.keysOf row) := by
    rw [keyCells, ← shows.cells_keys stands inside]
    refine congrArg Value.cells (List.map_congr_left fun key keyed => ?_)
    have there := Table.mem_of_mem_keyColumns keyed
    rw [shows.kept, (shows.value_eq stands.keeps there).2]
    rfl
  have some : (work.database.rows record.table.name).any (isRowOf record (record.table.keysOf row)) = true :=
    List.any_eq_true.2 ⟨row, inside, (chosen row inside).2 rfl⟩
  have deleted := Database.delete_of_stored (isRowOf record (record.table.keysOf row)) stands.keeps.stores
  have others : (work.database.rows record.table.name).filter (!isRowOf record (record.table.keysOf row) ·) =
      (work.database.rows record.table.name).filter (· ≠ row) :=
    List.filter_congr fun other there => by rw [Bool.eq_iff_iff]; simp [← chosen other there]
  unfold remove
  rw [bind_runOn, record_runOn found]
  simp only [bind_runOn, of_runOn, keys, database_runOn, some, Bool.not_true, Bool.false_eq_true, if_false]
  rw [Job.stored, of_runOn, deleted, others]
  rfl

end Written

/-! ## Sessions -/

variable {α : Type} {work after : Work} {resource : Resource} {key : Json}

/-- Showing a record cannot fail. -/
private theorem exposed_runOn {number : Nat} {record : Record} (found : work.records.lookup number = some record)
    (operation : String) : ∃ result, (Operations.exposed resource number key operation).runOn work = (.ok result, work) := by
  unfold Operations.exposed
  rw [bind_runOn, record_runOn found]
  exact ⟨_, rfl⟩

/-- A record in hand is set in one column and written: its row has another cell there. -/
private theorem set_runOn {number : Nat} {record : Record} {row : Row} (shows : record.Shows row)
    (records : work.records = [(number, record)]) (stands : work.database.Stands record.table)
    (inside : row ∈ work.database.rows record.table.name) (distinct : (work.database.tables.map (·.table.name)).Nodup)
    {set : Column} (listed : set ∈ record.table.columns) (free : set.IsFree) {value : Value} {made : Cell}
    (written : value.cellFor set = .ok made)
    (already : value.same (record.value set.name) = true → made.stored set.type.affinity = row.cell set.name)
    (operation : String) : ∃ result after, (do
        setValues number [(set.name, value)]
        writeAll
        Operations.exposed resource number key operation).runOn work = (.ok result, after) ∧ after.opened = work.opened ∧
      after.database = work.database.marked record.table row set.name (made.stored set.type.affinity) := by
  have found : work.records.lookup number = some record := by simp [records]
  have holds : (setValues number [(set.name, value)]).runOn work =
      (.ok (), { work with records := [(number, record.set set.name value)] }) := by
    rw [setValues_runOn found, records]
    simp
  have wrote := @writeAll_set { work with records := [(number, record.set set.name value)] } number record row shows stands
    inside set listed free value made written rfl distinct already
  have kept : [(number, (record.set set.name value).settled)].lookup number = some (record.set set.name value).settled := by
    simp
  obtain ⟨result, shown⟩ := @exposed_runOn { work with
    database := work.database.marked record.table row set.name (made.stored set.type.affinity)
    records := [(number, (record.set set.name value).settled)] } resource key number _ kept operation
  rw [bind_runOn, holds]
  dsimp only
  rw [bind_runOn, wrote]
  exact ⟨result, _, shown, rfl, rfl⟩

/-- A state in which one record has come in hand. -/
private def holding (work : Work) (record : Record) (calls : List PolicyCall) : Work :=
  { work with records := [(work.next, record)], next := work.next + 1, calls }

private theorem lookup_holding (record : Record) (calls : List PolicyCall) :
    (holding work record calls).records.lookup work.next = some record := by simp [holding]

section Asked

variable (none : work.records = []) {column : Column} (found : resource.table.column? resource.key = some column)
  (takes : column.type.Takes key) (withDeleted : Bool) (context : Context) (action : Action)
include none found takes

/-- Nothing is done with a record that is not found. -/
theorem asked_runOn_none (absent : (work.database.rows resource.table.name).filter (resource.isFor key withDeleted) = [])
    (next : Nat → Job α) : (do
      let number ← find resource key withDeleted
      authorize context action resource (some (← keyOf resource number))
      next number : Job α).runOn work = (.error (.notFound resource.name key), work) := by
  rw [bind_runOn, find_runOn_none none found takes withDeleted absent]

variable (allowed : ∀ key, context.allows action resource key = true) {row : Row} {values : Values}
  (alone : (work.database.rows resource.table.name).filter (resource.isFor key withDeleted) = [row])
  (read : resource.table.read row = .ok values)
include allowed alone read

/-- What is done with a record that is found, by one who may do it. -/
private theorem asked_runOn_one (next : Nat → Job α) : ∃ calls, (do
      let number ← find resource key withDeleted
      authorize context action resource (some (← keyOf resource number))
      next number : Job α).runOn work =
        (next work.next).runOn (holding work ⟨resource.table, values, values, true⟩ calls) := by
  have taken : [(work.next, (⟨resource.table, values, values, true⟩ : Record))].lookup work.next =
      some ⟨resource.table, values, values, true⟩ := by simp
  rw [bind_runOn, find_runOn_one none found takes withDeleted alone read]
  dsimp only
  rw [bind_runOn, keyOf_runOn resource taken]
  dsimp only
  rw [bind_runOn, authorize_runOn, if_pos (allowed _)]
  exact ⟨_, rfl⟩

variable (stands : work.database.Stands resource.table) (inside : row ∈ work.database.rows resource.table.name)
include stands inside

/-- A record that is found is set in one column and written: its row has another cell there. -/
theorem asked_runOn_set (distinct : (work.database.tables.map (·.table.name)).Nodup) {set : Column}
    (listed : set ∈ resource.table.columns) (free : set.IsFree) {value held : Value} {made : Cell}
    (written : value.cellFor set = .ok made) (holds : Value.ofCell set.type (row.cell set.name) = .ok held)
    (already : value.same held = true → made.stored set.type.affinity = row.cell set.name) (operation : String) :
    ∃ result after, (do
        let number ← find resource key withDeleted
        authorize context action resource (some (← keyOf resource number))
        setValues number [(set.name, value)]
        writeAll
        Operations.exposed resource number key operation).runOn work = (.ok result, after) ∧ after.opened = work.opened ∧
      after.database = work.database.marked resource.table row set.name (made.stored set.type.affinity) := by
  have shows : Record.Shows ⟨resource.table, values, values, true⟩ row := ⟨rfl, rfl, read⟩
  obtain rfl := Except.ok.inj ((shows.value_eq stands.keeps listed).1.symm.trans holds)
  obtain ⟨calls, asks⟩ := asked_runOn_one none found takes withDeleted context action allowed alone read fun number => do
    setValues number [(set.name, value)]
    writeAll
    Operations.exposed resource number key operation
  have inHand : (holding work ⟨resource.table, values, values, true⟩ calls).records =
    [(work.next, ⟨resource.table, values, values, true⟩)] := rfl
  rw [asks]
  exact set_runOn shows inHand stands inside distinct listed free written already operation

/-- A record that is found is removed: its row goes, and the others stay. -/
theorem asked_runOn_remove (operation : String) : ∃ result after, (do
        let number ← find resource key withDeleted
        authorize context action resource (some (← keyOf resource number))
        let result ← Operations.exposed resource number key operation
        remove number
        return result).runOn work = (.ok result, after) ∧ after.opened = work.opened ∧
      after.database = work.database.set ⟨resource.table, (work.database.rows resource.table.name).filter (· ≠ row)⟩ := by
  have shows : Record.Shows ⟨resource.table, values, values, true⟩ row := ⟨rfl, rfl, read⟩
  obtain ⟨calls, asks⟩ := asked_runOn_one none found takes withDeleted context action allowed alone read fun number => do
    let result ← Operations.exposed resource number key operation
    remove number
    return result
  obtain ⟨result, shown⟩ := exposed_runOn (lookup_holding ⟨resource.table, values, values, true⟩ calls) operation
  rw [asks, bind_runOn, shown]
  dsimp only
  rw [bind_runOn, @remove_runOn (holding work ⟨resource.table, values, values, true⟩ calls) work.next _ row shows stands inside
    rfl]
  exact ⟨result, _, rfl, rfl, rfl⟩

end Asked

section Session

variable {context : Context} {name : String} (named : context.graph.get? name = some resource)
  {body : Resource → Job α} {steps : Job α} {event : Event} {result : α} {failure : Failure}
  (whole : body resource = do
    let result ← transaction steps
    tell event
    return result)
include named whole

/-- A session in which a transaction goes through keeps what was stored, and has nothing in hand any more. -/
theorem alone_runOn_ok (ran : steps.runOn { work with opened := none } = (.ok result, after))
    (still : after.opened = none) : ∃ last, (alone (Job.resource context name >>= body)).runOn work = (.ok result, last) ∧
      last.records = [] ∧ last.database = after.database := by
  have inner : (Job.resource context name >>= body).runOn { work with opened := none } =
      (.ok result, { after with records := [], events := after.events ++ [event] }) := by
    rw [bind_runOn, Job.resource, named]
    change (body resource).runOn _ = _
    rw [whole, bind_runOn, transaction_runOn, ran]
    rfl
  refine ⟨_, congrArg (fun ended : Except Failure α × Work =>
    (ended.1, { ended.2.rollback with opened := work.opened })) inner, rfl, ?_⟩
  rw [Work.rollback]
  simp [still]

/-- A session in which a transaction fails leaves what was stored as it was. -/
theorem alone_runOn_error (ran : steps.runOn { work with opened := none } = (.error failure, after))
    (still : after.opened = none) : ∃ last,
      (alone (Job.resource context name >>= body)).runOn work = (.error failure, last) ∧
        last.records = [] ∧ last.database = work.database := by
  have inner : (Job.resource context name >>= body).runOn { work with opened := none } = (.error failure, { after with
      database := work.database, records := [], events := after.events ++ [.rolledBack failure] }) := by
    rw [bind_runOn, Job.resource, named]
    change (body resource).runOn _ = _
    rw [whole, bind_runOn, transaction_runOn, ran]
  refine ⟨_, congrArg (fun ended : Except Failure α × Work =>
    (ended.1, { ended.2.rollback with opened := work.opened })) inner, rfl, ?_⟩
  rw [Work.rollback]
  simp [still]

end Session

end Job

end ResourceApi
