import ResourceApi.Storage.Cell

/-!
Databases as values: tables with their rows in order. Rows of a table with a single integer key stand in the order of
that key, those of the others in the order in which they came.
-/

namespace ResourceApi

/-- The cells of a row by column. -/
abbrev Row := List (String × Cell)

namespace Row

/-- The cell of a column. -/
def cell (row : Row) (column : String) : Cell := (row.lookup column).getD .null

/-- The row with some cells put in the place of the old ones. -/
def update (row : Row) (cells : List (String × Cell)) : Row :=
  row.map fun (name, old) => (name, (cells.lookup name).getD old)

end Row

structure StoredTable where
  table : Table
  rows : List Row := []
  deriving Repr, Inhabited

structure Database where
  tables : List StoredTable
  deriving Repr, Inhabited

namespace Table

/-- The column whose values are the places of the rows: a key of a single integer column. -/
def placeColumn? (table : Table) : Option Column :=
  match table.keyColumns with
  | [column] => if column.type = .integer then some column else none
  | _ => none

def isPlaceColumn (table : Table) (column : Column) : Bool :=
  (table.placeColumn?.map (·.name)) == some column.name

/-- A row with a cell for every column, made of what the columns make of the given cells. -/
def fullRow (table : Table) (cells : List (String × Cell)) : Row :=
  table.columns.map fun column =>
    (column.name, ((cells.lookup column.name).getD .null).stored column.type.affinity)

end Table

namespace StoredTable

/-- The next place: one after the last. -/
def nextPlace (stored : StoredTable) (column : String) : Int :=
  match stored.rows.filterMap fun row => match row.cell column with
    | .int n => some n
    | _ => none with
  | [] => 1
  | first :: rest => rest.foldl max first + 1

/-- Whether two rows agree in all columns of the key. -/
def sameKey (table : Table) (a b : Row) : Bool :=
  !table.keyColumns.isEmpty && table.keyColumns.all fun column =>
    Cell.order (a.cell column.name) (b.cell column.name) == .eq

/-- What stands against a row among others: a place that is no integer, a missing value, a key that is taken. -/
def objection? (table : Table) (others : List Row) (row : Row) : Option StorageCause :=
  let misplaced := match table.placeColumn? with
    | some column => match row.cell column.name with
      | .int _ => false
      | _ => true
    | none => false
  if misplaced then some .statement
  else
    match table.columns.find? fun column => (!column.isNullable || column.isKey) && row.cell column.name == .null with
    | some column => some (.notNull table.name column.name)
    | none =>
      if others.any (sameKey table row) then some (.notUnique table.name (table.keyColumns.map (·.name))) else none

/-- Puts a row where its place is. -/
def place (stored : StoredTable) (row : Row) : List Row :=
  match stored.table.placeColumn? with
  | none => stored.rows ++ [row]
  | some column =>
    let before (other : Row) : Bool := Cell.order (other.cell column.name) (row.cell column.name) == .lt
    stored.rows.takeWhile before ++ row :: stored.rows.dropWhile before

/-- Adds a row; without a place it gets the next one. -/
def insert (stored : StoredTable) (cells : List (String × Cell)) : Except StorageCause (StoredTable × Row) :=
  let row := stored.table.fullRow cells
  let row := match stored.table.placeColumn? with
    | some column =>
      if row.cell column.name = .null then row.update [(column.name, .int (stored.nextPlace column.name))] else row
    | none => row
  match objection? stored.table stored.rows row with
  | some cause => .error cause
  | none => .ok ({ stored with rows := stored.place row }, row)

/-- Changes the rows that are chosen, one after the other. -/
def updateFrom (table : Table) (chosen : Row → Bool) (cells : List (String × Cell)) :
    List Row → List Row → Except StorageCause (List Row)
  | done, [] => .ok done.reverse
  | done, row :: rest =>
    if chosen row then
      let changed := table.fullRow (row.update cells)
      match objection? table (done ++ rest) changed with
      | some cause => .error cause
      | none => updateFrom table chosen cells (changed :: done) rest
    else updateFrom table chosen cells (row :: done) rest

/-- Puts rows in the order of their places. -/
def arranged (table : Table) (rows : List Row) : List Row :=
  match table.placeColumn? with
  | none => rows
  | some column => rows.mergeSort fun a b => Cell.order (a.cell column.name) (b.cell column.name) != .gt

/-- Changes cells in the rows that are chosen. -/
def update (stored : StoredTable) (chosen : Row → Bool) (cells : List (String × Cell)) :
    Except StorageCause StoredTable := do
  return { stored with rows := arranged stored.table (← updateFrom stored.table chosen cells [] stored.rows) }

def delete (stored : StoredTable) (chosen : Row → Bool) : StoredTable :=
  { stored with rows := stored.rows.filter (!chosen ·) }

end StoredTable

namespace Database

def empty (schema : Schema) : Database := ⟨schema.tables.map fun table => ⟨table, []⟩⟩

def table? (database : Database) (name : String) : Option StoredTable :=
  database.tables.find? (·.table.name == name)

def rows (database : Database) (name : String) : List Row := ((database.table? name).map (·.rows)).getD []

/-- The tables that differ, with their rows as they are now. -/
def changes (before now : Database) : List StoredTable :=
  now.tables.filter fun stored => stored.rows != before.rows stored.table.name

/-- Puts a table in the place of the one of its name. -/
def set (database : Database) (stored : StoredTable) : Database :=
  ⟨database.tables.map fun old => if old.table.name == stored.table.name then stored else old⟩

/-- Works on the table of a name. -/
def modifyTable {α : Type} (database : Database) (name : String)
    (change : StoredTable → Except StorageCause (StoredTable × α)) : Except StorageCause (Database × α) :=
  match database.table? name with
  | none => .error .statement
  | some stored => (change stored).map fun (stored, result) => (database.set stored, result)

def insert (database : Database) (name : String) (cells : List (String × Cell)) :
    Except StorageCause (Database × Row) :=
  database.modifyTable name (·.insert cells)

def update (database : Database) (name : String) (chosen : Row → Bool) (cells : List (String × Cell)) :
    Except StorageCause Database :=
  (database.modifyTable name fun stored => (stored.update chosen cells).map (·, ())).map (·.1)

def delete (database : Database) (name : String) (chosen : Row → Bool) : Except StorageCause Database :=
  (database.modifyTable name fun stored => .ok (stored.delete chosen, ())).map (·.1)

end Database

end ResourceApi
