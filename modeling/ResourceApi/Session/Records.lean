import ResourceApi.Query.Evaluation
import ResourceApi.Query.Related
import ResourceApi.Session.Work

/-!
Records in hand and the rows they stand for. A row that is found again while its record is in hand is that same record,
with what was set in it; changes are written before any search for a record.
-/

namespace ResourceApi.Job

/-- The record of a number. -/
def record (number : Nat) : Job Record := do
  return ((← get).records.lookup number).getD default

def setRecord (number : Nat) (record : Record) : Job Unit := modify fun work =>
  { work with records := work.records.map fun entry => if entry.1 == number then (number, record) else entry }

/-- Takes a record in hand. -/
def take (record : Record) : Job Nat := modifyGet fun work =>
  (work.next, { work with records := work.records ++ [(work.next, record)], next := work.next + 1 })

/-- Lets go of the record of a number. -/
def release (number : Nat) : Job Unit := modify fun work =>
  { work with records := work.records.filter (·.1 != number) }

/-- Lets go of all records taken in hand from a number on. -/
def releaseFrom (number : Nat) : Job Unit := modify fun work =>
  { work with records := work.records.filter (·.1 < number) }

/-- Sets values of a record. -/
def setValues (number : Nat) (values : Values) : Job Unit := do
  let record ← record number
  setRecord number (values.foldl (fun record entry => record.set entry.1 entry.2) record)

/-- Whether a row is the one that a record was read from or written to. -/
def isRowOf (record : Record) (keys : List (String × Cell)) (row : Row) : Bool :=
  record.table.keyColumns.all fun column =>
    Truth.holds (Query.compare .equal column.type.affinity (row.cell column.name) (Row.cell keys column.name))

/-- The cells by which the row of a record is found. -/
def keyCells (record : Record) : Except Failure (List (String × Cell)) :=
  Value.cells (record.table.keyColumns.map fun column => (column, (record.kept.lookup column.name).getD .null))

/-- Writes the changes of a stored record, if there are any. -/
def writeChanges (number : Nat) : Job Unit := do
  let record ← record number
  if !record.isStored then return
  let changes := record.changes
  if !changes.isEmpty then
    let cells ← Job.of (Value.cells (changes ++ record.table.keyColumns.map fun column =>
      (column, record.keyValue column.name)))
    let keys := cells.drop changes.length
    let database ← database
    if !(database.rows record.table.name).any (isRowOf record keys) then fail (.storage .statement)
    setDatabase (← stored (database.update record.table.name (isRowOf record keys) (cells.take changes.length)))
  setRecord number record.settled

/-- Writes the changes of all stored records in hand. -/
def writeAll : Job Unit := do
  for (number, _) in (← get).records do
    writeChanges number

/-- The columns of a new row with their values: null where nothing was given and there is no default. -/
def newValues (record : Record) : List (Column × Value) :=
  record.table.columns.map fun column =>
    let given := record.value column.name
    (column, if given.isNull then .plain column.default else given)

/-- Adds the row of a new record; what the storage fills in becomes known. -/
def add (number : Nat) : Job Unit := do
  let record ← record number
  let values := newValues record
  let cells ← Job.of (Value.cells values)
  let (database, row) ← stored ((← database).insert record.table.name cells)
  setDatabase database
  let filled := values.filter fun (column, value) => (record.value column.name).isNull && !value.isNull
  let placed ← match record.table.placeColumn? with
    | some column =>
      if (record.value column.name).isNull then do
        pure [(column.name, ← Job.of (Value.ofCell column.type (row.cell column.name)))]
      else pure []
    | none => pure []
  let known := (filled.map fun (column, value) => (column.name, value)) ++ placed
  setRecord number (known.foldl (fun record entry => record.set entry.1 entry.2) record).settled

/-- Writes everything: the changes of the records in hand, then a record that is new. -/
def flush (number : Nat) : Job Unit := do
  writeAll
  if !(← record number).isStored then add number

/-- Takes the row of some values in hand, as the record that it is already if there is one. -/
def takeRow (table : Table) (values : Values) : Job Nat := do
  match (← get).records.find? fun entry => entry.2.isOf table values with
  | some (number, record) =>
    setRecord number (record.complete values)
    return number
  | none => take ⟨table, values, values, true⟩

/-- A failure to write changes on the way to something else does not say which column is at fault. -/
def unattributed (job : Job Unit) : Job Unit := fun work =>
  match job work with
  | (.error (.storage _), after) => (.error (.storage .statement), after)
  | result => result

/-- Finds the record of a key, deleted ones included if they are asked for. -/
def find (resource : Resource) (key : Json) (withDeleted : Bool) : Job Nat := do
  let table := resource.table
  if !table.hasColumn resource.key then fail (.fault (.unknownEntry resource.key))
  let named ← Job.of (Cond.ofComparison .equal (table.ref 0 0 resource.key) key)
  let conditions := named :: if withDeleted then [] else Related.alive resource 0
  unattributed writeAll
  Job.of (Bound.acceptAll (Query.allBounds conditions))
  let database ← database
  match Query.matching ⟨database.rows, []⟩ [] (.table table.name) conditions with
  | [] => fail (.notFound resource.name key)
  | [frame] =>
    let row := frame.headD []
    let values ← table.columns.mapM fun column => do
      return (column.name, ← Job.of (Value.ofCell column.type (row.cell column.name)))
    takeRow table values
  | _ => fail (.storage .severalRows)

/-- Removes the row of a record. -/
def remove (number : Nat) : Job Unit := do
  let record ← record number
  let keys ← Job.of (keyCells record)
  let database ← database
  if !(database.rows record.table.name).any (isRowOf record keys) then fail (.storage .statement)
  setDatabase (← stored (database.delete record.table.name (isRowOf record keys)))

/-- The key of a record as policies see it. -/
def keyOf (resource : Resource) (number : Nat) : Job Json := do
  return ((← record number).value resource.key).json "+00:00"

end ResourceApi.Job
