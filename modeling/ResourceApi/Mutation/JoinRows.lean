import ResourceApi.Session.Records

/-!
Rows of join tables: the ones that link a record to others, and how they are added, changed and removed.
-/

namespace ResourceApi

/-- The rows of a join table that belong to one record. -/
structure JoinRows where
  link : PivotLink
  /-- Columns that say which record it is, with their values. -/
  owner : Values
  deriving Inhabited

namespace JoinRows

/-- The rows that link a record: its key, and for a polymorphic link the type of one side, which stands in the place of the
key if one column is declared for both. -/
def ofRecord (resource target : Resource) (link : PivotLink) (record : Record) : JoinRows :=
  let key := [(link.foreignKey, record.value link.localKey)]
  match link.morph with
  | none => ⟨link, key⟩
  | some (column, owner) =>
    ⟨link, Record.put column (.plain (if owner = .parent then resource.morphAlias else target.morphAlias)) key⟩

def column (rows : JoinRows) (name : String) : ColumnRef := rows.link.table.ref 0 0 name

/-- Conditions for the rows of the record. -/
def owned (rows : JoinRows) : Except Failure (List Cond) :=
  rows.owner.mapM fun (name, value) => Cond.ofComparison .equal (rows.column name) value.compared

/-- Conditions for the rows that link the record to some others. -/
def linking (rows : JoinRows) (keys : List Value) : Except Failure (List Cond) := do
  let related ← Cond.ofComparison .isIn (rows.column rows.link.relatedKey) (.list (keys.map Value.compared))
  return (← rows.owned) ++ [related]

/-- Whether a row meets conditions. -/
def meets (database : Database) (conditions : List Cond) (row : Row) : Bool :=
  Truth.holds (Truth.all (Query.truths ⟨database.rows, []⟩ [[row]] conditions))

/-- Values for columns; a name that is no column is refused. -/
def assigned (rows : JoinRows) (values : List (String × Value)) : Except Failure (List (Column × Value)) :=
  values.mapM fun (name, value) =>
    match rows.link.table.column? name with
    | some column => .ok (column, value)
    | none => .error (.storage (.unknownColumn name))

/-- Adds a row that links the record to another; no column may be given twice. -/
def add (rows : JoinRows) (related : Value) (extra : Members) : Job Unit := do
  let given := rows.owner ++ (rows.link.relatedKey, related) :: extra.map fun (name, j) => (name, Value.plain j)
  let names := given.map (·.1)
  if names.any fun name => 1 < names.count name then Job.fail (.fault .unsuitableValue)
  let assigned ← Job.of (rows.assigned given)
  let defaults := rows.link.table.columns.filterMap fun column =>
    if names.contains column.name || column.default.isNull then none else some (column, Value.plain column.default)
  let cells ← Job.of (Value.cells (assigned ++ defaults))
  let (database, _) ← Job.stored ((← Job.database).insert rows.link.table.name cells)
  Job.setDatabase database

/-- Changes the rows that link the record to another. -/
def change (rows : JoinRows) (related : Value) (extra : Members) : Job Unit := do
  let conditions ← Job.of (rows.linking [related])
  let assigned ← Job.of (rows.assigned (extra.map fun (name, j) => (name, Value.plain j)))
  let cells ← Job.of (Value.cells assigned)
  Job.of (Bound.acceptAll (Query.allBounds conditions))
  let database ← Job.database
  Job.setDatabase (← Job.stored (database.update rows.link.table.name (meets database conditions) cells))

/-- Removes the rows that link the record to some others. -/
def remove (rows : JoinRows) (related : List Value) : Job Unit := do
  let conditions ← Job.of (rows.linking related)
  Job.of (Bound.acceptAll (Query.allBounds conditions))
  let database ← Job.database
  Job.setDatabase (← Job.stored (database.delete rows.link.table.name (meets database conditions)))

/-- The keys of the records that the record is linked to, each once. -/
def relatedKeys (rows : JoinRows) : Job (List Value) := do
  let conditions ← Job.of rows.owned
  Job.of (Bound.acceptAll (Query.allBounds conditions))
  let database ← Job.database
  let found := (database.rows rows.link.table.name).filter (meets database conditions)
  let column := rows.column rows.link.relatedKey
  let keys ← found.mapM fun row => Job.of (Value.ofCell column.type (row.cell column.name))
  return keys.foldl (fun kept key => if kept.any key.same then kept else kept ++ [key]) []

end JoinRows

/-- Keys in ascending order, numbers before texts. -/
def sortedKeys (keys : List Value) : List Value :=
  let cell (key : Value) : Cell := Bound.cell ⟨.integer, key.compared⟩
  keys.mergeSort fun a b => Cell.order (cell a) (cell b) != .gt

end ResourceApi
