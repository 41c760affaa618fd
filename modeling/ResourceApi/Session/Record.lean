import ResourceApi.Json.Equality
import ResourceApi.Storage.Binding
import ResourceApi.Storage.Database

/-!
Records in hand: what a piece of work knows of rows that it has loaded or is about to add.
-/

namespace ResourceApi

/-- A value of a record: one that was given or read, or a moment; a moment made by the service itself shows its zone. -/
inductive Value where
  | plain (value : Json)
  | moment (text : String) (zoned : Bool)
  deriving Repr, Inhabited

namespace Value

def null : Value := plain .null

def isNull : Value → Bool
  | plain .null => true
  | _ => false

/-- Equality of values, numbers being equal whatever their form. -/
def same : Value → Value → Bool
  | plain a, plain b => a.same b
  | moment a x, moment b y => a == b && x == y
  | _, _ => false

/-- A value in a result; `zone` is what stands behind a moment that shows its zone. -/
def json (zone : String) : Value → Json
  | plain value => value
  | moment text zoned => .text (if zoned then text ++ zone else text)

/-- A moment with a blank between its date and its time of day. -/
def spaced (text : String) : String := text.map fun c => if c = 'T' then ' ' else c

/-- A moment as the storage writes it. -/
def storedMoment (text : String) : String :=
  let plain := spaced text
  if plain.toList.contains '.' then plain else plain ++ ".000000"

/-- A value as it is compared with columns. -/
def compared : Value → Json
  | plain value => value
  | moment text _ => .text (storedMoment text)

/-- The value that a cell of a column is read as. -/
def ofCell (type : ColumnType) (cell : Cell) : Except Failure Value := do
  let shown ← cell.shown type
  match type, shown with
  | .datetime, .text text => return moment text false
  | _, _ => return plain shown

/-- A value in the form of the type of a column. Of a moment no number is made; columns that are not made for moments take
its text, with its zone if it shows one. -/
def formedFor (type : ColumnType) : Value → Except Failure Json
  | plain value => Bound.formed ⟨type.bindType, value⟩
  | moment text zoned =>
    match type with
    | .datetime => .ok (.text (storedMoment text))
    | .float => .error (.storage .statement)
    | .integer | .string => .ok (.text (spaced (if zoned then text ++ "+00:00" else text)))

/-- The cells of values for columns; all have to be formed before the first is taken. -/
def cells (values : List (Column × Value)) : Except Failure (List (String × Cell)) := do
  let formed ← values.mapM fun (column, value) => return (column.name, ← value.formedFor column.type)
  formed.mapM fun (name, j) => return (name, ← Cell.ofJson j)

end Value

/-- Values by column. -/
abbrev Values := List (String × Value)

/-- A row in hand. -/
structure Record where
  table : Table
  /-- What is known of it, changes included. -/
  values : Values
  /-- What was known when it was last read or written. -/
  kept : Values
  /-- Whether it stands in the table. -/
  isStored : Bool
  deriving Inhabited

namespace Record

def value? (record : Record) (column : String) : Option Value := record.values.lookup column

/-- The value of a column, null if it is not known. -/
def value (record : Record) (column : String) : Value := (record.value? column).getD .null

/-- Sets a value where it stands, or adds it. -/
def put (column : String) (value : Value) : Values → Values
  | [] => [(column, value)]
  | (name, old) :: rest => if name == column then (name, value) :: rest else (name, old) :: put column value rest

def set (record : Record) (column : String) (value : Value) : Record :=
  { record with values := put column value record.values }

/-- A record that is not stored yet. -/
def new (table : Table) : Record := ⟨table, [], [], false⟩

/-- The columns whose values have changed since the record was last read or written. -/
def changes (record : Record) : List (Column × Value) :=
  record.table.columns.filterMap fun column => do
    let value ← record.value? column.name
    match record.kept.lookup column.name with
    | some old => if value.same old then none else some (column, value)
    | none => some (column, value)

/-- The value of a column by which the row of a record is found to be changed: the one that is known now as long as it is
equal to the one that was kept, which may have another form. -/
def keyValue (record : Record) (column : String) : Value :=
  let kept := (record.kept.lookup column).getD .null
  if (record.value column).same kept then record.value column else kept

/-- Takes what is known now as what is stored. -/
def settled (record : Record) : Record := { record with kept := record.values, isStored := true }

/-- The values in the order of the columns. -/
def inOrder (record : Record) : Values :=
  record.table.columns.filterMap fun column => (record.value? column.name).map (column.name, ·)

/-- Whether a record stands for the row with some values. -/
def isOf (record : Record) (table : Table) (values : Values) : Bool :=
  record.isStored && record.table.name == table.name &&
    table.keyColumns.all fun column =>
      Value.same ((record.kept.lookup column.name).getD .null) ((values.lookup column.name).getD .null)

/-- Adds what was not known. -/
def complete (record : Record) (values : Values) : Record :=
  let missing (known : Values) : Values := values.filter fun entry => (known.lookup entry.1).isNone
  { record with values := record.values ++ missing record.values, kept := record.kept ++ missing record.values }

end Record

end ResourceApi
