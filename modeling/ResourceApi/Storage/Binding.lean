import ResourceApi.Number.Numeral
import ResourceApi.Number.Word
import ResourceApi.Query.Basic
import ResourceApi.Storage.Cell
import ResourceApi.Storage.Moment

/-!
Handing values to the storage and reading them back. First every value of a statement is brought into the form of its
type, then the statement takes them one by one; either step can refuse.
-/

namespace ResourceApi

namespace Bound

/-- The value in the form of its type. -/
def formed (bound : Bound) : Except Failure Json :=
  match bound.type, bound.value with
  | .integer, value | .string, value => .ok value
  | _, .null => .ok .null
  | .float, .double d => .ok (.double d)
  | .float, .text s =>
    match Double.ofText? s with
    | some d => .ok (.double d)
    | none => .error (.storage .statement)
  | .float, value =>
    match value.integer?.map Double.ofInt with
    | some (.finite negative significand exponent) => .ok (.double (.finite negative significand exponent))
    | _ => .error (.storage .statement)
  | .boolean, value =>
    if value.sameScalar (.int 0) then .ok (.int 0)
    else if value.sameScalar (.int 1) then .ok (.int 1)
    else .error (.storage .statement)
  | .datetime, _ => .error (.storage .statement)

end Bound

/-- The cell of a value in the form of its type. -/
def Cell.ofJson : Json → Except Failure Cell
  | .null => .ok .null
  | .bool b => .ok (.int (if b then 1 else 0))
  | .int n => if Word.holds n then .ok (.int n) else .error (.fault .integerTooLarge)
  | .double .notANumber => .ok .null
  | .double d => .ok (.real d)
  | .text s => .ok (.text s)
  | .list _ | .object _ => .error (.storage .statement)

/-- The cell of a value that the storage takes. -/
def Bound.cell? (bound : Bound) : Except Failure Cell := do Cell.ofJson (← bound.formed)

/-- The cell of a value, null if it is refused. -/
def Bound.cell (bound : Bound) : Cell :=
  match bound.cell? with
  | .ok cell => cell
  | .error _ => .null

/-- Whether the storage takes all the values of a statement: all have to be formed before the first is taken. -/
def Bound.acceptAll (bounds : List Bound) : Except Failure Unit := do
  let formed ← bounds.mapM Bound.formed
  for value in formed do
    discard (Cell.ofJson value)

/-- A cell of a column of some type as a value of a result. -/
def Cell.shown (type : ColumnType) (cell : Cell) : Except Failure Json :=
  match type, cell with
  | _, .null => .ok .null
  | .datetime, .text s =>
    match Moment.ofText? s with
    | some moment => .ok (.text moment)
    | none => .error (.fault .impossibleValue)
  | .datetime, _ => .error (.fault .unsuitableValue)
  | _, .int n => .ok (.int n)
  | _, .real d => .ok (.double d)
  | _, .text s => .ok (.text s)

/-- A cell as it is kept. -/
def Cell.json : Cell → Json
  | .null => .null
  | .int n => .int n
  | .real d => .double d
  | .text s => .text s

end ResourceApi
