import ResourceApi.Number.Digits
import ResourceApi.Number.Numeral
import ResourceApi.Number.Word
import ResourceApi.Schema.Table
import ResourceApi.Text.Pattern

/-!
Values as the storage keeps them. A column does not fix what is kept in it: by its affinity it turns numbers into texts
or texts into numbers where nothing is lost, and keeps the rest as it is.
-/

namespace ResourceApi

inductive Cell where
  | null
  | int (value : Int)
  | real (value : Double)
  | text (value : String)
  deriving Repr, DecidableEq, Inhabited

/-- What a column prefers to keep. -/
inductive Affinity where
  | integer | text | numeric | real
  deriving Repr, DecidableEq, Inhabited

def ColumnType.affinity : ColumnType → Affinity
  | .integer => .integer
  | .string => .text
  | .datetime => .numeric
  | .float => .real

def Affinity.isNumeric : Affinity → Bool
  | .text => false
  | _ => true

namespace Cell

/-- A real number that is an integer of a word, as that integer; no integer is made of a number that it would not be
read back as. -/
def wholeReal (d : Double) : Cell :=
  match d.toInt? with
  | some n => if Word.holds n && n != -Word.bound then .int n else .real d
  | none => .real d

/-- The number that a text is. -/
def ofNumberText? (s : String) : Option Cell :=
  (Numeral.ofText? s).map fun numeral =>
    let n : Int := if numeral.negative then -(numeral.digits : Int) else numeral.digits
    if numeral.isWhole && Word.holds n then .int n else .real numeral.toDouble

/-- Text of a cell; null has none. -/
def text? : Cell → Option String
  | .null => none
  | .int n => some (toString n)
  | .real d => some (DoubleFormat.stored.format d)
  | .text s => some s

/-- The number of a cell: a text counts by the number it begins with. -/
def toDouble : Cell → Double
  | .null => .zero
  | .int n => .ofInt n
  | .real d => d
  | .text s => ((Numeral.atStart? s.toList).map fun found => found.1.toDouble).getD .zero

/-- What a column with an affinity makes of a value. -/
def stored (affinity : Affinity) (cell : Cell) : Cell :=
  match affinity, cell with
  | .text, .int _ | .text, .real _ => (cell.text?.map Cell.text).getD .null
  | .integer, .real d | .numeric, .real d => wholeReal d
  | .real, .int n => .real (.ofInt n)
  | .integer, .text s | .numeric, .text s =>
    match ofNumberText? s with
    | some (.real d) => wholeReal d
    | some number => number
    | none => cell
  | .real, .text s =>
    match ofNumberText? s with
    | some number => .real number.toDouble
    | none => cell
  | _, _ => cell

/-! ## Comparing -/

/-- Rank of the kind of a cell: null before numbers before texts. What is not a number counts as null. -/
def rank : Cell → Nat
  | .null | .real .notANumber => 0
  | .int _ | .real _ => 1
  | .text _ => 2

/-- Order of cells: by kind, then numbers by value and texts by their characters. -/
def order (a b : Cell) : Ordering :=
  match a, b with
  | .int m, .int n => compare m n
  | .int m, .real d => ((d.compareInt? m).map .swap).getD (compare (rank (.int m)) (rank (.real d)))
  | .real d, .int n => (d.compareInt? n).getD (compare (rank (.real d)) (rank (.int n)))
  | .real d, .real e => (d.compare? e).getD (compare (rank (.real d)) (rank (.real e)))
  | .text s, .text t => compare s t
  | a, b => compare a.rank b.rank

/-- A text that is a number counts as that number against a numeric column. -/
def asNumber (cell : Cell) : Cell :=
  match cell with
  | .text s => (ofNumberText? s).getD cell
  | _ => cell

/-- A number counts as its text against a text column. -/
def asText (cell : Cell) : Cell :=
  match cell with
  | .int _ | .real _ => (cell.text?.map Cell.text).getD .null
  | _ => cell

/-- Order of the cell of a column and a value from elsewhere. -/
def orderFor (affinity : Affinity) (cell value : Cell) : Ordering :=
  if affinity.isNumeric then order cell.asNumber value.asNumber else order cell.asText value.asText

/-- Order of the cells of two columns: numbers if either prefers numbers. -/
def orderBetween (first second : Affinity) (a b : Cell) : Ordering :=
  if first.isNumeric || second.isNumeric then order a.asNumber b.asNumber else order a b

/-! ## Patterns -/

/-- Whether a cell fits the pattern in another; nothing is known of null. -/
def like? (cell pattern : Cell) : Option Bool := do
  return Text.fits (← pattern.text?).toList (← cell.text?).toList

end Cell

end ResourceApi
