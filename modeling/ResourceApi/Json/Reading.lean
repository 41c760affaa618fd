import ResourceApi.Failure
import ResourceApi.Number.Word
import ResourceApi.Text.Integer

/-!
Typed readings of JSON values. A reading gives a value or every problem that stands against one, each with the place
where it lies; readings of several parts put their problems one after the other.
-/

namespace ResourceApi

/-- What is wrong with a part of a document, and where. -/
structure Problem where
  place : List String
  text : String
  deriving Repr, DecidableEq

def Problem.message (problem : Problem) : String :=
  let place := ".".intercalate problem.place
  s!"{place}: {problem.text}"

inductive Reading (α : Type) where
  | done (value : α)
  | failed (problems : List Problem)

namespace Reading

variable {α β : Type}

def map (f : α → β) : Reading α → Reading β
  | done value => done (f value)
  | failed problems => failed problems

/-- Reads two parts; the problems of both are reported. -/
def both (f : Reading (α → β)) (x : Unit → Reading α) : Reading β :=
  match f, x () with
  | done f, done value => done (f value)
  | done _, failed problems => failed problems
  | failed problems, done _ => failed problems
  | failed first, failed second => failed (first ++ second)

instance : Functor Reading := ⟨map, fun value => map fun _ => value⟩

instance : Pure Reading := ⟨done⟩

instance : Seq Reading := ⟨both⟩

def problem (text : String) : Reading α := failed [⟨[], text⟩]

/-- The problems of a part lie below its name. -/
def below (name : String) : Reading α → Reading α
  | done value => done value
  | failed problems => failed (problems.map fun problem => { problem with place := name :: problem.place })

/-- The value, or the problems as messages. -/
def result : Reading α → Except Failure α
  | done value => .ok value
  | failed problems => .error (.unreadable (problems.map Problem.message))

/-- The value, or the problems as messages below a path. -/
def resultBelow (path : String) (reading : Reading α) : Except Failure α := (reading.below path).result

def text : Json → Reading String
  | .text s => done s
  | _ => problem "Input should be a valid string"

/-- Null stands for nothing. -/
def optional (read : Json → Reading α) : Json → Reading (Option α)
  | .null => done none
  | j => (read j).map some

def any (j : Json) : Reading Json := done j

def anyObject : Json → Reading Members
  | .object members => done members
  | _ => problem "Input should be a valid dictionary"

/-- Reads items one after the other, the first at the given position. -/
def itemsFrom (read : Json → Reading α) : Nat → List Json → Reading (List α)
  | _, [] => done []
  | position, j :: rest =>
    List.cons <$> (read j).below (toString position) <*> itemsFrom read (position + 1) rest

def list (read : Json → Reading α) : Json → Reading (List α)
  | .list items => itemsFrom read 0 items
  | _ => problem "Input should be a valid list"

/-- One of a few names. -/
def choice (ofName? : String → Option α) (listed : String) (j : Json) : Reading α :=
  match j.text?.bind ofName? with
  | some value => done value
  | none => problem s!"Input should be {listed}"

/-- A member that has to be there. -/
def required (members : Members) (name : String) (read : Json → Reading α) : Reading α :=
  match members.get? name with
  | some value => (read value).below name
  | none => (problem "Field required").below name

/-- A member with a default. -/
def member (members : Members) (name : String) (default : α) (read : Json → Reading α) : Reading α :=
  match members.get? name with
  | some value => (read value).below name
  | none => done default

/-- The members of an object that stands for a value of a named type. -/
def object (typeName : String) (read : Members → Reading α) : Json → Reading α
  | .object members => read members
  | _ => problem s!"Input should be a valid dictionary or instance of {typeName}"

/-! ## Integers -/

/-- The integer that a text writes: a sign at most, digits, and a point with zeros at most. -/
def integerText? (s : String) : Option Int :=
  let cs := Text.trimMargins s.toList
  if (cs.dropWhile (· != '.')).drop 1 |>.all (· == '0') then
    Text.signedValue? Text.asciiDigitValue? (cs.takeWhile (· != '.'))
  else none

/-- An integer in any of the forms that clients write: a number without a fraction, `true` and `false`, or a text. A
number with a point has to fit a signed 64-bit word. -/
def integer : Json → Reading Int
  | .int n => done n
  | .bool b => done (if b then 1 else 0)
  | .double d =>
    match d.toInt? with
    | some n =>
      if Word.holds n then done n
      else problem "Unable to parse input string as an integer, exceeded maximum size"
    | none => problem "Input should be a valid integer, got a number with a fractional part"
  | .text s =>
    match integerText? s with
    | some n => done n
    | none => problem "Input should be a valid integer, unable to parse string as an integer"
  | _ => problem "Input should be a valid integer"

end Reading

end ResourceApi
