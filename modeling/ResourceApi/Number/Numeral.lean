import ResourceApi.Number.Double
import ResourceApi.Text.Blank
import ResourceApi.Text.DecimalDigit
import ResourceApi.Text.Pattern

/-!
Numbers as they are written in texts: with a sign, a fraction and an exponent, or by name.
-/

namespace ResourceApi

/-- A number as it is written: sign, digits, the power of ten of the last digit, and whether there were digits alone. -/
structure Numeral where
  negative : Bool
  digits : Nat
  exponent : Int
  isWhole : Bool
  deriving Repr

namespace Numeral

def isSpace (c : Char) : Bool := c = ' ' || ('\t' ≤ c && c ≤ '\r')

/-- An exponent at the front, if there is a whole one; otherwise nothing is taken. -/
def exponentPart (cs : List Char) : Int × Bool × List Char :=
  match cs with
  | e :: rest =>
    if e = 'e' || e = 'E' then
      let (negative, rest) := match rest with
        | '-' :: after => (true, after)
        | '+' :: after => (false, after)
        | other => (false, other)
      match Text.spanDigits rest with
      | ([], _) => (0, false, cs)
      | (digits, after) =>
        let value := Text.digitsValue digits
        (if negative then -(value : Int) else value, true, after)
    else (0, false, cs)
  | [] => (0, false, [])

/-- The number that a text begins with, and what follows it. -/
def atStart? (cs : List Char) : Option (Numeral × List Char) :=
  let cs := cs.dropWhile isSpace
  let (negative, cs) := match cs with
    | '-' :: rest => (true, rest)
    | '+' :: rest => (false, rest)
    | other => (false, other)
  let (whole, cs) := Text.spanDigits cs
  let (fraction, hasPoint, cs) := match cs with
    | '.' :: rest =>
      let (digits, after) := Text.spanDigits rest
      (digits, true, after)
    | other => ([], false, other)
  if whole.isEmpty && fraction.isEmpty then none
  else
    let (exponent, hasExponent, cs) := exponentPart cs
    some (⟨negative, Text.digitsValue (whole ++ fraction), exponent - fraction.length, !hasPoint && !hasExponent⟩, cs)

/-- The number that a text is, but for spaces around it. -/
def ofText? (s : String) : Option Numeral :=
  match atStart? s.toList with
  | some (numeral, rest) => if rest.all isSpace then some numeral else none
  | none => none

def toDouble (numeral : Numeral) : Double := .ofDecimal numeral.negative numeral.digits numeral.exponent

end Numeral

/-- The number that a text is, in the form in which clients write real numbers. -/
def Double.ofText? (s : String) : Option Double :=
  let cs := (Text.trimMargins s.toList).map fun c =>
    ((Text.digitValue? c).map fun value => Char.ofNat ('0'.toNat + value)).getD c
  let unsigned := match cs with
    | '-' :: rest | '+' :: rest => rest
    | other => other
  match String.ofList (unsigned.map Text.foldCase) with
  | "inf" | "infinity" => some (.infinite (cs.head? == some '-'))
  | "nan" => some .notANumber
  | _ =>
    let underscored := (cs.zip (cs.drop 1 ++ [' '])).zip (' ' :: cs)
    if underscored.all fun ((c, next), before) => c ≠ '_' || (before.isDigit && next.isDigit) then
      (Numeral.ofText? (String.ofList (cs.filter (· ≠ '_')))).map Numeral.toDouble
    else none

end ResourceApi
