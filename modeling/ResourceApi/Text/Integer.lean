import ResourceApi.Text.Blank
import ResourceApi.Text.DecimalDigit

/-!
Integers written in digits, those of ASCII or those of any script.
-/

namespace ResourceApi.Text

/-- Value of digits with single underscores between them; a digit is what `valueOf?` has a value for. -/
def groupedValue? (valueOf? : Char → Option Nat) (value : Nat) (afterDigit : Bool) : List Char → Option Nat
  | [] => if afterDigit then some value else none
  | c :: rest =>
    match valueOf? c with
    | some digit => groupedValue? valueOf? (value * 10 + digit) true rest
    | none => if c = '_' && afterDigit then groupedValue? valueOf? value false rest else none

/-- A sign at most, and digits. -/
def signedValue? (valueOf? : Char → Option Nat) : List Char → Option Int
  | '-' :: digits => (groupedValue? valueOf? 0 false digits).map fun n => -(n : Int)
  | '+' :: digits => (groupedValue? valueOf? 0 false digits).map Int.ofNat
  | digits => (groupedValue? valueOf? 0 false digits).map Int.ofNat

/-- The integer that a text writes in the digits of any script, blanks around it aside. -/
def integer? (s : String) : Option Int := signedValue? digitValue? (trimMargins s.toList)

end ResourceApi.Text
