import ResourceApi.Number.Double

/-!
Decimal digits of a double: the fewest that read back to it, or a fixed number of them, and the texts made
from them by an explicit format.
-/

namespace ResourceApi

/-- `digits · 10 ^ (point - length)`: the decimal point stands after the first `point` digits. -/
structure Decimal where
  digits : List Nat
  point : Int
  deriving DecidableEq, Repr

/-- Decimal digits of a natural number, most significant first. -/
def Decimal.digitsOf (n : Nat) : List Nat := (Nat.toDigits 10 n).map fun c => c.toNat - '0'.toNat

/-- Number of decimal digits. -/
def Decimal.widthOf (n : Nat) : Nat := (Nat.toDigits 10 n).length

namespace Double

/-- Greatest `p` with `10 ^ p ≤ num / den`, for a positive fraction. -/
def decimalExponent (num den : Nat) : Int :=
  let guess : Int := (Decimal.widthOf num : Int) - Decimal.widthOf den
  let holds : Bool := if 0 ≤ guess then Nat.pow 10 guess.toNat * den ≤ num else den ≤ num * Nat.pow 10 (-guess).toNat
  if holds then guess else guess - 1

/-- `num / den` in units of `10 ^ step`, as a fraction. -/
def inUnits (num den : Nat) (step : Int) : Nat × Nat :=
  if 0 ≤ step then (num, den * Nat.pow 10 step.toNat) else (num * Nat.pow 10 (-step).toNat, den)

/-- Whether `k · 10 ^ step` rounds to `m · 2 ^ e`: it lies between the midpoints to the neighbours, which
themselves count for an even significand. -/
def readsBack (m : Nat) (e : Int) (k : Nat) (step : Int) : Bool :=
  let below : Nat := if m = Nat.pow 2 52 ∧ e > minExponent then 1 else 2
  -- quarter units of 2 ^ e
  let (kn, kd) : Nat × Nat := if 0 ≤ step then (k * Nat.pow 10 step.toNat, 1) else (k, Nat.pow 10 (-step).toNat)
  let (n, d) := scaled (4 * kn) kd e
  let low := (4 * m - below) * d
  let high := (4 * m + 2) * d
  if m % 2 = 0 then low ≤ n && n ≤ high else low < n && n < high

/-- The candidate with `count` digits, if one of the two grid points around the value reads back. -/
def candidate? (m : Nat) (e : Int) (num den : Nat) (top : Int) (count : Nat) : Option (Nat × Int) :=
  let step := top - (count : Int) + 1
  let (n, d) := inUnits num den step
  let k := n / d
  let twice := 2 * (n % d)
  let lower := readsBack m e k step
  let upper := readsBack m e (k + 1) step
  if lower && upper then
    some (if twice < d then k else if d < twice then k + 1 else k + k % 2, step)
  else if lower then some (k, step)
  else if upper then some (k + 1, step)
  else none

/-- The fewest digits that read back to `m · 2 ^ e`, the nearest such, a tie going to the even digit. -/
def shortest (m : Nat) (e : Int) : Decimal :=
  let (num, den) := scaled m 1 (-e)
  let top := decimalExponent num den
  let (k, step) :=
    ((List.range 17).findSome? fun i => candidate? m e num den top (i + 1)).getD (num, 0)
  let digits := Decimal.digitsOf k
  let point := (digits.length : Int) + step
  ⟨(digits.reverse.dropWhile (· == 0)).reverse, point⟩

/-- The value rounded to `count` significant digits, trailing zeros dropped. -/
def rounded (m : Nat) (e : Int) (count : Nat) : Decimal :=
  let (num, den) := scaled m 1 (-e)
  let top := decimalExponent num den
  let step := top - (count : Int) + 1
  let (n, d) := inUnits num den step
  let k := roundHalfEven n d
  let digits := Decimal.digitsOf k
  ⟨(digits.reverse.dropWhile (· == 0)).reverse, (digits.length : Int) + step⟩

end Double

/-- How the digits of a double are laid out. -/
structure DoubleFormat where
  /-- `none` asks for the fewest digits that read back. -/
  significantDigits : Option Nat
  /-- Positional notation is used for exponents from `-4` to below this. -/
  exponentFrom : Int
  /-- Whether a mantissa in exponent notation always has a fraction. -/
  fractionAlways : Bool

namespace DoubleFormat

/-- Shortest text that reads back, positional up to sixteen digits. -/
def display : DoubleFormat := ⟨none, 16, false⟩

/-- Fifteen digits with a fraction always shown: the form in which storage turns a real into text. -/
def stored : DoubleFormat := ⟨some 15, 15, true⟩

private def digitText (ds : List Nat) : String :=
  String.ofList (ds.map fun d => Char.ofNat ('0'.toNat + d))

private def exponentText (e : Int) : String :=
  let n := Decimal.digitsOf e.natAbs
  (if e < 0 then "e-" else "e+") ++ digitText (if n.length < 2 then 0 :: n else n)

private def zeros (n : Nat) : List Nat := List.replicate n 0

def layout (f : DoubleFormat) (d : Decimal) : String :=
  let e := d.point - 1
  if -4 ≤ e ∧ e < f.exponentFrom then
    if d.point ≤ 0 then "0." ++ digitText (zeros (-d.point).toNat ++ d.digits)
    else
      let whole := d.digits.take d.point.toNat
      let fraction := d.digits.drop d.point.toNat
      digitText (whole ++ zeros (d.point.toNat - whole.length)) ++ "."
        ++ (if fraction.isEmpty then "0" else digitText fraction)
  else
    let head := d.digits.take 1
    let fraction := d.digits.drop 1
    let shown := if fraction.isEmpty then (if f.fractionAlways then ".0" else "") else "." ++ digitText fraction
    digitText head ++ shown ++ exponentText e

def format (f : DoubleFormat) : Double → String
  | .notANumber => "nan"
  | .infinite s => if s then "-inf" else "inf"
  | .finite s m e =>
    let body := if m = 0 then "0.0"
      else f.layout (match f.significantDigits with
        | none => Double.shortest m e
        | some n => Double.rounded m e n)
    if s then "-" ++ body else body

end DoubleFormat

/-- Shortest text of a double that reads back to it. -/
def Double.text (d : Double) : String := DoubleFormat.display.format d

end ResourceApi
