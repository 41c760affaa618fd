/-!
Binary64 numbers as data: sign, significand and exponent. Everything is exact integer arithmetic, so
comparison and rounding can be reasoned about.
-/

namespace ResourceApi

/-- `finite s m e` stands for `± m · 2 ^ e` with `m < 2 ^ 53` and `-1074 ≤ e ≤ 971`; below `2 ^ 52` the
significand only occurs with the least exponent, so a number has one form (apart from the sign of zero). -/
inductive Double where
  | finite (negative : Bool) (significand : Nat) (exponent : Int)
  | infinite (negative : Bool)
  | notANumber
  deriving DecidableEq, Repr, Inhabited

namespace Double

def minExponent : Int := -1074
def maxExponent : Int := 971

def zero : Double := .finite false 0 minExponent

/-- Quotient rounded to the nearest integer, ties to even. -/
def roundHalfEven (num den : Nat) : Nat :=
  let q := num / den
  let twice := 2 * (num % den)
  if twice < den then q else if den < twice then q + 1 else q + q % 2

/-- `num / den · 2 ^ (-e)` as a fraction of naturals. -/
def scaled (num den : Nat) (e : Int) : Nat × Nat :=
  if 0 ≤ e then (num, den * Nat.pow 2 e.toNat) else (num * Nat.pow 2 (-e).toNat, den)

/-- The double nearest to `± num / den`, ties to the even significand. -/
def ofRatio (negative : Bool) (num den : Nat) : Double :=
  if num = 0 ∨ den = 0 then .finite negative 0 minExponent
  else
    let guess : Int := (num.log2 : Int) - den.log2 - 53
    let (n, d) := scaled num den guess
    let e := max minExponent (if n / d < Nat.pow 2 53 then guess else guess + 1)
    let (n, d) := scaled num den e
    let m := roundHalfEven n d
    let (m, e) := if m = Nat.pow 2 53 then (Nat.pow 2 52, e + 1) else (m, e)
    if e > maxExponent then .infinite negative else .finite negative m e

def ofInt (n : Int) : Double := ofRatio (n < 0) n.natAbs 1

/-- `± digits · 10 ^ exponent`, rounded; the bounds only cut off exponents that cannot matter. -/
def ofDecimal (negative : Bool) (digits : Nat) (exponent : Int) : Double :=
  if digits = 0 then ofRatio negative 0 1
  else
    let top : Int := exponent + (Nat.log2 digits) / 3 + 1
    if top < -400 then ofRatio negative 0 1
    else if exponent > 400 then .infinite negative
    else if 0 ≤ exponent then ofRatio negative (digits * Nat.pow 10 exponent.toNat) 1
    else ofRatio negative digits (Nat.pow 10 (-exponent).toNat)

/-- The value as an integer times a power of two. -/
def signed (negative : Bool) (m : Nat) : Int := if negative then -(m : Int) else m

def isZero : Double → Bool
  | .finite _ m _ => m == 0
  | _ => false

/-- The two numbers `a · 2 ^ e` and `b · 2 ^ f` as integers over one power of two. -/
def aligned (a : Int) (e : Int) (b : Int) (f : Int) : Int × Int :=
  let low := min e f
  (a * Nat.pow 2 (e - low).toNat, b * Nat.pow 2 (f - low).toNat)

/-- Order of two doubles; no order with a not-a-number. -/
def compare? : Double → Double → Option Ordering
  | .notANumber, _ | _, .notANumber => none
  | .infinite a, .infinite b => some (if a == b then .eq else if a then .lt else .gt)
  | .infinite a, _ => some (if a then .lt else .gt)
  | _, .infinite b => some (if b then .gt else .lt)
  | .finite s m e, .finite t n f =>
    let (a, b) := aligned (signed s m) e (signed t n) f
    some (compare a b)

def compareInt? (d : Double) (n : Int) : Option Ordering :=
  match d with
  | .notANumber => none
  | .infinite s => some (if s then .lt else .gt)
  | .finite s m e =>
    let (a, b) := aligned (signed s m) e n 0
    some (compare a b)

/-- The integer a double is equal to. -/
def toInt? : Double → Option Int
  | .finite s m e =>
    if 0 ≤ e then some (signed s (m * Nat.pow 2 e.toNat))
    else
      let d := Nat.pow 2 (-e).toNat
      if m % d = 0 then some (signed s (m / d)) else none
  | _ => none

def sameValue (a b : Double) : Bool := a.compare? b == some .eq

def add (a b : Double) : Double :=
  match a, b with
  | .notANumber, _ | _, .notANumber => .notANumber
  | .infinite s, .infinite t => if s == t then .infinite s else .notANumber
  | .infinite s, _ => .infinite s
  | _, .infinite t => .infinite t
  | .finite s m e, .finite t n f =>
    let (x, y) := aligned (signed s m) e (signed t n) f
    let low := min e f
    let sum := x + y
    let (num, den) := scaled sum.natAbs 1 (-low)
    if sum = 0 then .finite (s && t) 0 minExponent else ofRatio (sum < 0) num den

/-- Division by a positive integer. -/
def divNat (a : Double) (n : Nat) : Double :=
  match a with
  | .finite s m e =>
    let (num, den) := scaled m n (-e)
    ofRatio s num den
  | other => other

end Double

end ResourceApi
