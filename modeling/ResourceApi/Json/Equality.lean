import ResourceApi.Json.Basic

/-!
Equality of JSON values as clients see it: numbers are equal by value whatever their form, `true` and `false`
being one and zero, and objects are equal whatever the order of their members.
-/

namespace ResourceApi.Json

/-- Equality of scalars. -/
def sameScalar : Json → Json → Bool
  | .null, .null => true
  | .text a, .text b => a == b
  | .double a, .double b => a.sameValue b
  | .double a, b => match b.integer? with
    | some n => a.compareInt? n == some .eq
    | none => false
  | a, .double b => match a.integer? with
    | some n => b.compareInt? n == some .eq
    | none => false
  | a, b => match a.integer?, b.integer? with
    | some m, some n => m == n
    | _, _ => false

mutual
def same : Json → Json → Bool
  | .list xs, .list ys => sameItems xs ys
  | .object xs, .object ys => xs.length == ys.length && sameMembers xs ys
  | a, b => sameScalar a b
termination_by structural j => j

def sameItems : List Json → List Json → Bool
  | [], [] => true
  | x :: xs, y :: ys => same x y && sameItems xs ys
  | _, _ => false
termination_by structural js => js

/-- Every member of the first has an equal one in the second. -/
def sameMembers : List (String × Json) → List (String × Json) → Bool
  | [], _ => true
  | (k, v) :: rest, ys =>
    (match ys.lookup k with
      | some w => same v w
      | none => false) && sameMembers rest ys
termination_by structural ms => ms
end

/-- Membership up to equality. -/
def isIn (j : Json) (values : List Json) : Bool := values.any (same j)

/-- Membership of a value among names. -/
def isName (j : Json) (names : List String) : Bool :=
  match j with
  | .text s => names.contains s
  | _ => false

end ResourceApi.Json
