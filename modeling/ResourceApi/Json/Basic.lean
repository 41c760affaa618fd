import ResourceApi.Number.Double

/-!
JSON values. Integers are kept apart from other numbers, and the members of an object keep the order in which
their keys first came; no key occurs twice in a value built by `Json.put`.
-/

namespace ResourceApi

inductive Json where
  | null
  | bool (value : Bool)
  | int (value : Int)
  | double (value : Double)
  | text (value : String)
  | list (items : List Json)
  | object (members : List (String × Json))
  deriving Repr, Inhabited

abbrev Members := List (String × Json)

namespace Members

/-- The value of a key. -/
def get? (members : Members) (key : String) : Option Json := members.lookup key

def has (members : Members) (key : String) : Bool := (members.get? key).isSome

/-- Sets a key where it stands, or adds it at the end. -/
def put (key : String) (value : Json) : Members → Members
  | [] => [(key, value)]
  | (k, v) :: rest => if k == key then (k, value) :: rest else (k, v) :: put key value rest

def erase (members : Members) (key : String) : Members := members.filter (·.1 != key)

def keys (members : Members) : List String := members.map (·.1)

end Members

namespace Json

/-- Member of an object; anything else has no members. -/
def get? : Json → String → Option Json
  | .object members, key => Members.get? members key
  | _, _ => none

def isObject : Json → Bool
  | .object _ => true
  | _ => false

def isList : Json → Bool
  | .list _ => true
  | _ => false

def isText : Json → Bool
  | .text _ => true
  | _ => false

def isNull : Json → Bool
  | .null => true
  | _ => false

/-- Whether a value can be looked up in a collection: it is neither a list nor an object. -/
def isScalar (value : Json) : Bool := !(value.isList || value.isObject)

/-- Whether an option can be looked up in a collection: it is a scalar or a compound name made of scalars. -/
def isSingle : Json → Bool
  | .list items => items.all isScalar
  | value => value.isScalar

def text? : Json → Option String
  | .text s => some s
  | _ => none

/-- Integers, with `true` and `false` counting as one and zero. -/
def integer? : Json → Option Int
  | .int n => some n
  | .bool b => some (if b then 1 else 0)
  | _ => none

/-- What a collection is made of: the items of a list, the characters of a text, the keys of an object. -/
def elements? : Json → Option (List Json)
  | .list items => some items
  | .text s => some (s.toList.map fun c => .text (String.singleton c))
  | .object members => some (members.map fun member => .text member.1)
  | _ => none

/-- The value of an optional text. -/
def ofText? : Option String → Json
  | some s => .text s
  | none => .null

/-- Whether a value counts as true: null, false, zero and whatever is empty do not. -/
def truthy : Json → Bool
  | .null => false
  | .bool b => b
  | .int n => n != 0
  | .double d => !d.isZero
  | .text s => !s.isEmpty
  | .list items => !items.isEmpty
  | .object members => !members.isEmpty

mutual
/-- Levels of nesting: one for a scalar. -/
def depth : Json → Nat
  | .list items => depthItems items + 1
  | .object members => depthMembers members + 1
  | _ => 1
termination_by structural j => j

def depthItems : List Json → Nat
  | [] => 0
  | j :: rest => max (depth j) (depthItems rest)
termination_by structural js => js

def depthMembers : List (String × Json) → Nat
  | [] => 0
  | (_, j) :: rest => max (depth j) (depthMembers rest)
termination_by structural ms => ms
end

theorem depth_pos (j : Json) : 0 < j.depth := by
  cases j <;> simp [depth]

theorem depth_le_depthItems {j : Json} {items : List Json} (h : j ∈ items) : j.depth ≤ depthItems items := by
  induction items with
  | nil => cases h
  | cons head rest ih =>
    rcases List.mem_cons.1 h with rfl | member
    · rw [depthItems]; omega
    · have := ih member
      rw [depthItems]; omega

theorem depth_le_depthMembers {key : String} {j : Json} {members : List (String × Json)}
    (h : (key, j) ∈ members) : j.depth ≤ depthMembers members := by
  induction members with
  | nil => cases h
  | cons head rest ih =>
    obtain ⟨k, v⟩ := head
    rcases List.mem_cons.1 h with same | member
    · cases same; rw [depthMembers]; omega
    · have := ih member
      rw [depthMembers]; omega

end Json

end ResourceApi
