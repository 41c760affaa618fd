import ResourceApi.Rule.Attribute
import ResourceApi.Rule.Constraint
import ResourceApi.Text.Blank

/-!
Checking documents against rule sets. `RuleSet.errors` gives the messages of all attributes that a document has or lacks
against the rules; how a constraint on the graph is answered is a parameter.
-/

namespace ResourceApi

/-- Whether a value says something: it is neither absent nor null, blank or empty. -/
def Json.isFilled : Option Json → Bool
  | none | some .null => false
  | some (.text s) => !Text.isBlank s
  | some (.list items) => !items.isEmpty
  | some (.object members) => !members.isEmpty
  | some _ => true

/-- Whether both values are numbers, `true` and `false` included, and the first is less. -/
def Json.isLess : Json → Json → Bool
  | .double d, .double e => d.compare? e == some .lt
  | .double d, bound =>
    match bound.integer? with
    | some m => d.compareInt? m == some .lt
    | none => false
  | value, .double d =>
    match value.integer? with
    | some n => d.compareInt? n == some .gt
    | none => false
  | value, bound =>
    match value.integer?, bound.integer? with
    | some n, some m => n < m
    | _, _ => false

namespace Constraint

/-- The message of a constraint that an attribute breaks; constraints that answer in full messages give none here. -/
def problem? (place : Attribute) : Constraint → Option String
  | required => if Json.isFilled place.value then none else some "is required"
  | prohibited => if place.isPresent then some "is prohibited" else none
  | requiredWithout other =>
    if Json.isFilled (place.sibling? other) || Json.isFilled place.value then none
    else some s!"is required when '{other}' is not present"
  | requiredIf other values =>
    match place.sibling? other with
    | some value =>
      if value.isIn values && !Json.isFilled place.value then some s!"is required when '{other}' is {value.bare}"
      else none
    | none => none
  | prohibitedIf other values =>
    match place.sibling? other with
    | some value =>
      if place.isPresent && value.isIn values then some s!"is prohibited when '{other}' is {value.bare}" else none
    | none => none
  | prohibits others =>
    match others.filter fun other => (place.sibling? other).isSome with
    | [] => none
    | first :: rest =>
      let clashing := ", ".intercalate (first :: rest)
      if place.isPresent then some s!"prohibits {clashing} from being present" else none
  | isList => if (place.value.map Json.isList).getD false then none else some "must be an array"
  | isObject => if (place.value.map Json.isObject).getD false then none else some "must be an object"
  | isString => if (place.value.map Json.isText).getD false then none else some "must be a string"
  | isInteger =>
    match place.value with
    | some (.int _) => none
    | _ => some "must be an integer"
  | oneOf values =>
    match place.value with
    | some value => if value.isIn values then none else some s!"value {value.display} is not allowed"
    | none => none
  | atLeast bound =>
    match place.value with
    | none | some (.bool _) => none
    | some value => if value.isLess bound then some s!"must be at least {bound.bare}" else none
  | atMostItems bound =>
    match place.value with
    | some (.list items) =>
      if bound.isLess (.int items.length) then some s!"must not contain more than {bound.bare} item(s)" else none
    | _ => none
  | sometimes | pivotFields _ | filterValue | immutable .. | graph _ => none

/-- Join values that no field allows. -/
def pivotMessages (allowed : List Json) (value : Json) (path : String) : List String :=
  match value with
  | .object members => ((Members.keys members).filter fun key => !(Json.text key).isIn allowed).map fun key =>
      s!"{path}.{key}: pivot field is not allowed"
  | _ => []

/-- A filter for membership whose value is no list. -/
def filterMessages (value : Json) (path : String) : List String :=
  match value.get? "operator", value.get? "value" with
  | some (.text operator), some operand =>
    if (operator == "in" || operator == "not in") && !operand.isList then
      let place := Path.under path "value"
      [s!"{place}: must be an array for operator '{operator}'"]
    else []
  | _, _ => []

end Constraint

/-- How a constraint on the graph is answered: the messages for a value at a path. -/
abbrev GraphRule.Answer := GraphRule → Json → String → Except Failure (List String)

namespace RuleSet

/-- Messages of a constraint that answers in full messages, and those of a broken one under the path of the
attribute. -/
def constraintErrors (answer : GraphRule.Answer) (place : Attribute) (constraint : Constraint) :
    Except Failure (List String) :=
  match constraint, place.value with
  | .pivotFields allowed, some value => .ok (Constraint.pivotMessages allowed value place.path)
  | .filterValue, some value => .ok (Constraint.filterMessages value place.path)
  | .immutable relation kind, some _ => .error (.unsupported (.readOnly relation kind.name))
  | .graph rule, some value => answer rule value place.path
  | constraint, value =>
    if value.isNone && !constraint.seesAbsence then .ok []
    else .ok ((constraint.problem? place).toList.map fun problem => s!"{place.path}: {problem}")

/-- Messages of the constraints on one attribute, up to the first that ends the check. -/
def attributeErrors (answer : GraphRule.Answer) (place : Attribute) : List Constraint → Except Failure (List String)
  | [] => .ok []
  | constraint :: rest => do
    let messages ← constraintErrors answer place constraint
    if constraint.endsCheck && !messages.isEmpty then return messages
    else return messages ++ (← attributeErrors answer place rest)

/-- Messages of one attribute; an absent one that may be absent has none. -/
def placeErrors (answer : GraphRule.Answer) (constraints : List Constraint) (place : Attribute) :
    Except Failure (List String) :=
  if !place.isPresent && constraints.any (fun constraint => constraint matches .sometimes) then .ok []
  else attributeErrors answer place constraints

/-- Messages of a document, by rule and then by place. -/
def errors (answer : GraphRule.Answer) (rules : RuleSet) (data : Json) : Except Failure (List String) := do
  let found ← rules.mapM fun (pattern, constraints) => do
    return (← (Attribute.expand data pattern).mapM (placeErrors answer constraints)).flatten
  return found.flatten

/-- Messages of a part of a document, each under the path of the part. -/
def errorsAt (answer : GraphRule.Answer) (rules : RuleSet) (data : Json) (path : String) :
    Except Failure (List String) := do
  let start := if path.isEmpty then "" else path ++ "."
  return (← rules.errors answer data).map (start ++ ·)

end RuleSet

end ResourceApi
