import ResourceApi.Json.Equality
import ResourceApi.Resource.Graph

/-!
Constraints on the attributes of a document. Most look at the attribute and the object around it; those of `GraphRule`
ask the graph of resources what is allowed there.
-/

namespace ResourceApi

/-- Constraints that consult the resources. -/
inductive GraphRule where
  /-- An include keeps to the rules of the resource that it loads. -/
  | includable (resource : Resource)
  /-- The field of an aggregate is exposed by the related resource. -/
  | aggregateField (resource : Resource)
  /-- The filters of an aggregate keep to the rules of the related resource. -/
  | aggregateFilterable (resource : Resource)
  /-- A node sets only fields that clients may write. -/
  | fillable (resource : Resource)
  /-- A node names only relations of its resource. -/
  | knownRelations (resource : Resource)
  /-- Nodes that link or unlink records say which. -/
  | operationKeys (relation : Relation)
  /-- A nested node keeps to the rules of the related resource. -/
  | relatedNode (relation : Relation)
  deriving Repr

inductive Constraint where
  /-- An absent attribute is fine, whatever else is asked of it. -/
  | sometimes
  | required
  | prohibited
  | requiredWithout (other : String)
  | requiredIf (other : String) (values : List Json)
  | prohibitedIf (other : String) (values : List Json)
  | prohibits (others : List String)
  | isList
  | isObject
  | isString
  | isInteger
  | oneOf (values : List Json)
  | atLeast (bound : Json)
  | atMostItems (bound : Json)
  /-- Join values keep to a list of fields. -/
  | pivotFields (allowed : List Json)
  /-- Filters for membership take a list of values. -/
  | filterValue
  /-- Nothing at all can be written through the relation. -/
  | immutable (relation : String) (kind : Kind)
  | graph (rule : GraphRule)
  deriving Repr

/-- Constraints by path, in order. -/
abbrev RuleSet := List (String × List Constraint)

namespace Constraint

/-- Whether the constraint is looked at when the attribute is absent. -/
def seesAbsence : Constraint → Bool
  | sometimes | required | prohibited | requiredWithout _ | requiredIf .. | prohibitedIf .. | prohibits _ => true
  | _ => false

/-- Whether the constraints after it mean nothing once it fails. -/
def endsCheck : Constraint → Bool
  | isList | isObject | isString | isInteger | required => true
  | _ => false

/-- Equality of constraints by their values; constraints that hold code of their own equal none. -/
def same : Constraint → Constraint → Bool
  | sometimes, sometimes | required, required | prohibited, prohibited
  | isList, isList | isObject, isObject | isString, isString | isInteger, isInteger => true
  | requiredWithout a, requiredWithout b => a == b
  | requiredIf a xs, requiredIf b ys | prohibitedIf a xs, prohibitedIf b ys => a == b && Json.sameItems xs ys
  | prohibits xs, prohibits ys => xs == ys
  | oneOf xs, oneOf ys | pivotFields xs, pivotFields ys => Json.sameItems xs ys
  | atLeast a, atLeast b | atMostItems a, atMostItems b => a.same b
  | immutable a k, immutable b l => a == b && k == l
  | _, _ => false

/-- A constraint with its name and arguments, as JSON. -/
def describe (constraint : Constraint) : Json :=
  let noted (name : String) (arguments : List Json) : Json := .list (.text name :: arguments)
  let names (texts : List String) : Json := .list (texts.map .text)
  match constraint with
  | sometimes => noted "Sometimes" []
  | required => noted "Required" []
  | prohibited => noted "Prohibited" []
  | requiredWithout other => noted "RequiredWithout" [.text other]
  | requiredIf other values => noted "RequiredIf" [.text other, .list values]
  | prohibitedIf other values => noted "ProhibitedIf" [.text other, .list values]
  | prohibits others => noted "Prohibits" [names others]
  | isList => noted "IsList" []
  | isObject => noted "IsDict" []
  | isString => noted "IsString" []
  | isInteger => noted "IsInteger" []
  | oneOf values => noted "In" [.list values]
  | atLeast bound => noted "Min" [bound]
  | atMostItems bound => noted "MaxItems" [bound]
  | pivotFields allowed => noted "PivotFields" [.list allowed]
  | filterValue => noted "FilterValue" []
  | immutable relation kind => noted "ImmutableRelation" [.text relation, .text kind.name]
  | graph (.includable resource) => noted "Includable" [.text resource.name]
  | graph (.aggregateField resource) => noted "AggregateField" [.text resource.name]
  | graph (.aggregateFilterable resource) => noted "AggregateFilterable" [.text resource.name]
  | graph (.fillable resource) => noted "Fillable" [.text resource.name]
  | graph (.knownRelations resource) => noted "KnownRelations" [.text resource.name]
  | graph (.operationKeys relation) => noted "OperationKeys" [.text relation.name, .text relation.kind.name]
  | graph (.relatedNode relation) => noted "RelatedNode" [.text relation.name, .text relation.kind.name]

/-- Reads the notation of constraints that need no graph. -/
def ofNotation? : Json → Option Constraint
  | .list (.text name :: arguments) =>
    match name, arguments with
    | "Sometimes", [] => some sometimes
    | "Required", [] => some required
    | "Prohibited", [] => some prohibited
    | "RequiredWithout", [.text other] => some (requiredWithout other)
    | "RequiredIf", [.text other, .list values] => some (requiredIf other values)
    | "ProhibitedIf", [.text other, .list values] => some (prohibitedIf other values)
    | "Prohibits", [.list others] => (others.mapM Json.text?).map prohibits
    | "IsList", [] => some isList
    | "IsDict", [] => some isObject
    | "IsString", [] => some isString
    | "IsInteger", [] => some isInteger
    | "In", [.list values] => some (oneOf values)
    | "Min", [bound] => some (atLeast bound)
    | "MaxItems", [bound] => some (atMostItems bound)
    | "PivotFields", [.list allowed] => some (pivotFields allowed)
    | "FilterValue", [] => some filterValue
    | "ImmutableRelation", [.text relation, .text kind] => (Kind.ofName? kind).map (immutable relation)
    | _, _ => none
  | _ => none

end Constraint

namespace RuleSet

/-- Adds the constraints of one path that are not listed there yet. -/
def extend (rules : RuleSet) (path : String) (constraints : List Constraint) : RuleSet :=
  let added (current : List Constraint) : List Constraint :=
    constraints.foldl (fun listed new => if listed.any new.same then listed else listed ++ [new]) current
  if rules.any (·.1 == path) then
    rules.map fun entry => if entry.1 == path then (path, added entry.2) else entry
  else rules ++ [(path, added [])]

/-- Joins two rule sets: the constraints of the second that the first lacks come after its own. -/
def merge (rules other : RuleSet) : RuleSet :=
  other.foldl (fun merged entry => merged.extend entry.1 entry.2) rules

def describe (rules : RuleSet) : Json :=
  .list (rules.map fun (path, constraints) => .list [.text path, .list (constraints.map Constraint.describe)])

/-- Reads a rule set in the notation of constraints; of a path that comes twice the last list counts. -/
def ofNotation? (value : Json) : Option RuleSet :=
  match value with
  | .list entries => entries.foldlM (fun rules entry =>
      match entry with
      | .list [.text path, .list constraints] => do
        let read ← constraints.mapM Constraint.ofNotation?
        if rules.any (·.1 == path) then
          return rules.map fun old => if old.1 == path then (path, read) else old
        else return rules ++ [(path, read)]
      | _ => none) []
  | _ => none

end RuleSet

end ResourceApi
