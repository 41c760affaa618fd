import ResourceApi.Failure
import ResourceApi.Json.Equality
import ResourceApi.Relation.Kind
import ResourceApi.Text.SnakeCase

/-!
Relations as they are declared. A declaration names its kind and the options of that kind; the values stay as they were
given, since only the whole set of resources tells whether a name in them means anything.
-/

namespace ResourceApi

/-- A declared relation with every option it may carry; options that its kind does not know keep their defaults. -/
structure RelationDeclaration where
  name : String
  kind : Kind
  /-- Names of the resources it leads to. -/
  targets : List Json
  foreignKey : Json := .null
  localKey : Json := .text "id"
  ownerKey : Json := .text "id"
  /-- Column that tells of which type the other record is. -/
  morphType : Option String := none
  pivotTable : Json := .null
  foreignPivotKey : Json := .null
  relatedPivotKey : Json := .null
  relatedKey : Json := .text "id"
  pivotFields : List Json := []
  throughTable : Json := .null
  firstKey : Json := .null
  secondKey : Json := .null
  secondLocalKey : Json := .text "id"
  /-- Column and extreme by which one record out of many is picked. -/
  ofMany : Option (Json × Json) := none
  deriving Repr, Inhabited

namespace Kind

/-- The options of a kind in their order; an option without a default is required. -/
def options : Kind → List (String × Option Json)
  | hasOne | hasMany => [("target", none), ("foreign_key", none), ("local_key", some (.text "id"))]
  | belongsTo => [("target", none), ("foreign_key", none), ("owner_key", some (.text "id"))]
  | morphTo => [("targets", none), ("morph_name", some .null)]
  | morphOne | morphMany => [("target", none), ("morph_name", none), ("local_key", some (.text "id"))]
  | morphOneOfMany =>
    [("target", none), ("morph_name", none), ("column", some (.text "id")), ("aggregate", some (.text "max")),
      ("local_key", some (.text "id"))]
  | belongsToMany =>
    [("target", none), ("pivot_table", none), ("foreign_pivot_key", none), ("related_pivot_key", none),
      ("local_key", some (.text "id")), ("related_key", some (.text "id")), ("pivot_fields", some (.list []))]
  | morphToMany =>
    [("target", none), ("morph_name", none), ("pivot_table", none), ("related_pivot_key", none),
      ("local_key", some (.text "id")), ("related_key", some (.text "id")), ("pivot_fields", some (.list []))]
  | morphedByMany =>
    [("target", none), ("morph_name", none), ("pivot_table", none), ("foreign_pivot_key", none),
      ("local_key", some (.text "id")), ("related_key", some (.text "id")), ("pivot_fields", some (.list []))]
  | hasOneThrough | hasManyThrough =>
    [("target", none), ("through_table", none), ("first_key", none), ("second_key", none),
      ("local_key", some (.text "id")), ("second_local_key", some (.text "id"))]

end Kind

namespace RelationDeclaration

/-- Names in quotes joined as in a sentence. -/
def listing (names : List String) : String :=
  match names.map (fun name => s!"'{name}'") with
  | [first, second] => s!"{first} and {second}"
  | quoted => ", ".intercalate (quoted.dropLast ++ quoted.getLast?.toList.map ("and " ++ ·))

/-- What is wrong with a set of options, if anything: the first that the kind does not know, or else the required ones
that are missing. -/
def optionIssue? (kind : Kind) (given : Members) : Option String :=
  let known := kind.options.map (·.1)
  match given.keys.find? fun key => key == "name" || !known.contains key with
  | some key =>
    if key == "name" then some s!"{kind.name}() got multiple values for argument 'name'"
    else some s!"{kind.name}() got an unexpected keyword argument '{key}'"
  | none =>
    match (kind.options.filter fun (key, default) => default.isNone && !given.has key).map (·.1) with
    | [] => none
    | [key] => some s!"{kind.name}() missing 1 required positional argument: '{key}'"
    | missing =>
      some s!"{kind.name}() missing {missing.length} required positional arguments: {listing missing}"

/-- A relation from a complete set of options. -/
def ofOptions (name : String) (kind : Kind) (given : Members) : RelationDeclaration :=
  let option (key : String) : Json :=
    (given.get? key).getD (((kind.options.lookup key).join).getD .null)
  let items (key : String) : List Json := ((option key).elements?).getD []
  let target := [option "target"]
  let morphName := (option "morph_name").bare
  let morphId : Json := .text (morphName ++ "_id")
  let morphType := some (morphName ++ "_type")
  match kind with
  | .hasOne | .hasMany =>
    { name, kind, targets := target, foreignKey := option "foreign_key", localKey := option "local_key" }
  | .belongsTo =>
    { name, kind, targets := target, foreignKey := option "foreign_key", ownerKey := option "owner_key" }
  | .morphTo =>
    let given := option "morph_name"
    let morphName := if given.truthy then given.bare else Text.snakeCase name
    { name, kind, targets := items "targets", foreignKey := .text (morphName ++ "_id"),
      morphType := some (morphName ++ "_type") }
  | .morphOne | .morphMany =>
    { name, kind, targets := target, foreignKey := morphId, morphType, localKey := option "local_key" }
  | .morphOneOfMany =>
    { name, kind, targets := target, foreignKey := morphId, morphType, localKey := option "local_key",
      ofMany := some (option "column", option "aggregate") }
  | .belongsToMany =>
    { name, kind, targets := target, pivotTable := option "pivot_table",
      foreignPivotKey := option "foreign_pivot_key", relatedPivotKey := option "related_pivot_key",
      localKey := option "local_key", relatedKey := option "related_key", pivotFields := items "pivot_fields" }
  | .morphToMany =>
    { name, kind, targets := target, pivotTable := option "pivot_table", foreignPivotKey := morphId, morphType,
      relatedPivotKey := option "related_pivot_key", localKey := option "local_key",
      relatedKey := option "related_key", pivotFields := items "pivot_fields" }
  | .morphedByMany =>
    { name, kind, targets := target, pivotTable := option "pivot_table",
      foreignPivotKey := option "foreign_pivot_key", relatedPivotKey := morphId, morphType,
      localKey := option "local_key", relatedKey := option "related_key", pivotFields := items "pivot_fields" }
  | .hasOneThrough | .hasManyThrough =>
    { name, kind, targets := target, throughTable := option "through_table", firstKey := option "first_key",
      secondKey := option "second_key", localKey := option "local_key",
      secondLocalKey := option "second_local_key" }

/-- An option whose value is a collection, with its elements in a list. -/
def collected (key : String) (given : Members) : Except Failure Members :=
  match given.get? key with
  | none => .ok given
  | some value =>
    match value.elements? with
    | some items => .ok (given.put key (.list items))
    | none => .error (.fault .unsuitableValue)

/-- Reads a declaration: an object of the kind and its options. -/
def read (name : String) (data : Members) : Except Failure RelationDeclaration := do
  let given := data.erase "kind"
  match (data.get? "kind").bind Json.text? |>.bind Kind.ofName? with
  | none =>
    let shown := ((data.get? "kind").getD .null).display
    .error (.misconfigured [s!"{name}: missing or unknown relation kind {shown}"])
  | some kind =>
    let given ←
      if kind = .morphTo then
        collected "targets" (if given.has "targets" then given else given.put "targets" (.list []))
      else .ok given
    let given ← collected "pivot_fields" given
    match optionIssue? kind given with
    | some problem => .error (.misconfigured [s!"{name}: invalid {kind.name} options: {problem}"])
    | none => .ok (ofOptions name kind given)

/-- A declaration with all its options, and what its kind makes of it, as JSON. -/
def describe (relation : RelationDeclaration) : Json :=
  .object [
    ("name", .text relation.name),
    ("kind", .text relation.kind.name),
    ("targets", .list relation.targets),
    ("foreign_key", relation.foreignKey),
    ("local_key", relation.localKey),
    ("owner_key", relation.ownerKey),
    ("morph_type", Json.ofText? relation.morphType),
    ("pivot_table", relation.pivotTable),
    ("foreign_pivot_key", relation.foreignPivotKey),
    ("related_pivot_key", relation.relatedPivotKey),
    ("related_key", relation.relatedKey),
    ("pivot_fields", .list relation.pivotFields),
    ("through_table", relation.throughTable),
    ("first_key", relation.firstKey),
    ("second_key", relation.secondKey),
    ("second_local_key", relation.secondLocalKey),
    ("of_many", match relation.ofMany with
      | some (column, extreme) => .list [column, extreme]
      | none => .null),
    ("cardinality", .text relation.kind.cardinality.name),
    ("link", .text relation.kind.linkPlace.name),
    ("target", relation.targets.headD .null),
    ("is_morph", .bool relation.morphType.isSome),
    ("mutable", .bool relation.kind.isMutable),
    ("nestable", .bool relation.kind.isNestable),
    ("allows", .list (relation.kind.operations.map fun operation => .text operation.name))]

/-- Finds the declared target that a tag of a polymorphic link names. -/
def resolveTarget (relation : RelationDeclaration) (tag : Json) : Except Failure Json :=
  if tag.isIn relation.targets then .ok tag
  else match relation.targets.mapM Json.text? with
    | none => .error (.fault .unsuitableValue)
    | some names =>
      let listed := ", ".intercalate names
      .error (.invalid [s!"{relation.name}: resource type {tag.display} is not one of {listed}"])

end RelationDeclaration

end ResourceApi
