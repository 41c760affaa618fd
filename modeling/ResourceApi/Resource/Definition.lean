import ResourceApi.Json.Equality
import ResourceApi.Resource.Declaration
import ResourceApi.Search.Specification

/-!
Resource definitions: declarations with their defaults filled in. `ResourceDefinition.issues` checks one against its own
table, the tables that its relations name, and the other definitions.
-/

namespace ResourceApi

structure ResourceDefinition where
  name : String
  table : Table
  key : Json
  fields : List Json
  scopes : List Scope
  limits : List Json
  defaultLimit : Json
  defaultOrder : List (Json × Json)
  relations : List RelationDeclaration
  fillable : List Json
  softDeletes : Json
  deletedAtField : Json
  morphAlias : Json
  gates : Json
  deriving Repr, Inhabited

namespace ResourceDefinition

/-- Entries made of the members of an object or of the two elements of each item; of a key that comes twice the last
value counts. -/
def pairs : Json → Except Failure (List (Json × Json))
  | .object members => .ok (members.map fun (key, value) => (.text key, value))
  | value =>
    match value.elements? with
    | none => .error (.fault .unsuitableValue)
    | some items => items.foldlM (fun entries item =>
      match item.elements? with
      | some [key, value] =>
        if !key.isScalar then .error (.fault .unsuitableValue)
        else if entries.any fun entry => entry.1.same key then
          .ok (entries.map fun entry => if entry.1.same key then (entry.1, value) else entry)
        else .ok (entries ++ [(key, value)])
      | some _ => .error (.fault .impossibleValue)
      | none => .error (.fault .unsuitableValue)) []

/-- Whether a value is the number of a place among so many. -/
def isPlaceIn (count : Nat) (value : Json) : Bool :=
  (List.range count).any fun place => value.same (.int place)

/-- Elements of an option, or of its default when it is not given. -/
def collection (options : Members) (name : String) (default : List Json) : Except Failure (List Json) :=
  match options.get? name with
  | none => .ok default
  | some value =>
    match value.elements? with
    | some items => .ok items
    | none => .error (.fault .unsuitableValue)

/-- Relations by name: of a name that comes twice the last one counts, in the place of the first. -/
def distinctRelations (relations : List RelationDeclaration) : List RelationDeclaration :=
  relations.foldl (fun kept relation =>
    if kept.any (·.name == relation.name) then kept.map fun old => if old.name == relation.name then relation else old
    else kept ++ [relation]) []

/-- The key of a declaration, by default that of its table. -/
def declaredKey (declaration : ResourceDeclaration) : Except Failure Json :=
  match declaration.options.get? "key", declaration.table.keyColumns with
  | some (.null), column :: _ | none, column :: _ => .ok (.text column.name)
  | some (.null), [] | none, [] => .error (.fault .emptyChoice)
  | some key, _ => .ok key

/-- The usual order of a declaration, by default the newest first. -/
def declaredOrder (options : Members) (key : Json) : Except Failure (List (Json × Json)) :=
  let order := (options.get? "default_order_by").getD .null
  if order.truthy then pairs order
  else if key.isSingle then .ok [(key, .text "desc")]
  else .error (.fault .unsuitableValue)

/-- The fields that clients may write, by default all but the key. -/
def declaredFillable (options : Members) (fields : List Json) (key : Json) : Except Failure (List Json) :=
  match options.get? "fillable" with
  | none | some .null => .ok (fields.filter fun field => !field.same key)
  | some _ => collection options "fillable" []

/-- Fills in the defaults of a declaration. -/
def ofDeclaration (declaration : ResourceDeclaration) : Except Failure ResourceDefinition := do
  let options := declaration.options
  let key ← declaredKey declaration
  let fields ← collection options "fields" []
  let limits ← collection options "limits" [.int 10, .int 25, .int 50]
  let defaultOrder ← declaredOrder options key
  let fillable ← declaredFillable options fields key
  let morphAlias := (options.get? "morph_alias").getD .null
  return {
    name := declaration.name
    table := declaration.table
    key, fields, limits, defaultOrder, fillable
    scopes := declaration.scopes
    defaultLimit := (options.get? "default_limit").getD (.int 50)
    relations := distinctRelations declaration.relations
    softDeletes := (options.get? "soft_deletes").getD (.bool false)
    deletedAtField := (options.get? "deleted_at_field").getD (.text "deleted_at")
    morphAlias := if morphAlias.truthy then morphAlias else .text declaration.table.name
    gates := (options.get? "gates").getD (.bool true) }

/-- Whether a value names a column. -/
def isColumn (table : Table) (name : Json) : Except Failure Bool :=
  if name.isScalar then .ok (name.isName table.columnNames) else .error (.fault .unsuitableValue)

/-- Whether an option names a column. -/
def isColumnOption (table : Table) (name : Json) : Except Failure Bool :=
  if name.isSingle then .ok (name.isName table.columnNames) else .error (.fault .unsuitableValue)

/-- The values that name no column. -/
def strangers (table : Table) (names : List Json) : Except Failure (List Json) :=
  names.filterM fun name => return !(← isColumn table name)

/-- Issues of one column of the usual order and of its direction. -/
def orderIssues (definition : ResourceDefinition) (entry : Json × Json) : Except Failure (List String) := do
  let isThere ← isColumnOption definition.table entry.1
  let fieldIssue :=
    if isThere then [] else [s!"{definition.name}: default order field '{entry.1.bareOption}' is not a column"]
  let directionIssue :=
    if entry.2.isName ["asc", "desc"] then []
    else [s!"{definition.name}: default order direction '{entry.2.bare}' must be asc or desc"]
  return fieldIssue ++ directionIssue

/-- Issues of the column that marks deleted records. -/
def softDeleteIssues (definition : ResourceDefinition) : Except Failure (List String) := do
  if definition.softDeletes.truthy then
    let isThere ← isColumnOption definition.table definition.deletedAtField
    return if isThere then []
      else [s!"{definition.name}: soft delete column '{definition.deletedAtField.bareOption}' is missing"]
  else return []

/-- Issues of the resource itself. -/
def ownIssues (definition : ResourceDefinition) : Except Failure (List String) := do
  let name := definition.name
  let table := definition.table
  let strangeFields ← strangers table definition.fields
  let strangeFillable ← strangers table definition.fillable
  let ofOrder ← definition.defaultOrder.mapM definition.orderIssues
  let ofSoftDeletes ← definition.softDeleteIssues
  return strangeFields.map (fun field => s!"{name}: exposed field '{field.bare}' is not a column of {table.name}")
    ++ strangeFillable.map (fun field => s!"{name}: fillable field '{field.bare}' is not a column of {table.name}")
    ++ ofOrder.flatten
    ++ (if definition.limits.isEmpty then [s!"{name}: at least one exposed limit is required"] else [])
    ++ ofSoftDeletes

/-- Issues of names that a relation needs as columns of a table; a number stands for the column at its place. -/
def missingColumns (label : String) (table : Table) (names : List Json) : Except Failure (List String) := do
  let missing ← names.filterM fun name =>
    match name with
    | .null => .ok true
    | .text text => .ok (!table.hasColumn text)
    | .list _ | .object _ => .error (.fault .unsuitableValue)
    | other =>
      if isPlaceIn table.columns.length other then .ok false else .error (.fault .unsuitableArgument)
  return missing.map fun name => s!"{label}: column '{name.bare}' is missing on {table.name}"

/-- The table that an option names; a value that is not truthy names none. -/
def namedTable (schema : Schema) (name : Json) : Except Failure (Option Table) :=
  if name.truthy && !name.isScalar then .error (.fault .unsuitableValue)
  else .ok (name.text?.bind schema.table?)

/-- Issues of names that a relation needs as columns of every target. -/
def targetIssues (label : String) (targets : List Table) (names : List Json) : Except Failure (List String) := do
  return (← targets.mapM fun table => missingColumns label table names).flatten

/-- Issues of a table between two others and of the names that a relation needs as columns of it. -/
def betweenIssues (label role : String) (schema : Schema) (name : Json) (names : List Json) :
    Except Failure (List String) := do
  match ← namedTable schema name with
  | none => return [s!"{label}: {role} table '{name.bare}' is not in the metadata"]
  | some table => missingColumns label table names

/-- Issues of the column by which one record out of many is picked. -/
def pickIssues (label : String) (targets : List Table) : Option (Json × Json) → Except Failure (List String)
  | none => .ok []
  | some (column, extreme) => do
    let columnIssues ← targetIssues label targets [column]
    return columnIssues ++
      if extreme.isName ["max", "min"] then [] else [s!"{label}: one-of-many aggregate must be max or min"]

/-- Issues of the columns and tables that keep the link of a relation. -/
def linkIssues (label : String) (schema : Schema) (own : Table) (targets : List Table)
    (relation : RelationDeclaration) : Except Failure (List String) :=
  let morphType := relation.morphType.toList.map Json.text
  match relation.kind.linkPlace with
  | .parent => do
    let typeColumn := if relation.kind = .morphTo then [Json.ofText? relation.morphType] else []
    let found ← missingColumns label own (relation.foreignKey :: typeColumn)
    return found ++ (← targetIssues label targets [relation.ownerKey])
  | .child => do
    let found ← missingColumns label own [relation.localKey]
    let onTargets ← targetIssues label targets (relation.foreignKey :: morphType)
    return found ++ onTargets ++ (← pickIssues label targets relation.ofMany)
  | .pivot => do
    let between ← betweenIssues label "pivot" schema relation.pivotTable
      (relation.foreignPivotKey :: relation.relatedPivotKey :: relation.pivotFields ++ morphType)
    let found ← missingColumns label own [relation.localKey]
    return between ++ found ++ (← targetIssues label targets [relation.relatedKey])
  | .through => do
    let between ← betweenIssues label "through" schema relation.throughTable
      [relation.firstKey, relation.secondLocalKey]
    let found ← missingColumns label own [relation.localKey]
    return between ++ found ++ (← targetIssues label targets [relation.secondKey])

/-- The definition that a target names. -/
def named? (definitions : List ResourceDefinition) (name : Json) : Option ResourceDefinition :=
  name.text?.bind fun text => definitions.find? (·.name == text)

/-- Issues of one relation of a resource. -/
def relationIssues (schema : Schema) (definitions : List ResourceDefinition) (definition : ResourceDefinition)
    (relation : RelationDeclaration) : Except Failure (List String) :=
  let label := s!"{definition.name}.{relation.name}"
  if relation.targets.all Json.isScalar then
    match relation.targets.filter fun name => (named? definitions name).isNone with
    | [] =>
      let targets := relation.targets.filterMap fun name => (named? definitions name).map (·.table)
      linkIssues label schema definition.table targets relation
    | unknown =>
      match unknown.mapM Json.text? with
      | none => .error (.fault .unsuitableValue)
      | some names =>
        let listed := ", ".intercalate names
        .ok [s!"{label}: unknown target resource(s) {listed}"]
  else .error (.fault .unsuitableValue)

/-- All issues of a definition, its relations included. -/
def issues (schema : Schema) (definitions : List ResourceDefinition) (definition : ResourceDefinition) :
    Except Failure (List String) := do
  let own ← definition.ownIssues
  let ofRelations ← definition.relations.mapM (relationIssues schema definitions definition)
  return own ++ ofRelations.flatten

/-- A definition as JSON; its key has to be a column. -/
def describe (definition : ResourceDefinition) : Except Failure Json :=
  if !definition.key.isName definition.table.columnNames then .error (.fault (.unknownEntry definition.key.bare))
  else .ok <| .object [
    ("name", .text definition.name),
    ("table", .text definition.table.name),
    ("key", definition.key),
    ("key_column", definition.key),
    ("fields", .list definition.fields),
    ("scopes", .list (definition.scopes.map fun scope => .text scope.name)),
    ("limits", .list definition.limits),
    ("default_limit", definition.defaultLimit),
    ("default_order_by", .list (definition.defaultOrder.map fun (field, direction) => .list [field, direction])),
    ("fillable", .list definition.fillable),
    ("soft_deletes", definition.softDeletes),
    ("deleted_at_field", definition.deletedAtField),
    ("deleted_at_column", if definition.softDeletes.truthy then definition.deletedAtField else .null),
    ("morph_alias", definition.morphAlias),
    ("gates", definition.gates),
    ("relations", .list (definition.relations.map RelationDeclaration.describe))]

end ResourceDefinition

end ResourceApi
