import ResourceApi.Relation.Declaration
import ResourceApi.Schema.Table
import ResourceApi.Search.Scope

/-!
Resources as they are declared: for each a model, what of it is exposed, and its relations. Reading collects every issue
before it fails, so that one report names all of them.
-/

namespace ResourceApi

/-- A declared resource; values that were given stay as they were. -/
structure ResourceDeclaration where
  name : String
  table : Table
  /-- The options that were given. -/
  options : Members
  scopes : List Scope
  relations : List RelationDeclaration
  deriving Repr, Inhabited

namespace ResourceDeclaration

/-- A value counts as absent when it is not truthy; otherwise it has to be an object. -/
def membersOrNone (value : Option Json) : Except Failure Members :=
  match value with
  | some (.object members) => .ok members
  | some other => if other.truthy then .error (.fault .missingPart) else .ok []
  | none => .ok []

/-- The scopes of a resource and the issues of those that are not known. -/
def readScopes (name : String) (spec : Members) : Except Failure (List Scope × List String) := do
  let some items := ((spec.get? "scopes").getD (.list [])).elements? | .error (.fault .unsuitableValue)
  if items.all Json.isScalar then
    let found := items.filterMap fun item => item.text?.bind fun text => Scope.known.find? (·.name == text)
    let unknown := items.filter fun item => !(Scope.known.any fun scope => item.isName [scope.name])
    let distinct := found.foldl (fun kept scope => if kept.any (·.name == scope.name) then kept else kept ++ [scope]) []
    return (distinct, unknown.map fun item => s!"{name}: unknown scope {item.display}")
  else .error (.fault .unsuitableValue)

/-- The options of one relation; what is neither an object nor empty has none. -/
def relationOptions (value : Json) : Except Failure Members :=
  match value with
  | .object members => .ok members
  | .text _ | .list _ => if value.truthy then .error (.fault .impossibleValue) else .ok []
  | _ => if value.truthy then .error (.fault .unsuitableValue) else .ok []

/-- The relations of a resource and the issues of those that are wrong. -/
def readRelations (name : String) : Members → Except Failure (List RelationDeclaration × List String)
  | [] => .ok ([], [])
  | (relationName, value) :: rest => do
    let options ← relationOptions value
    match RelationDeclaration.read relationName options with
    | .ok relation =>
      let (relations, issues) ← readRelations name rest
      return (relation :: relations, issues)
    | .error (.misconfigured found) =>
      let (relations, issues) ← readRelations name rest
      return (relations, found.map (fun issue => s!"{name}.{issue}") ++ issues)
    | .error failure => .error failure

/-- One resource, with the issues that stand against it; it has none of its own when its model is not known. A model that
is not given is looked for under the empty name. -/
def readOne (schema : Schema) (name : String) (value : Json) :
    Except Failure (Option ResourceDeclaration × List String) := do
  let spec ← membersOrNone (some value)
  let model := (spec.get? "model").getD (.text "")
  if !model.isScalar then .error (.fault .unsuitableValue)
  match model.text?.bind schema.modelTable? with
  | none =>
    let shown := ((spec.get? "model").getD .null).display
    return (none, [s!"{name}: unknown model {shown}"])
  | some table =>
    let (scopes, scopeIssues) ← readScopes name spec
    let (relations, relationIssues) ← readRelations name (← membersOrNone (spec.get? "relations"))
    -- A class takes the name of the resource, and no name of a class holds a zero character.
    if name.toList.contains '\x00' then .error (.fault .impossibleValue)
    return (some ⟨name, table, spec, scopes, relations⟩, scopeIssues ++ relationIssues)

/-- The resources that a mapping declares. -/
def readAll (schema : Schema) (mapping : Members) : Except Failure (List ResourceDeclaration) := do
  let entries ← membersOrNone (mapping.get? "resources")
  let read ← entries.mapM fun (name, value) => readOne schema name value
  match read.flatMap (·.2) with
  | [] => return read.filterMap (·.1)
  | issues => .error (.misconfigured issues)

end ResourceDeclaration

end ResourceApi
