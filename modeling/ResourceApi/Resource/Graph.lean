import ResourceApi.Relation.Link
import ResourceApi.Resource.Definition

/-!
The graph of resources: definitions that fit the tables and each other. `Graph.build` accepts a list of declarations if
and only if it finds no issue in it.
-/

namespace ResourceApi

/-- A resource whose names are known to be columns of its table, and whose relations lead to resources of the graph. -/
structure Resource where
  name : String
  table : Table
  key : String
  fields : List String
  scopes : List Scope
  limits : List Json
  defaultLimit : Json
  defaultOrder : List (String × Direction)
  relations : List Relation
  fillable : List String
  /-- The soft-delete option as it was given. -/
  softDeletes : Json
  /-- Column that holds when a record was deleted, if records are only marked as deleted. -/
  deletedAt : Option String
  /-- Value that stands for the resource in type columns. -/
  morphAlias : Json
  /-- Whether policies apply. -/
  gates : Bool
  deriving Repr, Inhabited

namespace Resource

def relation? (resource : Resource) (name : String) : Option Relation :=
  resource.relations.find? (·.name == name)

def scope? (resource : Resource) (name : String) : Option Scope := resource.scopes.find? (·.name == name)

end Resource

structure Graph where
  resources : List Resource
  deriving Repr, Inhabited

namespace ResourceDefinition

/-- A column of the usual order with its direction. -/
def orderColumn? (entry : Json × Json) : Option (String × Direction) := do
  return (← entry.1.text?, ← Direction.ofName? (← entry.2.text?))

/-- The column that marks deleted records, if they are only marked. -/
def deletedAt? (definition : ResourceDefinition) : Option (Option String) :=
  if definition.softDeletes.truthy then definition.deletedAtField.text?.map some else some none

/-- The resource of a definition, provided that all its names are texts. -/
def resource? (definition : ResourceDefinition) (schema : Schema) : Option Resource := do
  return {
    name := definition.name
    table := definition.table
    key := ← definition.key.text?
    fields := ← definition.fields.mapM Json.text?
    scopes := definition.scopes
    limits := definition.limits
    defaultLimit := definition.defaultLimit
    defaultOrder := ← definition.defaultOrder.mapM orderColumn?
    deletedAt := ← definition.deletedAt?
    relations := ← definition.relations.mapM (·.relation? schema)
    fillable := ← definition.fillable.mapM Json.text?
    softDeletes := definition.softDeletes
    morphAlias := definition.morphAlias
    gates := definition.gates.truthy }

/-- Keeps the first definition of each name; the others are issues. -/
def distinct (definitions : List ResourceDefinition) : List ResourceDefinition × List String :=
  definitions.foldl (fun (kept, issues) definition =>
    if kept.any (·.name == definition.name) then (kept, issues ++ [s!"{definition.name}: registered more than once"])
    else (kept ++ [definition], issues)) ([], [])

end ResourceDefinition

namespace Graph

def get? (graph : Graph) (name : String) : Option Resource := graph.resources.find? (·.name == name)

/-- The definitions of a list of declarations, if there is no issue in them. -/
def define (schema : Schema) (declarations : List ResourceDeclaration) : Except Failure (List ResourceDefinition) := do
  let all ← declarations.mapM ResourceDefinition.ofDeclaration
  let (definitions, repeated) := ResourceDefinition.distinct all
  let found ← definitions.mapM fun definition => definition.issues schema definitions
  match repeated ++ found.flatten with
  | [] => return definitions
  | issues => .error (.misconfigured issues)

/-- The graph of a list of declarations. -/
def build (schema : Schema) (declarations : List ResourceDeclaration) : Except Failure Graph := do
  let definitions ← define schema declarations
  match definitions.mapM (·.resource? schema) with
  | some resources => return ⟨resources⟩
  | none => .error (.fault .unsuitableArgument)

/-- The resource that a relation leads to, the first one if there are several. -/
def target (graph : Graph) (relation : Relation) : Except Failure Resource :=
  match relation.targets with
  | [] => .error (.fault .emptyChoice)
  | name :: _ =>
    match graph.get? name with
    | some resource => .ok resource
    | none => .error (.fault (.unknownEntry name))

/-- The resource that a relation leads to when its type is told by a tag. -/
def taggedTarget (graph : Graph) (relation : Relation) (tag : Json) : Except Failure Resource :=
  let chosen := relation.targets.find? fun name => tag.isName [name]
  match chosen with
  | none =>
    let listed := ", ".intercalate relation.targets
    .error (.invalid [s!"{relation.name}: resource type {tag.display} is not one of {listed}"])
  | some name =>
    match graph.get? name with
    | some resource => .ok resource
    | none => .error (.fault (.unknownEntry name))

end Graph

end ResourceApi
