import ResourceApi.Resource.Graph
import ResourceApi.Text.Path

/-!
Relation paths: dotted names that lead from a resource through its relations. Paths of two names are as far as searches
look, and a path ends at a relation with several possible targets.
-/

namespace ResourceApi.Graph

/-- Greatest number of names in the relation path of a search. -/
def pathDepth : Nat := 2

/-- Sets the relation of a path where it stands, or adds it at the end. -/
def putPath (paths : List (String × Relation)) (path : String) (relation : Relation) : List (String × Relation) :=
  if paths.any (·.1 == path) then paths.map fun entry => if entry.1 == path then (path, relation) else entry
  else paths ++ [(path, relation)]

/-- The relation paths of at most so many names, each with its last relation; every path follows its own beginning. -/
def relationPaths (graph : Graph) : Nat → Resource → String → Except Failure (List (String × Relation))
  | 0, _, _ => .ok []
  | depth + 1, resource, start =>
    resource.relations.foldlM (fun paths relation => do
      let path := start ++ relation.name
      let paths := putPath paths path relation
      if 0 < depth && relation.isNestable then
        let deeper ← relationPaths graph depth (← graph.target relation) (path ++ ".")
        return deeper.foldl (fun paths entry => putPath paths entry.1 entry.2) paths
      else return paths) []

/-- The relation paths of a search. -/
def searchPaths (graph : Graph) (resource : Resource) : Except Failure (List (String × Relation)) :=
  relationPaths graph pathDepth resource ""

/-- The fields of a resource and those of the resources that its relations lead to, named by relation and field. -/
def filterFields (graph : Graph) (resource : Resource) : Except Failure (List String) := do
  let related ← (resource.relations.filter (·.isNestable)).mapM fun relation => do
    let target ← graph.target relation
    return target.fields.map fun field => relation.name ++ "." ++ field
  return resource.fields ++ related.flatten

/-- The resource from which a walk goes on behind a relation. -/
def behind (graph : Graph) (resource : Resource) (relation : Relation) : Except Failure Resource :=
  if relation.isNestable then graph.target relation else .ok resource

/-- Walks along the names of a path; each hop is a relation with the resource that has it. -/
def walk (graph : Graph) (resource : Resource) : List String → Except Failure (List (Resource × Relation))
  | [] => .ok []
  | name :: rest => do
    match resource.relation? name with
    | none => .error (.mismatch (.unknownRelation name resource.name))
    | some relation =>
      return (resource, relation) :: (← walk graph (← graph.behind resource relation) rest)

/-- The hops of a dotted path. -/
def hops (graph : Graph) (resource : Resource) (path : String) : Except Failure (List (Resource × Relation)) :=
  walk graph resource (Path.names path)

/-- Where a relation path of a search leads: its last relation and the resource behind it. -/
def resolve? (graph : Graph) (resource : Resource) (path : Json) : Except Failure (Option (Relation × Resource)) := do
  match path with
  | .text path =>
    if (← graph.searchPaths resource).any (·.1 == path) then
      match (← graph.hops resource path).getLast? with
      | some (_, relation) => return some (relation, ← graph.target relation)
      | none => return none
    else return none
  | _ => return none

/-- The paths over which values can be computed: no relation on them has several possible targets. -/
def aggregatePaths (graph : Graph) (resource : Resource) : Except Failure (List String) := do
  let paths ← graph.searchPaths resource
  let nestable ← paths.filterM fun (path, _) => return (← graph.hops resource path).all (·.2.isNestable)
  return nestable.map (·.1)

end ResourceApi.Graph
