import ResourceApi.Mutation.Node
import ResourceApi.Relation.Rules
import ResourceApi.Resource.Paths
import ResourceApi.Rule.Check

/-!
What a mutation may write. Every node keeps to the rules of its resource; the nodes below a relation are checked by the
rules of the resource it leads to, as deep as the document goes.
-/

namespace ResourceApi.Mutation

/-- Rules for the node at a path. -/
def nodeRules (resource : Resource) (path : String) : RuleSet :=
  let own : RuleSet := [
    (path, [.graph (.fillable resource)]),
    (Path.under path "relations", [.sometimes, .isObject, .graph (.knownRelations resource)])]
  resource.relations.foldl (fun rules relation =>
    let place := Path.under path ("relations." ++ relation.name)
    let written := rules.merge (relation.writeRules place)
    if relation.isMutable then written.merge [
      (place, [.graph (.operationKeys relation)]),
      (place ++ ".operations.*", [.graph (.relatedNode relation)])]
    else written) own

/-- Rules for a list of nodes at a path. -/
def rules (resource : Resource) (path : String) : RuleSet :=
  RuleSet.merge [
    (path, [.required, .isList]),
    (path ++ ".*", [.isObject]),
    (path ++ ".*.pivot", [.prohibited]),
    (path ++ ".*.resource", [.prohibited])] (nodeRules resource (path ++ ".*"))

/-! ## Answers of the graph -/

/-- The resource of a node below a relation; a polymorphic relation leaves it open until the node names one of its
targets. -/
def relatedResource? (graph : Graph) (relation : Relation) (node : Json) : Except Failure (Option Resource) :=
  if relation.kind = .morphTo then
    match (node.get? "resource").bind Json.text? with
    | some name => if relation.targets.contains name then .ok (graph.get? name) else .ok none
    | none => .ok none
  else (graph.target relation).map some

/-- Nodes that link or unlink records without saying which. -/
def missingKeys (graph : Graph) (relation : Relation) (value : Json) (path : String) :
    Except Failure (List String) := do
  match (value.get? "operation").getD (.text "create"), value.get? "operations" with
  | .text operation, some (.list nodes) =>
    if operation ∉ ["attach", "detach", "sync"] then return []
    let found ← nodes.zipIdx.mapM fun (node, position) => do
      if !node.isObject then return []
      match ← relatedResource? graph relation node with
      | none => return []
      | some target =>
        match node.get? target.key with
        | none | some .null => return [s!"{path}.operations.{position}.{target.key}: is required to {operation}"]
        | some _ => return []
    return found.flatten
  | _, _ => return []

/-- Answers for nodes, so many levels of relations deep. -/
def answerTo (graph : Graph) : Nat → GraphRule.Answer
  | _, .fillable resource, .object members, path =>
    let allowed := resource.fillable ++ resource.key :: Node.reserved
    .ok ((members.filter fun entry => !allowed.contains entry.1).map fun (key, _) =>
      let place := Path.under path key
      s!"{place}: field is not fillable on {resource.name}")
  | _, .knownRelations resource, .object members, path =>
    .ok ((members.filter fun entry => (resource.relation? entry.1).isNone).map fun (name, _) =>
      let place := Path.under path name
      s!"{place}: relation is not declared on {resource.name}")
  | _, .operationKeys relation, value, path => missingKeys graph relation value path
  | levels + 1, .relatedNode relation, .object members, path => do
    match ← relatedResource? graph relation (.object members) with
    | some target => (nodeRules target "").errorsAt (answerTo graph levels) (.object members) path
    | none => return []
  | _, _, _, _ => .ok []

/-- Messages of a document against rules for nodes. A node below another one lies deeper in the document, so its depth
bounds the levels of relations. -/
def errors (graph : Graph) (rules : RuleSet) (data : Json) : Except Failure (List String) :=
  rules.errors (answerTo graph data.depth) data

end ResourceApi.Mutation
