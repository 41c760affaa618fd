import ResourceApi.Mutation.JoinRows
import ResourceApi.Mutation.Node
import ResourceApi.Mutation.Result

/-!
Writing nodes. A node is one record: it is found by its key or made anew, the records that it refers to are written
first, then its own values, then the records that refer to it and the rows of join tables. All nodes of a mutation are
written in one transaction.
-/

namespace ResourceApi.Mutation

/-- The result of a record in hand. -/
def resultOf (resource : Resource) (number : Nat) (operation : String)
    (relations : List (String × List WriteResult)) : Job WriteResult := do
  let record ← Job.record number
  return .mk resource.name operation (record.value resource.key) record.inOrder relations

/-- Refuses relations that a resource does not have or that cannot be written. -/
def checkRelations (resource : Resource) (names : List String) : Except Failure Unit :=
  names.forM fun name =>
    match resource.relation? name with
    | none => .error (.unsupported (.undeclared name resource.name))
    | some relation =>
      if relation.isMutable then .ok () else .error (.unsupported (.readOnly name relation.kind.name))

/-- The resource of a node below a relation. -/
def targetOf (graph : Graph) (relation : Relation) (resource : Option String) : Except Failure Resource :=
  if relation.kind = .morphTo then graph.taggedTarget relation (Json.ofText? resource) else graph.target relation

/-- Finds the record that a node links or unlinks, and asks whether that is allowed. -/
def findLinked (context : Context) (target : Resource) (node : Node) (operation : Operation) : Job Nat := do
  let number ← Job.find target ((Members.get? node.attributes target.key).getD .null) false
  let action := if operation = .detach then Action.detach else .attach
  Job.authorize context action target (some (← Job.keyOf target number))
  return number

/-- Lets go of the record before, unless it was in hand from the start or is the same as the new one. -/
def replace (start : Nat) (old : Option Nat) (new : Nat) : Job Unit :=
  match old with
  | some number => if start ≤ number && number ≠ new then Job.release number else pure ()
  | none => pure ()

/-- The values by which a related record refers to a record. -/
def childLink (resource : Resource) (link : ChildLink) (record : Record) : Values :=
  (link.foreignKey, record.value link.localKey) ::
    link.morphType.toList.map fun column => (column, .plain resource.morphAlias)

/-- The values by which a record refers to a related one, or to none. -/
def parentLink (link : ParentLink) (related : Option (Value × Resource)) : Values :=
  match related with
  | some (key, target) =>
    (link.foreignKey, key) :: link.morphType.toList.map fun column => (column, .plain target.morphAlias)
  | none => (link.foreignKey, .null) :: link.morphType.toList.map fun column => (column, .null)

/-- The rows of a record that no node asked for go, once it was allowed for each of them. -/
def dropStale (context : Context) (target : Resource) (rows : JoinRows) (stale : List Value) (start : Nat) :
    Job Unit := do
  if stale.isEmpty then return
  let mut last : Option Nat := none
  for key in sortedKeys stale do
    let number ← Job.find target key.compared true
    replace start last number
    last := some number
    Job.authorize context .detach target (some (← Job.keyOf target number))
  rows.remove stale

/-- Makes the rows of a record lead to the records of the nodes and to no others. -/
def syncNodes (context : Context) (target : Resource) (rows : JoinRows) (start : Nat) (existing : List Value) :
    List Node → List Value → Option Nat → Job (List WriteResult)
  | [], desired, _ => do
    dropStale context target rows (existing.filter fun key => !desired.any key.same) (← get).next
    return []
  | node :: rest, desired, last => do
    let number ← findLinked context target node .sync
    replace start last number
    let key := (← Job.record number).value rows.link.targetKey
    let known := existing.any key.same
    if known then
      if !node.pivot.isEmpty then rows.change key node.pivot
    else rows.add key node.pivot
    let result ← resultOf target number "sync" []
    let existing := if known then existing else existing ++ [key]
    return result :: (← syncNodes context target rows start existing rest (desired ++ [key]) (some number))

mutual
/-- Writes one record and what stands below it. `link` are the values by which it refers to the record above. -/
def writeNode (context : Context) (resource : Resource) (link : Values) : Node → Job WriteResult
  | .mk attributes _ _ relations => do
    Job.of (checkRelations resource (relations.map (·.1)))
    let start := (← get).next
    let key := (Members.get? attributes resource.key).getD .null
    let number ← if key.isNull then do
        Job.authorize context .create resource none
        Job.take (Record.new resource.table)
      else do
        let number ← Job.find resource key false
        Job.authorize context .update resource (some (← Job.keyOf resource number))
        pure number
    let before ← writeEntries context resource number true relations
    let given := resource.fillable.filterMap fun name =>
      (Members.get? attributes name).map fun j => (name, Value.plain j)
    Job.setValues number (given ++ link)
    Job.flush number
    let after ← writeEntries context resource number false relations
    let result ← resultOf resource number (if key.isNull then "create" else "update") (before ++ after)
    Job.releaseFrom start
    return result
termination_by structural node => node

/-- Writes the relations whose link the record keeps itself, or all the others. -/
def writeEntries (context : Context) (resource : Resource) (number : Nat) (kept : Bool) :
    List (String × Entry) → Job (List (String × List WriteResult))
  | [] => return []
  | (name, entry) :: rest =>
    match resource.relation? name with
    | none => writeEntries context resource number kept rest
    | some relation => do
      if (relation.kind.linkPlace == .parent) == kept then
        let results ← writeEntry context resource number relation entry
        return (name, results) :: (← writeEntries context resource number kept rest)
      else writeEntries context resource number kept rest
termination_by structural entries => entries

def writeEntry (context : Context) (resource : Resource) (number : Nat) (relation : Relation) :
    Entry → Job (List WriteResult)
  | .mk operation nodes => do
    if !relation.kind.allows operation then Job.fail (.unsupported (.operation operation.name relation.name))
    let start := (← get).next
    let results ← match relation.link with
      | .parent link => writeParents context number relation link operation start none nodes
      | .child link => do
        let target ← Job.of (context.graph.target relation)
        let values := childLink resource link (← Job.record number)
        writeChildren context target values operation start none nodes
      | .pivot link => do
        let target ← Job.of (context.graph.target relation)
        let rows := JoinRows.ofRecord resource target link (← Job.record number)
        if operation = .sync then
          let existing ← rows.relatedKeys
          syncNodes context target rows start existing nodes [] none
        else writeJoined context target rows operation start none nodes
      | .through _ => Job.fail (.unsupported (.readOnly relation.name relation.kind.name))
    Job.releaseFrom start
    return results
termination_by structural entry => entry

/-- Writes or links the records that a record refers to. -/
def writeParents (context : Context) (number : Nat) (relation : Relation) (link : ParentLink)
    (operation : Operation) (start : Nat) (last : Option Nat) : List Node → Job (List WriteResult)
  | [] => return []
  | node :: rest => do
    let target ← Job.of (targetOf context.graph relation node.resource)
    if operation = .create then
      let result ← writeNode context target [] node
      Job.setValues number (parentLink link (some (result.linkValue link.ownerKey, target)))
      return result :: (← writeParents context number relation link operation start last rest)
    else
      let found ← findLinked context target node operation
      replace start last found
      let key := (← Job.record found).value link.ownerKey
      let result ← resultOf target found operation.name []
      Job.setValues number (parentLink link (if operation = .detach then none else some (key, target)))
      return result :: (← writeParents context number relation link operation start (some found) rest)
termination_by structural nodes => nodes

/-- Writes or links the records that refer to a record. -/
def writeChildren (context : Context) (target : Resource) (values : Values) (operation : Operation) (start : Nat)
    (last : Option Nat) : List Node → Job (List WriteResult)
  | [] => return []
  | node :: rest => do
    if operation = .create then
      let result ← writeNode context target values node
      return result :: (← writeChildren context target values operation start last rest)
    else
      let found ← findLinked context target node operation
      replace start last found
      Job.setValues found
        (if operation = .detach then values.map fun entry => (entry.1, .null) else values)
      Job.flush found
      let result ← resultOf target found operation.name []
      return result :: (← writeChildren context target values operation start (some found) rest)
termination_by structural nodes => nodes

/-- Writes or finds records, and adds or removes the rows of a join table that link a record to them. -/
def writeJoined (context : Context) (target : Resource) (rows : JoinRows) (operation : Operation) (start : Nat)
    (last : Option Nat) : List Node → Job (List WriteResult)
  | [] => return []
  | node :: rest => do
    if operation = .create then
      let result ← writeNode context target [] node
      rows.add (result.linkValue rows.link.targetKey) node.pivot
      return result :: (← writeJoined context target rows operation start last rest)
    else
      let found ← findLinked context target node operation
      replace start last found
      let key := (← Job.record found).value rows.link.targetKey
      let result ← resultOf target found operation.name []
      if operation = .detach then rows.remove [key] else rows.add key node.pivot
      return result :: (← writeJoined context target rows operation start (some found) rest)
termination_by structural nodes => nodes
end

/-- Writes nodes in one transaction. -/
def execute (context : Context) (resource : Resource) (nodes : List Node) : Job MutationResult := do
  let results ← Job.transaction (nodes.mapM (writeNode context resource []))
  let isNew (result : WriteResult) : Bool := result.operation == "create"
  let created := (results.filter isNew).map WriteResult.key
  let updated := (results.filter (!isNew ·)).map WriteResult.key
  Job.tell (.written context.request resource.name (created.map (Value.json "+00:00"))
    (updated.map (Value.json "+00:00")))
  return ⟨created, updated, results⟩

end ResourceApi.Mutation
