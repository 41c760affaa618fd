import ResourceApi.Mutation.Execution
import ResourceApi.Mutation.Validation
import ResourceApi.Search.Execution
import ResourceApi.Search.Validation

/-!
The operations of a service: search, mutate, and the three ways to delete and bring back a record. A request is
validated before anything is stored or looked up.
-/

namespace ResourceApi.Operations

def search (context : Context) (name : String) (body : Json) : Job SearchResult := do
  let resource ← Job.resource context name
  let spec ← Job.of (Search.validate context.graph resource body)
  Job.authorize context .viewAny resource none
  let plan ← Job.of (Plan.compile context.graph resource spec)
  Job.tell (.compiled resource.name plan.limit plan.pageNumber (plan.includes.map (·.path)))
  let result ← plan.execute
  Job.tell (.searched context.request resource.name result.rows.length result.total)
  return result

def mutate (context : Context) (name : String) (body : Json) : Job MutationResult := do
  let resource ← Job.resource context name
  let nodes ← Job.of (Mutation.validate context.graph resource body)
  Mutation.execute context resource nodes

/-- The result of a record, of which the exposed fields are shown. -/
def exposed (resource : Resource) (number : Nat) (key : Json) (operation : String) : Job WriteResult := do
  let record ← Job.record number
  let shown := resource.fields.filterMap fun name => (record.value? name).map (name, ·)
  let distinct := shown.foldl (fun kept entry => Record.put entry.1 entry.2 kept) []
  return .mk resource.name operation (.plain key) distinct []

/-- Deletes a record, or marks it as deleted where that is how its resource deletes. -/
def destroy (context : Context) (name : String) (key : Json) : Job WriteResult := do
  let resource ← Job.resource context name
  let result ← Job.transaction do
    let number ← Job.find resource key false
    Job.authorize context .delete resource (some (← Job.keyOf resource number))
    match resource.deletedAt with
    | some column =>
      Job.setValues number [(column, context.now)]
      Job.writeAll
    | none => Job.remove number
    exposed resource number key "delete"
  Job.tell (.deleted context.request resource.name key resource.softDeletes)
  return result

/-- Takes the mark of deletion from a record. -/
def restore (context : Context) (name : String) (key : Json) : Job WriteResult := do
  let resource ← Job.resource context name
  match resource.deletedAt with
  | none => Job.fail (.unsupported (.softDeletes resource.name))
  | some column =>
    let result ← Job.transaction do
      let number ← Job.find resource key true
      Job.authorize context .restore resource (some (← Job.keyOf resource number))
      Job.setValues number [(column, .null)]
      Job.writeAll
      exposed resource number key "restore"
    Job.tell (.restored context.request resource.name key)
    return result

/-- Deletes a record for good, also one that is marked as deleted. -/
def forceDelete (context : Context) (name : String) (key : Json) : Job WriteResult := do
  let resource ← Job.resource context name
  let result ← Job.transaction do
    let number ← Job.find resource key true
    Job.authorize context .forceDelete resource (some (← Job.keyOf resource number))
    let result ← exposed resource number key "force_delete"
    Job.remove number
    return result
  Job.tell (.destroyed context.request resource.name key)
  return result

end ResourceApi.Operations
