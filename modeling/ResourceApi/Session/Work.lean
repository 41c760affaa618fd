import ResourceApi.Access.Policy
import ResourceApi.Resource.Graph
import ResourceApi.Session.Event
import ResourceApi.Session.Record

/-!
Work on a database. A job either gives a result or fails, and in both cases leaves a state behind: what it told and what
policies were asked stays, while a failed transaction takes back all that it stored.
-/

namespace ResourceApi

/-- The state of a piece of work. -/
structure Work where
  database : Database
  /-- The database as it was when the transaction that is open was begun. -/
  opened : Option Database := none
  /-- The records in hand by number. -/
  records : List (Nat × Record) := []
  /-- The number of the next record to be taken in hand. -/
  next : Nat := 0
  events : List Event := []
  calls : List PolicyCall := []
  deriving Inhabited

abbrev Job (α : Type) := ExceptT Failure (StateM Work) α

/-- What a request is answered with: the resources, who asks, and who may do what. -/
structure Context where
  graph : Graph
  access : Access := {}
  principal : Principal := {}
  request : Option String := none
  /-- The time of the request. -/
  now : Value := .moment "1970-01-01T00:00:00" true
  deriving Inhabited

namespace Work

/-- Opens a transaction. -/
def start (work : Work) : Work :=
  match work.opened with
  | some _ => work
  | none => { work with opened := some work.database }

/-- Keeps what was stored in the open transaction. -/
def commit (work : Work) : Work := { work with opened := none }

/-- Takes back what was stored in the open transaction. -/
def rollback (work : Work) : Work := { work with database := work.opened.getD work.database, opened := none }

/-- The same database, with nothing told or asked yet. -/
def fresh (work : Work) : Work := { work with events := [], calls := [] }

end Work

namespace Job

variable {α : Type}

def fail (failure : Failure) : Job α := throw failure

/-- A result that may have failed already. -/
def of (result : Except Failure α) : Job α := fun work => (result, work)

/-- What the storage answers. -/
def stored (result : Except StorageCause α) : Job α := of (result.mapError .storage)

def tell (event : Event) : Job Unit := modify fun work => { work with events := work.events ++ [event] }

def database : Job Database := return (← get).database

def setDatabase (database : Database) : Job Unit := modify fun work => { work with database }

/-- A transaction, or a part of the one that is open: if it fails, the database is as it was before, and no record is in
hand any more. -/
def transaction (job : Job α) : Job α := fun work =>
  match job work with
  | (.ok result, after) => (.ok result, { after with records := [] })
  | (.error failure, after) =>
    (.error failure,
      { after with database := work.database, records := [], events := after.events ++ [.rolledBack failure] })

/-- Work in a session of its own: what is not kept by the time it ends is taken back. -/
def alone (job : Job α) : Job α := fun work =>
  match job { work with opened := none } with
  | (result, after) => (result, { after.rollback with opened := work.opened })

/-- Asks whether an action is allowed, and fails if it is not. -/
def authorize (context : Context) (action : Action) (resource : Resource) (key : Option Json) : Job Unit := do
  if !resource.gates then return
  let allowed ← match context.access.policies.lookup resource.name with
    | none => pure context.access.default
    | some policy =>
      modify fun work => { work with calls := work.calls ++ [⟨resource.name, action, key⟩] }
      pure (policy.allows action key context.principal)
  if !allowed then
    tell (.denied action.name resource.name)
    fail (.denied action.name resource.name)

/-- The resource of a name. -/
def resource (context : Context) (name : String) : Job Resource :=
  match context.graph.get? name with
  | some resource => return resource
  | none => fail (.notFound "resource" (.text name))

end Job

end ResourceApi
