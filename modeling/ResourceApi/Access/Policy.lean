import ResourceApi.Json.Equality

/-!
Who may do what. A policy decides for one resource whether a principal may do something, at times with a certain record;
resources without a policy follow the default.
-/

namespace ResourceApi

/-- What a request does to a resource. -/
inductive Action where
  | viewAny | create | update | attach | detach | delete | restore | forceDelete
  deriving Repr, DecidableEq, Inhabited

def Action.name : Action → String
  | viewAny => "view_any"
  | create => "create"
  | update => "update"
  | attach => "attach"
  | detach => "detach"
  | delete => "delete"
  | restore => "restore"
  | forceDelete => "force_delete"

/-- Who makes a request. -/
structure Principal where
  id : Json := .null
  roles : List String := []
  deriving Inhabited

/-- A policy: a fixed answer if it has one, else denied actions, denied keys and roles that actions need. -/
structure Policy where
  answer : Option Json := none
  denied : List String := []
  deniedKeys : List (String × List Json) := []
  roles : List (String × String) := []
  deriving Inhabited

/-- Whether a policy lets a principal do something with the record of a key, or with no record yet. -/
def Policy.allows (policy : Policy) (action : Action) (key : Option Json) (principal : Principal) : Bool :=
  match policy.answer with
  | some answer => answer.truthy
  | none =>
    let name := action.name
    let keyDenied := match key with
      | some key => key.isIn ((policy.deniedKeys.lookup name).getD [])
      | none => false
    if policy.denied.contains name || keyDenied then false
    else match policy.roles.lookup name with
      | some role => principal.roles.contains role
      | none => true

/-- The policies of a service. -/
structure Access where
  policies : List (String × Policy) := []
  default : Bool := true
  deriving Inhabited

/-- A question put to a policy. -/
structure PolicyCall where
  resource : String
  action : Action
  key : Option Json
  deriving Inhabited

end ResourceApi
