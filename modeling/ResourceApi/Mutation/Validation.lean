import ResourceApi.Mutation.Reader
import ResourceApi.Mutation.Rules
import ResourceApi.Search.Validation

/-!
Validation of mutations: a body that keeps to the rules of its resource is read into nodes.
-/

namespace ResourceApi.Mutation

/-- The nodes of a body: its `mutate` member, or the body itself as a list or as a single node. -/
def normalize : Json → Json
  | .object members => (members.lookup "mutate").getD (.list [.object members])
  | body => body

/-- The nodes of a mutation body. -/
def validate (graph : Graph) (resource : Resource) (body : Json) : Except Failure (List Node) := do
  let nodes := normalize body
  match ← errors graph (rules resource "mutate") (.object [("mutate", nodes)]) with
  | [] =>
    match nodes with
    | .list items => items.mapM fun item => ((Node.read item).resultBelow "mutate").mapError Failure.asInvalid
    | _ => .error (.fault .unsuitableValue)
  | found => .error (.invalid found)

end ResourceApi.Mutation
