import ResourceApi.Search.Reader
import ResourceApi.Search.Rules

/-!
Validation of searches: a body that keeps to the rules of its resource is read into a specification.
-/

namespace ResourceApi

/-- Problems of form count as broken rules. -/
def Failure.asInvalid : Failure → Failure
  | .unreadable errors => .invalid errors
  | failure => failure

namespace Search

/-- The specification of a search body. -/
def validate (graph : Graph) (resource : Resource) (body : Json) : Except Failure Specification := do
  if !body.isObject then .error (.invalid ["search: body must be an object"])
  match ← (← rules graph resource "" true).errors (answer graph) body with
  | [] => (Specification.read body).result.mapError Failure.asInvalid
  | errors => .error (.invalid errors)

end Search

end ResourceApi
