import ResourceApi.Text.Cut
import ResourceApi.Text.Percent

/-!
Routes: what a method and a path ask for.
-/

namespace ResourceApi

inductive Route where
  | health
  | search (resource : String)
  | mutate (resource : String)
  | destroy (resource key : String)
  | restore (resource key : String)
  | forceDelete (resource key : String)
  | notFound
  | notAllowed
  deriving Repr, DecidableEq, Inhabited

namespace Route

/-- The routes of a path, each with its method. -/
def ofPath (path : String) : List (String × Route) :=
  let names := (Text.cut '/' (Text.percentDecoded path).toList).map String.ofList
  match names with
  | ["", "health"] => [("GET", health)]
  | ["", "api", resource, name] =>
    if resource.isEmpty || name.isEmpty then []
    else
      (if name = "search" then [("POST", search resource)] else []) ++
      (if name = "mutate" then [("POST", mutate resource)] else []) ++ [("DELETE", destroy resource name)]
  | ["", "api", resource, key, name] =>
    if resource.isEmpty || key.isEmpty then []
    else if name = "restore" then [("POST", restore resource key)]
    else if name = "force" then [("DELETE", forceDelete resource key)]
    else []
  | _ => []

/-- The route of a method and a path; a path that is known by other methods alone does not allow this one. -/
def of (method path : String) : Route :=
  match ofPath path with
  | [] => notFound
  | routes => (routes.lookup method).getD notAllowed

end Route

end ResourceApi
