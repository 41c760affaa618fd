import ResourceApi.Http.Route
import ResourceApi.Json.Reader
import ResourceApi.Session.Operations
import ResourceApi.Text.Integer

/-!
Answers to HTTP requests. Every request has a session of its own; failures that clients can do something about become
statuses, all others are left to the server.
-/

namespace ResourceApi

structure HttpRequest where
  method : String
  path : String
  body : ByteArray

structure HttpResponse where
  status : Nat
  body : Json
  deriving Inhabited

namespace HttpResponse

def ok (body : Json) : HttpResponse := ⟨200, body⟩

def detail (status : Nat) (detail : Json) : HttpResponse := ⟨status, .object [("detail", detail)]⟩

def error (status : Nat) (message : String) : HttpResponse := detail status (.object [("error", .text message)])

def errors (messages : List String) : HttpResponse :=
  detail 422 (.object [("errors", .list (messages.map .text))])

/-- The response to a failure, if clients are told about it. -/
def ofFailure? (failure : Failure) : Option HttpResponse :=
  match failure with
  | .invalid messages => some (errors messages)
  | .unsupported _ => some (error 422 failure.message)
  | .denied .. => some (error 403 failure.message)
  | .notFound .. => some (error 404 failure.message)
  | .storage _ | .mismatch _ => some (error 500 failure.message)
  | _ => none

end HttpResponse

namespace Http

/-- Mark of the zone behind moments in a response. -/
def zone : String := "Z"

/-- Runs an operation and makes a response of its result or its failure. -/
def respond {α : Type} (operation : Job α) (describe : α → Json) : Job HttpResponse := fun work =>
  match operation work with
  | (.ok result, after) => (.ok (.ok (describe result)), after)
  | (.error failure, after) =>
    match HttpResponse.ofFailure? failure with
    | none => (.error failure, after)
    | some response =>
      let told := if response.status = 500 then [Event.failed failure] else []
      (.ok response, { after with events := after.events ++ told })

/-- The key that a part of a path stands for, in the type of the key of a resource. -/
def key? (resource : Resource) (text : String) : Except Failure (Option Json) :=
  match resource.table.column? resource.key with
  | none => .error (.fault (.unknownEntry resource.key))
  | some column => .ok <| match column.type with
    | .integer => (Text.integer? text).map .int
    | .float => (Double.ofText? text).map .double
    | .string => some (.text text)
    | .datetime => none

/-- Answers with a resource of a name. -/
def withResource (context : Context) (name : String) (answer : Resource → Job HttpResponse) : Job HttpResponse :=
  match context.graph.get? name with
  | some resource => answer resource
  | none => return .error 404 s!"Resource '{name}' not found"

/-- Answers with the body of a request. -/
def withBody (body : ByteArray) (answer : Json → Job HttpResponse) : Job HttpResponse :=
  match Json.readBytes body with
  | some value => answer value
  | none => return .errors ["body: invalid JSON"]

/-- Answers with the key of a record. -/
def withKey (context : Context) (name text : String) (answer : Json → Job WriteResult) : Job HttpResponse :=
  withResource context name fun resource => do
    match ← Job.of (key? resource text) with
    | some key => respond (answer key) (WriteResult.describe zone)
    | none =>
      let shown := Text.quoted text
      return .error 404 s!"No {resource.name} record found for key {shown}"

def search (context : Context) (name : String) (body : ByteArray) : Job HttpResponse :=
  withResource context name fun _ => withBody body fun body =>
    respond (Operations.search context name body) SearchResult.describe

def mutate (context : Context) (name : String) (body : ByteArray) : Job HttpResponse :=
  withResource context name fun _ => withBody body fun body =>
    respond (Operations.mutate context name body) fun result => result.describe zone

/-- Answers a request. -/
def answer (context : Context) (request : HttpRequest) : Job HttpResponse := Job.alone do
  match Route.of request.method request.path with
  | .health =>
    let names := (context.graph.resources.map (·.name)).mergeSort fun a b => a ≤ b
    return .ok (.object [("status", .text "ok"), ("resources", .list (names.map .text))])
  | .search name => search context name request.body
  | .mutate name => mutate context name request.body
  | .destroy name key => withKey context name key (Operations.destroy context name)
  | .restore name key => withKey context name key (Operations.restore context name)
  | .forceDelete name key => withKey context name key (Operations.forceDelete context name)
  | .notFound => return .detail 404 (.text "Not Found")
  | .notAllowed => return .detail 405 (.text "Method Not Allowed")

end Http

end ResourceApi
