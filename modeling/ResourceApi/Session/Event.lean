import ResourceApi.Failure

/-!
What a service tells about its work, one line an event.
-/

namespace ResourceApi

inductive Level where
  | debug | info | warning | error
  deriving Repr, DecidableEq, Inhabited

/-- The part of a service that speaks. -/
inductive Speaker where
  | planner | executor | writer | operations | access | storage | router
  deriving Repr, DecidableEq, Inhabited

inductive Event where
  | compiled (resource : String) (limit page : Int) (includes : List String)
  | loading (path : String) (keys : Nat)
  | searched (request : Option String) (resource : String) (shown : Nat) (total : Int)
  | written (request : Option String) (resource : String) (created updated : List Json)
  | deleted (request : Option String) (resource : String) (key : Json) (soft : Json)
  | restored (request : Option String) (resource : String) (key : Json)
  | destroyed (request : Option String) (resource : String) (key : Json)
  | denied (action resource : String)
  | rolledBack (failure : Failure)
  | failed (failure : Failure)
  deriving Inhabited

namespace Event

def level : Event → Level
  | compiled .. | loading .. => .debug
  | rolledBack _ => .warning
  | failed _ => .error
  | _ => .info

def speaker : Event → Speaker
  | compiled .. => .planner
  | loading .. => .executor
  | written .. => .writer
  | searched .. | deleted .. | restored .. | destroyed .. => .operations
  | denied .. => .access
  | rolledBack _ => .storage
  | failed _ => .router

/-- The id of a request in front of a line. -/
def mark : Option String → String
  | some id => if id.isEmpty then "" else s!"[{id}] "
  | none => ""

def message : Event → String
  | compiled resource limit page includes =>
    let listed := (Json.list (includes.map .text)).display
    s!"Compiled search on {resource}: limit={limit} page={page} includes={listed}"
  | loading path keys => s!"Loading include '{path}' for {keys} parent key(s)"
  | searched request resource shown total => mark request ++ s!"Search on {resource} returned {shown} of {total}"
  | written request resource created updated =>
    let listed (keys : List Json) := (Json.list keys).display
    mark request ++ s!"Mutated {resource}: created=" ++ listed created ++ " updated=" ++ listed updated
  | deleted request resource key soft =>
    mark request ++ s!"Deleted {resource} {key.display} (soft={soft.bare})"
  | restored request resource key => mark request ++ s!"Restored {resource} {key.display}"
  | destroyed request resource key => mark request ++ s!"Force deleted {resource} {key.display}"
  | denied action resource => s!"Denied '{action}' on {resource}"
  | rolledBack (.storage cause) => "Transaction rolled back: " ++ cause.text
  | rolledBack failure => s!"Transaction rolled back: {failure.label}: {failure.message}"
  | failed failure => s!"Request failed: {failure.message}"

end Event

end ResourceApi
