import ResourceApi.Json.Basic
import ResourceApi.Text.Path

/-!
Wildcard paths into a document. A pattern names members of objects and, by `*`, all items of a list or members of an
object; `Attribute.expand` gives the places of a document that match it. The last name of a pattern may be absent from
its object, in which case the attribute stands for the absent member; before the last, every step has to exist.
-/

namespace ResourceApi

/-- One name of a pattern. -/
inductive Segment where
  | any
  | name (text : String)
  deriving Repr, DecidableEq

def Segment.ofText (text : String) : Segment := if text = "*" then .any else .name text

/-- One step into a document. -/
inductive Step where
  | index (position : Nat)
  | member (key : String)
  deriving Repr, DecidableEq

def Step.text : Step → String
  | index position => toString position
  | member key => key

/-- What lies one step below a value. -/
def Json.children : Json → List (Step × Json)
  | .list items => items.zipIdx.map fun (value, position) => (.index position, value)
  | .object members => members.map fun (key, value) => (.member key, value)
  | _ => []

/-- A place of a document that a pattern reaches. -/
structure Attribute where
  steps : List Step
  /-- The object of which the attribute is a named member. -/
  parent : Option Members
  value : Option Json

namespace Attribute

def path (place : Attribute) : String := Path.ofNames (place.steps.map Step.text)

def isPresent (place : Attribute) : Bool := place.value.isSome

/-- Another member of the object that holds the attribute. -/
def sibling? (place : Attribute) (name : String) : Option Json :=
  place.parent.bind (·.get? name)

/-- The places below a value that a pattern reaches, in document order. -/
def below (trail : List Step) (data : Json) : List Segment → List Attribute
  | [] => [⟨trail, none, some data⟩]
  | [.any] => data.children.map fun (step, value) => ⟨trail ++ [step], none, some value⟩
  | [.name key] =>
    match data with
    | .object members => [⟨trail ++ [.member key], some members, members.lookup key⟩]
    | _ => []
  | .any :: rest => data.children.flatMap fun (step, value) => below (trail ++ [step]) value rest
  | .name key :: rest =>
    match data.get? key with
    | some value => below (trail ++ [.member key]) value rest
    | none => []

/-- The places of a document that a pattern reaches; the empty pattern reaches the whole of it. -/
def expand (data : Json) (pattern : String) : List Attribute :=
  below [] data ((Path.segments pattern).map Segment.ofText)

end Attribute

end ResourceApi
