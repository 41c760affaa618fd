import ResourceApi.Json.Reading
import ResourceApi.Relation.Kind

/-!
Nodes of a mutation: records to create, update, link or unlink, each with the writes to its relations below it.
-/

namespace ResourceApi

mutual
/-- One record: the values to set, what goes into its join record, its resource if that is open, and the writes through
its relations in order. -/
inductive Node where
  | mk (attributes : Members) (pivot : Members) (resource : Option String) (relations : List (String × Entry))

/-- The writes through one relation: what to do, and with which records. -/
inductive Entry where
  | mk (operation : Operation) (nodes : List Node)
end

instance : Inhabited Node := ⟨.mk [] [] none []⟩
instance : Inhabited Entry := ⟨.mk .create []⟩

namespace Node

def attributes : Node → Members
  | mk attributes _ _ _ => attributes

def pivot : Node → Members
  | mk _ pivot _ _ => pivot

def resource : Node → Option String
  | mk _ _ resource _ => resource

def relations : Node → List (String × Entry)
  | mk _ _ _ relations => relations

/-- Keys of a node that are no values of its record. -/
def reserved : List String := ["relations", "pivot", "resource"]

end Node

def Entry.operation : Entry → Operation
  | mk operation _ => operation

def Entry.nodes : Entry → List Node
  | mk _ nodes => nodes

/-! ## As JSON -/

mutual
def Node.describe : Node → Json
  | .mk attributes pivot resource relations =>
    .object [
      ("attributes", .object attributes), ("pivot", .object pivot), ("resource", Json.ofText? resource),
      ("relations", .list (Entry.describeAll relations))]
termination_by structural node => node

def Entry.describeAll : List (String × Entry) → List Json
  | [] => []
  | (name, entry) :: rest => .list [.text name, entry.describe] :: Entry.describeAll rest
termination_by structural entries => entries

def Entry.describe : Entry → Json
  | .mk operation nodes =>
    .object [("operation", .text operation.name), ("operations", .list (Node.describeAll nodes))]
termination_by structural entry => entry

def Node.describeAll : List Node → List Json
  | [] => []
  | node :: rest => node.describe :: Node.describeAll rest
termination_by structural nodes => nodes
end

end ResourceApi
