import ResourceApi.Mutation.Node

/-!
Reading nodes from JSON: what is not one of the reserved keys is a value of the record.
-/

namespace ResourceApi

open Reading

mutual
def Node.read : Json → Reading Node
  | .object members =>
    let attributes := members.filter fun entry => !Node.reserved.contains entry.1
    (fun relations pivot resource => Node.mk attributes pivot resource relations)
      <$> Node.readRelations members
      <*> member members "pivot" [] anyObject
      <*> member members "resource" none (optional text)
  | _ => problem "Input should be a valid dictionary or instance of MutationNode"
termination_by structural j => j

/-- The relations among the members of a node. -/
def Node.readRelations : List (String × Json) → Reading (List (String × Entry))
  | [] => done []
  | (key, value) :: rest =>
    if key = "relations" then (Entry.readAll value).below "relations" else Node.readRelations rest
termination_by structural members => members

def Entry.readAll : Json → Reading (List (String × Entry))
  | .object entries => Entry.readEach [] entries
  | _ => problem "Input should be a valid dictionary"
termination_by structural j => j

/-- Reads entries, each name once. -/
def Entry.readEach (before : List String) : List (String × Json) → Reading (List (String × Entry))
  | [] => done []
  | (name, value) :: rest =>
    if before.contains name then Entry.readEach before rest
    else
      (fun entry others => (name, entry) :: others) <$> (Entry.read value).below name
        <*> Entry.readEach (name :: before) rest
termination_by structural entries => entries

def Entry.read : Json → Reading Entry
  | .object members =>
    Entry.mk <$> member members "operation" .create (choice Operation.ofName? "'create', 'attach', 'detach' or 'sync'")
      <*> Entry.readNodes members
  | _ => problem "Input should be a valid dictionary or instance of RelationMutation"
termination_by structural j => j

/-- The nodes among the members of an entry. -/
def Entry.readNodes : List (String × Json) → Reading (List Node)
  | [] => done []
  | (key, value) :: rest => if key = "operations" then (Node.readAll value).below "operations" else Entry.readNodes rest
termination_by structural members => members

def Node.readAll : Json → Reading (List Node)
  | .list items => Node.readFrom 0 items
  | _ => problem "Input should be a valid list"
termination_by structural j => j

/-- Reads nodes, the first at the given position. -/
def Node.readFrom (position : Nat) : List Json → Reading (List Node)
  | [] => done []
  | j :: rest => List.cons <$> (Node.read j).below (toString position) <*> Node.readFrom (position + 1) rest
termination_by structural js => js
end

end ResourceApi
