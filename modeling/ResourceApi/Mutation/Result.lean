import ResourceApi.Session.Record

/-!
What a write did, record by record.
-/

namespace ResourceApi

/-- One record that was written or linked: its key, what is known of it, and what was done through its relations. -/
inductive WriteResult where
  | mk (resource operation : String) (key : Value) (attributes : Values)
      (relations : List (String × List WriteResult))

instance : Inhabited WriteResult := ⟨.mk "" "" .null [] []⟩

namespace WriteResult

def operation : WriteResult → String
  | mk _ operation _ _ _ => operation

def key : WriteResult → Value
  | mk _ _ key _ _ => key

def attributes : WriteResult → Values
  | mk _ _ _ attributes _ => attributes

/-- The value of a column, or the key when the column is not known. -/
def linkValue (result : WriteResult) (column : String) : Value :=
  (result.attributes.lookup column).getD result.key

mutual
/-- As JSON, with the given mark of the zone behind moments that show it. -/
def describe (zone : String) : WriteResult → Json
  | mk resource operation key attributes relations =>
    .object [
      ("resource", .text resource), ("operation", .text operation), ("key", key.json zone),
      ("attributes", .object (attributes.map fun entry => (entry.1, entry.2.json zone))),
      ("relations", .object (describeRelations zone relations))]
termination_by structural result => result

def describeRelations (zone : String) : List (String × List WriteResult) → Members
  | [] => []
  | (name, results) :: rest => (name, .list (describeAll zone results)) :: describeRelations zone rest
termination_by structural relations => relations

def describeAll (zone : String) : List WriteResult → List Json
  | [] => []
  | result :: rest => result.describe zone :: describeAll zone rest
termination_by structural results => results
end

end WriteResult

/-- What a mutation did: the keys of the records it made and changed, and the results of its nodes. -/
structure MutationResult where
  created : List Value
  updated : List Value
  results : List WriteResult
  deriving Inhabited

def MutationResult.describe (result : MutationResult) (zone : String) : Json :=
  .object [
    ("created", .list (result.created.map (Value.json zone))),
    ("updated", .list (result.updated.map (Value.json zone))),
    ("results", .list (result.results.map (WriteResult.describe zone)))]

end ResourceApi
