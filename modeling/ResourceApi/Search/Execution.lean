import ResourceApi.Query.Evaluation
import ResourceApi.Search.Plan
import ResourceApi.Session.Work

/-!
Running plans. The records of the page come first; then each included relation is loaded for all records at once that it
is for, and every record gets its own copies of the records related to it.
-/

namespace ResourceApi

/-- What a search finds. -/
structure SearchResult where
  rows : List Members
  total : Int
  limit : Int
  page : Int
  offset : Int
  deriving Inhabited

def SearchResult.hasNext (result : SearchResult) : Bool := result.offset + result.rows.length < result.total

def SearchResult.describe (result : SearchResult) : Json :=
  .object [
    ("data", .list (result.rows.map .object)),
    ("meta", .object [
      ("total", .int result.total), ("limit", .int result.limit), ("page", .int result.page),
      ("offset", .int result.offset), ("has_next", .bool result.hasNext)])]

namespace Plan

/-- A loaded record, and the place of the record that it was loaded for. -/
structure Loaded where
  row : Members
  parent : Nat
  deriving Inhabited

/-- The loaded records by path, the latest first; those of the page stand last, under the empty path. -/
abbrev Shelf := List (String × List Loaded)

def ground (database : Database) (parents : List Cell) : Ground := ⟨database.rows, parents⟩

/-- Whether a query can be run at all: it shows something and says where that is from. -/
def isSound (query : Query) : Bool := query.showsSource && !query.outputs.isEmpty

/-- The rows of a query. -/
def run (query : Query) (parents : List Bound) : Job (List Members) := do
  let bounds := query.bounds ++ parents
  discard (Job.of (bounds.mapM Bound.formed))
  if !isSound query then Job.fail (.storage .statement)
  Job.of (Bound.acceptAll bounds)
  Job.of (query.results (ground (← Job.database) (parents.map Bound.cell)))

/-- The number of rows that meet the conditions of a plan. -/
def total (plan : Plan) : Job Int := do
  Job.of (Bound.acceptAll (Query.allBounds plan.counted))
  let found := Query.matching (ground (← Job.database) []) [] (.table plan.resource.table.name) plan.counted
  return found.length

/-! ## Included records -/

/-- The values of a column, each once and null never; what cannot be a key is refused. -/
def keysOf (column : String) (rows : List Members) : Except Failure (List Json) :=
  rows.foldlM (fun keys row =>
    match (row.get? column).getD .null with
    | .null => .ok keys
    | key =>
      if !key.isScalar then .error (.fault .unsuitableValue)
      else if key.isIn keys then .ok keys
      else .ok (keys ++ [key])) []

/-- Whether a query is for a record: the record shows the type that the query is for. -/
def isFor (query : IncludeQuery) (row : Members) : Bool :=
  match query.parentType with
  | none => true
  | some (column, type) => ((row.get? column).getD .null).same type

/-- The start of a list, or for a negative count all but so many at its end. -/
def front {α : Type} (limit : Option Int) (items : List α) : List α :=
  match limit with
  | none => items
  | some (.ofNat count) => items.take count
  | some (.negSucc count) => items.take (items.length - (count + 1))

/-- Gathers the columns of a join table under one name, and takes off the key by which the row is given to its
parent. -/
def gathered (row : Members) : Json × Members :=
  let isPivot (key : String) : Bool := pivotLabelStart.isPrefixOf key
  let pivot := (row.filter (isPivot ·.1)).map fun (key, value) => ((key.drop pivotLabelStart.length).toString, value)
  let own := row.filter (!isPivot ·.1)
  let own := if pivot.isEmpty then own else Members.put "pivot" (.object pivot) own
  ((Members.get? own parentKeyLabel).getD .null, Members.erase own parentKeyLabel)

/-- The type by which the keys of parents are handed to a query. -/
def keyType (query : IncludeQuery) : BindType :=
  match query.query.conditions with
  | .amongParents ref :: _ => ref.type.bindType
  | _ => .integer

/-- The key of a parent as it is handed to a query: a moment is written as the storage writes it. -/
def keyBound (query : IncludeQuery) (key : Json) : Bound :=
  match keyType query, query.byMoment, key with
  | .datetime, true, .text moment => ⟨.string, .text (Value.storedMoment moment)⟩
  | type, _, key => ⟨type, key⟩

/-- The records that one query finds for the records of the parent path. -/
def loadQuery (step : IncludeStep) (parents : List Members) (query : IncludeQuery) : Job (List Loaded) := do
  let chosen := parents.zipIdx.filter (isFor query ·.1)
  let keys ← Job.of (keysOf query.parentColumn (chosen.map (·.1)))
  if keys.isEmpty then return []
  Job.tell (.loading step.path keys.length)
  let found ← run query.query (keys.map (keyBound query))
  let children := found.map gathered
  return chosen.flatMap fun (row, place) =>
    let key := (row.get? query.parentColumn).getD .null
    (front step.limit ((children.filter (·.1.same key)).map (·.2))).map (⟨·, place⟩)

/-- What stands under the name of a relation: a list, or the first record if there is one. -/
def attachment (cardinality : Cardinality) (rows : List Members) : Json :=
  match cardinality, rows with
  | .many, rows => .list (rows.map .object)
  | .one, [] => .null
  | .one, first :: _ => .object first

/-- Puts the records of a step under its name into the records that they were loaded for. -/
def attach (step : IncludeStep) (children : List Loaded) (parents : List Loaded) : List Loaded :=
  parents.zipIdx.map fun (parent, place) =>
    let own := (children.filter (·.parent == place)).map (·.row)
    { parent with row := Members.put step.name (attachment step.relation.kind.cardinality own) parent.row }

def rowsAt (shelf : Shelf) (path : String) : List Loaded := (shelf.lookup path).getD []

/-- Puts records in the place of the latest ones of a path. -/
def setRows (path : String) (rows : List Loaded) : Shelf → Shelf
  | [] => []
  | entry :: rest => if entry.1 == path then (path, rows) :: rest else entry :: setRows path rows rest

/-- Attaches the records of a step to those that they were loaded for. -/
def attachAt (step : IncludeStep) (children : List Loaded) (shelf : Shelf) : Shelf :=
  let parentPath := step.parentPath.getD ""
  setRows parentPath (attach step children (rowsAt shelf parentPath)) shelf

/-- Loads steps one after the other. The records of a step are attached at once, and again when the steps after it are
done, so that each carries what was attached to it. -/
def loadAll : List IncludeStep → Shelf → Job Shelf
  | [], shelf => return shelf
  | step :: rest, shelf => do
    let parents := rowsAt shelf (step.parentPath.getD "")
    let found ← step.queries.mapM (loadQuery step (parents.map (·.row)))
    let children := found.flatten
    let completed ← loadAll rest ((step.path, children) :: attachAt step children shelf)
    match completed with
    | [] => return []
    | (_, children) :: shelf => return attachAt step children shelf

/-- Runs a plan. -/
def execute (plan : Plan) : Job SearchResult := do
  modify Work.start
  let total ← plan.total
  let rows ← run plan.page []
  let shelf ← loadAll plan.includes [("", rows.map (⟨·, 0⟩))]
  return {
    rows := (rowsAt shelf "").map (·.row)
    total
    limit := plan.limit
    page := plan.pageNumber
    offset := plan.offset }

end Plan

end ResourceApi
