import ResourceApi.Query.Related
import ResourceApi.Resource.Paths
import ResourceApi.Search.Specification

/-!
Plans of searches: a query for one page of records, one for the number of all of them, and for each included relation
the queries that load its records. Conditions come in a fixed order: records that are not deleted, scopes, filters.
-/

namespace ResourceApi

/-- One query for included records; a polymorphic link has one for each type. -/
structure IncludeQuery where
  query : Query
  parentColumn : String
  /-- Column and type that a parent has to show for the query to be for it. -/
  parentType : Option (String × Json)
  /-- Whether the keys of the parents are moments. -/
  byMoment : Bool := false
  deriving Inhabited

/-- The loading of one relation path. -/
structure IncludeStep where
  path : String
  /-- Path of the records it is loaded for; none for the records of the page. -/
  parentPath : Option String
  name : String
  relation : Relation
  queries : List IncludeQuery := []
  limit : Option Int := none
  deriving Inhabited

def IncludeStep.depth (step : IncludeStep) : Nat := Path.points step.path + 1

structure Plan where
  resource : Resource
  page : Query
  /-- Conditions that the counted records meet, and the column that is counted. -/
  counted : List Cond
  key : ColumnRef
  limit : Int
  pageNumber : Int
  offset : Int
  includes : List IncludeStep
  deriving Inhabited

namespace Plan

/-- A column of a resource whose table stands at a place of the query. -/
def ownColumn (resource : Resource) (slot : Nat) (name : String) : Except Failure ColumnRef :=
  match resource.table.column? name with
  | some column => .ok ⟨0, slot, name, column.type⟩
  | none => .error (.mismatch (.unknownField name resource.name))

def keyColumn (resource : Resource) (slot : Nat) : Except Failure ColumnRef :=
  match resource.table.column? resource.key with
  | some column => .ok ⟨0, slot, resource.key, column.type⟩
  | none => .error (.fault (.unknownEntry resource.key))

/-! ## Scopes -/

/-- The column that a parameter names, by its name or by the number of its place. -/
def givenColumn (table : Table) (slot : Nat) (given : Json) : Except Failure ColumnRef :=
  match table.columns.zipIdx.find? fun (column, place) => given.same (.text column.name) || given.same (.int place) with
  | some (column, _) => .ok (table.ref 0 slot column.name)
  | none =>
    match given with
    | .list _ | .object _ => .error (.fault .unsuitableValue)
    | .int _ | .bool _ => .error (.fault .emptyChoice)
    | other => .error (.fault (.unknownEntry other.bare))

/-- The column that a demand speaks of. -/
def demandColumn (table : Table) (slot : Nat) (arguments : List Json) : ScopeColumn → Except Failure ColumnRef
  | .named name =>
    if table.hasColumn name then .ok (table.ref 0 slot name) else .error (.fault .missingPart)
  | .parameter position => givenColumn table slot (arguments.getD position .null)

def demandConditions (table : Table) (slot : Nat) (arguments : List Json) (demand : ScopeDemand) :
    Except Failure (List Cond) := do
  let value := arguments.getD demand.parameter .null
  if demand.liftedByNull && value.isNull then return []
  return [← Cond.ofComparison demand.comparison (← demandColumn table slot arguments demand.column) value]

/-- Conditions of the scopes that are called. -/
def scopeConditions (resource : Resource) (slot : Nat) (calls : List ScopeCall) : Except Failure (List Cond) := do
  let found ← calls.mapM fun call => do
    match resource.scope? call.name with
    | none => .error (.mismatch (.unknownScope call.name resource.name))
    | some scope =>
      match scope.arguments? call.parameters with
      | none => .error (.fault .unsuitableValue)
      | some arguments => return (← scope.demands.mapM (demandConditions resource.table slot arguments)).flatten
  return found.flatten

/-! ## Filters -/

/-- Adds a condition to the last group of alternatives, or opens a new one. -/
def addToGroups (groups : List (List Cond)) : Joining × Cond → List (List Cond)
  | (.or, condition) => groups ++ [[condition]]
  | (.and, condition) =>
    match groups.getLast? with
    | none => [[condition]]
    | some last => groups.dropLast ++ [last ++ [condition]]

/-- Joins conditions in a row: `and` binds closer than `or`, and nothing comes of no conditions. -/
def combine (conditions : List (Joining × Cond)) : Option Cond :=
  match conditions.foldl addToGroups [] with
  | [] => none
  | groups => some (Cond.disj (groups.map Cond.conj))

/-- The condition of a comparison: of an own field, or of a field of related rows, of which one has to meet it. -/
def leafCondition (graph : Graph) (resource : Resource) (slot : Nat) (field : Option String) (operator : String)
    (value : Json) : Except Failure Cond := do
  match field, Comparison.ofSymbol? operator with
  | some field, some comparison =>
    if Path.points field = 0 then
      Cond.ofComparison comparison (← ownColumn resource slot field) value
    else
      let (path, name) := Path.splitLast field
      let related ← RelatedPath.ofHops graph resource.table slot (← graph.hops resource path)
      let column ← ownColumn related.last.target related.last.slot name
      let condition ← Cond.ofComparison comparison column value
      return .exist related.last.matching related.source (Cond.conjuncts (related.conditions ++ [condition]))
  | _, _ => .error (.mismatch (.invalidFilter field operator))

mutual
/-- The condition of a filter; a group without filters has none. -/
def filterCondition (graph : Graph) (resource : Resource) (slot : Nat) : Filter → Except Failure (Option Cond)
  | ⟨field, operator, value, _, nested⟩ =>
    match nested with
    | some filters => do return combine (← filterConditions graph resource slot filters)
    | none => do return some (← leafCondition graph resource slot field operator value)
termination_by structural filter => filter

def filterConditions (graph : Graph) (resource : Resource) (slot : Nat) :
    List Filter → Except Failure (List (Joining × Cond))
  | [] => .ok []
  | filter :: rest => do
    match ← filterCondition graph resource slot filter with
    | some condition => return (filter.joining, condition) :: (← filterConditions graph resource slot rest)
    | none => filterConditions graph resource slot rest
termination_by structural filters => filters
end

/-- The condition of a list of filters. -/
def filtersCondition (graph : Graph) (resource : Resource) (slot : Nat) (filters : List Filter) :
    Except Failure (List Cond) := do
  return (combine (← filterConditions graph resource slot filters)).toList

/-! ## Columns, order, aggregates -/

/-- Labels for columns that are shown more than once: the first bears its name, the others are numbered. -/
def labelled : List String → List String → List (String × Option String)
  | _, [] => []
  | before, name :: rest =>
    let times := before.count name
    (name, if times = 0 then none else some s!"{name}__{times}") :: labelled (name :: before) rest

/-- The fields asked for, or all exposed ones. -/
def askedFields (resource : Resource) (selects : List String) : List String :=
  if selects.isEmpty then resource.fields else selects

/-- The columns shown: those asked for, and those that included relations need. -/
def columns (resource : Resource) (slot : Nat) (selects required : List String) : Except Failure (List Output) := do
  let names := required.foldl (fun names name => if names.contains name then names else names ++ [name])
    (askedFields resource selects)
  (labelled [] names).mapM fun (name, label) => return .column (← ownColumn resource slot name) label

/-- The order asked for, or the usual one. -/
def askedOrder (resource : Resource) (sorts : List SortKey) : List (String × Direction) :=
  if sorts.isEmpty then resource.defaultOrder else sorts.map fun sort => (sort.field, sort.direction)

/-- The order of the rows: the one asked for, the key deciding between rows that are equal in it. -/
def order (resource : Resource) (slot : Nat) (sorts : List SortKey) :
    Except Failure (List (ColumnRef × Direction)) := do
  let asked := askedOrder resource sorts
  let listed ← asked.mapM fun (name, direction) => return (← ownColumn resource slot name, direction)
  if asked.any (·.1 == resource.key) then return listed
  return listed ++ [(← keyColumn resource slot, .asc)]

/-- The column that a measure is taken of, if it is taken of one. -/
def argument (related : Related) (measure : Measure) (field : Option String) : Except Failure (Option ColumnRef) :=
  match measure, field with
  | .presence, _ => .ok (some related.matching)
  | .count, _ => .ok none
  | measure, none => .error (.mismatch (.fieldNeeded measure.name))
  | _, some field => (ownColumn related.target related.slot field).map some

/-- The computed value of an aggregate. -/
def aggregate (graph : Graph) (resource : Resource) (slot : Nat) (item : Aggregate) : Except Failure Output := do
  let related ← RelatedPath.ofHops graph resource.table slot (← graph.hops resource item.relation)
  let filtered ← filtersCondition graph related.last.target related.last.slot item.filters
  let argument ← argument related.last item.measure item.field
  let label := Text.aggregateLabel item.relation item.measure.name item.field
  return .measure label item.measure argument related.source (Cond.conjuncts (related.conditions ++ filtered))

/-! ## Includes -/

/-- Sets the include of a path where it stands; the last one asked for counts. -/
def requested (includes : List Include) (path : String) : Include :=
  (includes.reverse.find? (·.relation == path)).getD { relation := path }

/-- The beginnings of a path, itself last. -/
def beginnings (path : String) : List String :=
  let names := Path.names path
  (List.range names.length).map fun count => Path.ofNames (names.take (count + 1))

/-- The paths to load: those asked for with their beginnings, shorter ones first. -/
def includePaths (includes : List Include) : List String :=
  let all := includes.flatMap fun item => beginnings item.relation
  let distinct := all.foldl (fun kept path => if kept.contains path then kept else kept ++ [path]) []
  distinct.mergeSort fun a b => Path.points a ≤ Path.points b

/-- A step of loading with the resource whose records it is for, and the one that it leads to. -/
structure Hop where
  step : IncludeStep
  owner : Resource
  target : Resource
  deriving Inhabited

/-- The resource whose records stand at a path: the searched one, or the one that a step leads to. -/
def ownerAt (resource : Resource) (hops : List Hop) (path : String) : Except Failure Resource :=
  if path.isEmpty then .ok resource
  else match hops.find? (·.step.path == path) with
    | some hop => .ok hop.target
    | none => .error (.fault (.unknownEntry path))

/-- The step for a path that goes on from steps before it. -/
def includeHop (graph : Graph) (resource : Resource) (hops : List Hop) (path : String) : Except Failure Hop := do
  let (parent, name) := Path.splitLast path
  let owner ← ownerAt resource hops parent
  match owner.relation? name with
  | none => .error (.mismatch (.unknownInclude name owner.name))
  | some relation =>
    let step : IncludeStep := { path, name, relation, parentPath := if parent.isEmpty then none else some parent }
    return ⟨step, owner, ← graph.target relation⟩

/-- The steps for some paths, each after the step of the path it goes on from. -/
def includeHops (graph : Graph) (resource : Resource) (paths : List String) : Except Failure (List Hop) :=
  paths.foldlM (fun hops path => return hops ++ [← includeHop graph resource hops path]) []

/-- The columns that the records of a path have to carry for the steps that go on from it. -/
def requiredColumns (hops : List Hop) (path : Option String) : List String :=
  (hops.filter (·.step.parentPath == path)).flatMap (·.step.relation.parentColumns)

/-- Label of the column by which included rows are given to their parents. -/
def parentKeyLabel : String := "__parent_key"

/-- Start of the labels of columns of a join table. -/
def pivotLabelStart : String := "__pivot_"

/-- What of an include concerns the rows of a relation: those of a polymorphic link are not searched. -/
def searchOf (relation : Relation) (item : Include) : Include :=
  if relation.isNestable then item else { relation := item.relation, limit := item.limit }

/-- The query for the related rows of some parents. -/
def includeQuery (graph : Graph) (related : Related) (item : Include) (required : List String) :
    Except Failure Query := do
  let target := related.target
  let slot := related.slot
  let ofScopes ← scopeConditions target slot item.scopes
  let ofFilters ← filtersCondition graph target slot item.filters
  let shown ← columns target slot item.selects required
  let order ← order target slot item.sorts
  let aggregates ← item.aggregates.mapM (aggregate graph target slot)
  let added := Output.column related.matching (some parentKeyLabel) ::
    related.pivotColumns.map fun column => .column column (some (pivotLabelStart ++ column.name))
  return {
    outputs := shown ++ aggregates ++ added
    source := related.source
    aliased := true
    conditions := Cond.conjuncts (.amongParents related.matching :: related.conditions ++ ofScopes ++ ofFilters)
    order
    page := none }

/-- Fills in the queries of a step. -/
def loadHop (graph : Graph) (includes : List Include) (hops : List Hop) (hop : Hop) : Except Failure IncludeStep := do
  let item := searchOf hop.step.relation (requested includes hop.step.path)
  let required := requiredColumns hops (some hop.step.path)
  let queries ← (← Related.each graph hop.owner hop.step.relation).mapM fun related => do
    return {
      query := ← includeQuery graph related item required
      parentColumn := related.parentColumn
      parentType := related.parentType
      byMoment := (hop.owner.table.ref 0 0 related.parentColumn).type = .datetime }
  return { hop.step with queries, limit := item.limit }

/-! ## The whole plan -/

/-- Number of records on a page: the limit asked for unless it is zero, else that of the resource. -/
def pageLimit (resource : Resource) (asked : Option Int) : Except Failure Int :=
  match asked with
  | some (.ofNat 0) | none =>
    match resource.defaultLimit.integer? with
    | some limit => .ok limit
    | none => .error (.fault .unsuitableValue)
  | some limit => .ok limit

/-- The plan of a specification; `base` is a condition that all records have to meet beforehand. -/
def compile (graph : Graph) (resource : Resource) (spec : Specification) (base : List Cond := []) :
    Except Failure Plan := do
  let ofScopes ← scopeConditions resource 0 spec.scopes
  let ofFilters ← filtersCondition graph resource 0 spec.filters
  let conditions := Cond.conjuncts (base ++ Related.alive resource 0 ++ ofScopes ++ ofFilters)
  let key ← keyColumn resource 0
  let hops ← includeHops graph resource (includePaths spec.includes)
  let includes ← hops.mapM (loadHop graph spec.includes hops)
  let shown ← columns resource 0 spec.selects (requiredColumns hops none)
  let order ← order resource 0 spec.sorts
  let aggregates ← spec.aggregates.mapM (aggregate graph resource 0)
  let limit ← pageLimit resource spec.limit
  let pageNumber := max spec.page 1
  let offset := (pageNumber - 1) * limit
  return {
    resource, key, limit, pageNumber, offset, includes
    counted := conditions
    page := {
      outputs := shown ++ aggregates
      source := .table resource.table.name
      aliased := false
      conditions, order
      page := some (limit, offset) } }

end Plan

end ResourceApi
