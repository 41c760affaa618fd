import ResourceApi.Query.Basic
import ResourceApi.Resource.Graph

/-!
Where the related rows of a relation come from: the source that brings in their table, the column that is matched with a
column of the parent, and the conditions on the related side.
-/

namespace ResourceApi

structure Related where
  relation : Relation
  target : Resource
  /-- Place of the table of the related rows. -/
  slot : Nat
  source : Source
  /-- How many tables the source brings in. -/
  width : Nat
  parentColumn : String
  /-- Column that is matched with the column of the parent. -/
  matching : ColumnRef
  /-- Conditions on the related side alone. -/
  conditions : List Cond
  pivotColumns : List ColumnRef := []
  /-- Column of the parent that has to hold the type of the related row, and that type. -/
  parentType : Option (String × Json) := none
  deriving Inhabited

namespace Related

/-- Rows that are not marked as deleted. -/
def alive (resource : Resource) (slot : Nat) : List Cond :=
  (resource.deletedAt.map fun column => Cond.isNull (resource.table.ref 0 slot column)).toList

/-- A type column holds the given type. -/
def typed (table : Table) (slot : Nat) (column : String) (morphAlias : Json) : Except Failure Cond :=
  Cond.ofComparison .equal (table.ref 0 slot column) morphAlias

/-- Related rows that tell the type of their parent tell the type of the resource. -/
def ofType (resource target : Resource) (link : ChildLink) (slot : Nat) : Except Failure (List Cond) :=
  link.morphType.toList.mapM fun column => typed target.table slot column resource.morphAlias

/-- Of the rows of one parent, one is picked if the link picks one. -/
def picked (resource target : Resource) (link : ChildLink) (slot : Nat) : Except Failure (List Cond) :=
  match link.pick with
  | none => .ok []
  | some pick => do
    let table := target.table
    let outer := { table.ref 0 slot link.foreignKey with frame := 1 }
    let same := Cond.linked (table.ref 0 0 link.foreignKey) outer
    let conditions := same :: alive target 0 ++ (← ofType resource target link 0)
    return [.picked (table.ref 0 slot pick.column) pick.extreme (table.ref 0 0 pick.column) (.table table.name)
      conditions]

def ofChild (resource : Resource) (relation : Relation) (target : Resource) (link : ChildLink) (slot : Nat) :
    Except Failure Related := do
  let pick ← picked resource target link slot
  return {
    relation, target, slot
    source := .table target.table.name
    width := 1
    parentColumn := link.localKey
    matching := target.table.ref 0 slot link.foreignKey
    conditions := alive target slot ++ (← ofType resource target link slot) ++ pick }

def ofParent (relation : Relation) (target : Resource) (link : ParentLink) (slot : Nat) : Related where
  relation := relation
  target := target
  slot := slot
  source := .table target.table.name
  width := 1
  parentColumn := link.foreignKey
  matching := target.table.ref 0 slot link.ownerKey
  conditions := alive target slot
  parentType := link.morphType.map (·, target.morphAlias)

def ofPivot (resource : Resource) (relation : Relation) (target : Resource) (link : PivotLink) (slot : Nat) :
    Except Failure Related := do
  let pivotSlot := slot + 1
  let ofType ← link.morph.toList.mapM fun (column, owner) =>
    let morphAlias := match owner with
      | .parent => resource.morphAlias
      | .target => target.morphAlias
    typed link.table pivotSlot column morphAlias
  let on := Cond.linked (link.table.ref 0 pivotSlot link.relatedKey) (target.table.ref 0 slot link.targetKey)
  return {
    relation, target, slot
    source := .join (.table target.table.name) (.table link.table.name) [on]
    width := 2
    parentColumn := link.localKey
    matching := link.table.ref 0 pivotSlot link.foreignKey
    conditions := alive target slot ++ ofType
    pivotColumns := link.fields.map (link.table.ref 0 pivotSlot) }

def ofThrough (relation : Relation) (target : Resource) (link : ThroughLink) (slot : Nat) : Related where
  relation := relation
  target := target
  slot := slot
  source := .join (.table target.table.name) (.table link.table.name)
    [.linked (target.table.ref 0 slot link.secondKey) (link.table.ref 0 (slot + 1) link.secondLocalKey)]
  width := 2
  parentColumn := link.localKey
  matching := link.table.ref 0 (slot + 1) link.firstKey
  conditions := alive target slot

/-- The related rows in one target resource, its table at the given place. -/
def ofTarget (resource : Resource) (relation : Relation) (target : Resource) (slot : Nat) : Except Failure Related :=
  match relation.link with
  | .child link => ofChild resource relation target link slot
  | .parent link => .ok (ofParent relation target link slot)
  | .pivot link => ofPivot resource relation target link slot
  | .through link => .ok (ofThrough relation target link slot)

/-- The related rows of every possible target. -/
def each (graph : Graph) (resource : Resource) (relation : Relation) : Except Failure (List Related) := do
  if relation.kind = .morphTo then
    relation.targets.mapM fun name =>
      match graph.get? name with
      | some target => ofTarget resource relation target 0
      | none => .error (.fault (.unknownEntry name))
  else return [← ofTarget resource relation (← graph.target relation) 0]

/-- The related rows of a relation with a single target. -/
def single (graph : Graph) (resource : Resource) (relation : Relation) (slot : Nat) : Except Failure Related := do
  if relation.kind = .morphTo then .error (.mismatch (.severalTargets relation.name))
  ofTarget resource relation (← graph.target relation) slot

/-- The conditions that link the related rows to a row of the parent table, which stands at the given place. -/
def correlated (related : Related) (parent : Table) (frame slot : Nat) : Except Failure (List Cond) := do
  let ofType ← related.parentType.toList.mapM fun (column, morphAlias) =>
    Cond.ofComparison .equal (parent.ref frame slot column) morphAlias
  return .linked related.matching (parent.ref frame slot related.parentColumn) :: related.conditions ++ ofType

end Related

/-- The rows at the end of a relation path, all its hops joined. -/
structure RelatedPath where
  last : Related
  source : Source
  /-- Conditions that link the first hop to the row that the path starts from. -/
  conditions : List Cond
  deriving Inhabited

namespace RelatedPath

/-- Joins the further hops of a path to what is joined already. -/
def extend (graph : Graph) (path : RelatedPath) (width : Nat) :
    List (Resource × Relation) → Except Failure RelatedPath
  | [] => .ok path
  | (owner, relation) :: rest => do
    let next ← Related.single graph owner relation width
    let here := path.last.target.table.ref 0 path.last.slot next.parentColumn
    let on := Cond.conjuncts (.linked next.matching here :: next.conditions)
    extend graph { path with last := next, source := .join path.source next.source on } (width + next.width) rest

/-- The rows at the end of some hops that start at a row of the query outside. -/
def ofHops (graph : Graph) (parent : Table) (slot : Nat) :
    List (Resource × Relation) → Except Failure RelatedPath
  | [] => .error (.fault .emptyChoice)
  | (owner, relation) :: rest => do
    let first ← Related.single graph owner relation 0
    let conditions ← first.correlated parent 1 slot
    extend graph ⟨first, first.source, conditions⟩ first.width rest

end RelatedPath

end ResourceApi
