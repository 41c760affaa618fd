import ResourceApi.Relation.Link
import ResourceApi.Search.Comparison
import ResourceApi.Search.Specification

/-!
Queries as data. A query takes rows from a source of joined tables, keeps those that meet a condition, and gives for
each its columns and values computed over related rows. Conditions and computed values hold queries of their own; a column is
named by the distance of the query that brings in its table and by the place of the table there, so that no names are
needed to tell tables apart.
-/

namespace ResourceApi

/-- Types by which values are handed to the storage. -/
inductive BindType where
  | integer | string | datetime | float | boolean
  deriving Repr, DecidableEq, Inhabited

def ColumnType.bindType : ColumnType → BindType
  | .integer => .integer
  | .string => .string
  | .datetime => .datetime
  | .float => .float

/-- A value to be handed to the storage, with the type by which that is done. -/
structure Bound where
  type : BindType
  value : Json
  deriving Repr, Inhabited

/-- A column of a table in sight. -/
structure ColumnRef where
  /-- How many queries lie between this one and the one that brings in the table. -/
  frame : Nat
  /-- Place of the table in the source of that query. -/
  slot : Nat
  name : String
  type : ColumnType
  deriving Repr, DecidableEq, Inhabited

mutual
inductive Cond where
  | isNull (column : ColumnRef)
  | isNotNull (column : ColumnRef)
  | compare (comparison : Comparison) (column : ColumnRef) (bound : Bound)
  /-- The column is, or is not, the number that stands for a truth value. -/
  | truth (equal : Bool) (column : ColumnRef) (value : Bool)
  | among (column : ColumnRef) (bounds : List Bound)
  | notAmong (column : ColumnRef) (bounds : List Bound)
  /-- The column is one of the keys that the query is run for. -/
  | amongParents (column : ColumnRef)
  | linked (column other : ColumnRef)
  /-- The column has the extreme value that a column takes over the rows meeting conditions. -/
  | picked (column : ColumnRef) (extreme : Extreme) (of : ColumnRef) (source : Source) (conditions : List Cond)
  /-- There are rows that meet the conditions; the column is what the inner query gives. -/
  | exist (column : ColumnRef) (source : Source) (conditions : List Cond)
  | all (conditions : List Cond)
  | any (conditions : List Cond)

/-- Where rows come from. Tables are numbered from left to right. -/
inductive Source where
  | table (name : String)
  | join (left right : Source) (on : List Cond)
end

instance : Inhabited Cond := ⟨.all []⟩
instance : Inhabited Source := ⟨.table ""⟩

/-- A column of a result. -/
inductive Output where
  | column (column : ColumnRef) (label : Option String)
  /-- A measure taken over the rows that meet the conditions. -/
  | measure (label : String) (measure : Measure) (argument : Option ColumnRef) (source : Source)
      (conditions : List Cond)
  deriving Inhabited

def Output.key : Output → String
  | .column shown label => label.getD shown.name
  | .measure label .. => label

structure Query where
  outputs : List Output
  source : Source
  /-- Whether its own tables go by other names than those of the database. -/
  aliased : Bool
  conditions : List Cond
  order : List (ColumnRef × Direction)
  /-- Greatest number of rows, and how many to pass over before. -/
  page : Option (Int × Int)
  deriving Inhabited

namespace Cond

/-- Conditions that all have to hold, those of an inner conjunction taken into the outer one. -/
def conjuncts (conditions : List Cond) : List Cond :=
  conditions.flatMap fun
    | .all inner => inner
    | condition => [condition]

def conj (conditions : List Cond) : Cond :=
  match conjuncts conditions with
  | [condition] => condition
  | several => .all several

/-- Alternatives, those of an inner disjunction taken into the outer one. -/
def disjuncts (conditions : List Cond) : List Cond :=
  conditions.flatMap fun
    | .any inner => inner
    | condition => [condition]

def disj (conditions : List Cond) : Cond :=
  match disjuncts conditions with
  | [condition] => condition
  | several => .any several

end Cond

/-- The type by which a value is compared with a column: that of the column, unless the value has a kind of its own. -/
def BindType.compared (column : ColumnType) : Json → BindType
  | .bool _ => .boolean
  | .int _ => .integer
  | .double _ => .float
  | .text _ => .string
  | .null | .list _ | .object _ => column.bindType

namespace Cond

def bound (column : ColumnRef) (value : Json) : Bound := ⟨BindType.compared column.type value, value⟩

/-- The condition that a column compares with a value. Null and truth values can only be equal or not, and membership
needs a collection. -/
def ofComparison (comparison : Comparison) (column : ColumnRef) (value : Json) : Except Failure Cond :=
  match comparison, value with
  | .equal, .null => .ok (.isNull column)
  | .notEqual, .null => .ok (.isNotNull column)
  | .equal, .bool b => .ok (.truth true column b)
  | .notEqual, .bool b => .ok (.truth false column b)
  | .isIn, .list values => .ok (.among column (values.map (member column values)))
  | .notIn, .list values => .ok (.notAmong column (values.map (member column values)))
  | .isIn, .object members => .ok (.among column (members.map fun entry => ⟨.string, .text entry.1⟩))
  | .notIn, .object members => .ok (.notAmong column (members.map fun entry => ⟨.string, .text entry.1⟩))
  | .isIn, _ | .notIn, _ => .error (.fault .unsuitableArgument)
  | _, .null | _, .bool _ => .error (.fault .unsuitableArgument)
  | _, _ => .ok (.compare comparison column (bound column value))
where
  /-- The first value of a list decides the type for all. -/
  member (column : ColumnRef) (values : List Json) (value : Json) : Bound :=
    ⟨BindType.compared column.type (values.headD .null), value⟩

end Cond

namespace Query

mutual
/-- Whether a condition speaks of a table of its own query, inner queries left aside. -/
def namesTable : Cond → Bool
  | .exist .. => false
  | .all conditions => anyNamesTable conditions
  | .any conditions => anyNamesTable conditions
  | _ => true
termination_by structural c => c

def anyNamesTable : List Cond → Bool
  | [] => false
  | c :: rest => namesTable c || anyNamesTable rest
termination_by structural cs => cs
end

/-- Whether the source stands in the statement: something has to be shown of it or asked about it. -/
def showsSource (query : Query) : Bool :=
  query.aliased || anyNamesTable query.conditions ||
    query.outputs.any fun
      | .column .. => true
      | .measure .. => false

end Query

/-- A column of a table that stands at a place of a query. -/
def Table.ref (table : Table) (frame slot : Nat) (name : String) : ColumnRef :=
  ⟨frame, slot, name, ((table.column? name).map (·.type)).getD .string⟩

end ResourceApi
