import ResourceApi.Failure

/-!
Tables of a database: their names, the columns with their types, and which columns form the key.
-/

namespace ResourceApi

inductive ColumnType where
  | integer | string | datetime | float
  deriving Repr, DecidableEq, Inhabited

def ColumnType.ofName? : String → Option ColumnType
  | "integer" => some .integer
  | "string" => some .string
  | "datetime" => some .datetime
  | "float" => some .float
  | _ => none

structure Column where
  name : String
  type : ColumnType
  isKey : Bool := false
  isNullable : Bool := true
  /-- Value that a new record takes when none is given. -/
  default : Json := .null
  deriving Repr, Inhabited

structure Table where
  name : String
  columns : List Column
  deriving Repr, Inhabited

namespace Table

def columnNames (table : Table) : List String := table.columns.map (·.name)

def column? (table : Table) (name : String) : Option Column := table.columns.find? (·.name == name)

def hasColumn (table : Table) (name : String) : Bool := (table.column? name).isSome

def keyColumns (table : Table) : List Column := table.columns.filter (·.isKey)

end Table

/-- The tables of a database, and for those whose records have a model of their own the name of that model. -/
structure Schema where
  tables : List Table
  models : List (String × String) := []
  deriving Repr, Inhabited

namespace Schema

def table? (schema : Schema) (name : String) : Option Table := schema.tables.find? (·.name == name)

/-- The table of a model. -/
def modelTable? (schema : Schema) (model : String) : Option Table :=
  (schema.models.lookup model).bind schema.table?

end Schema

end ResourceApi
