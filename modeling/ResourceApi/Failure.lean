import ResourceApi.Json.Display

/-!
Why an operation fails. Each constructor is a cause; `Failure.message` words it and `Failure.label` names its class
as log lines show it.
-/

namespace ResourceApi

/-- Senseless requests and declarations for which no operation has an answer of its own. -/
inductive Fault where
  /-- A value of a kind with which the operation cannot be done. -/
  | unsuitableValue
  /-- A value of the right kind that the operation cannot take. -/
  | impossibleValue
  /-- A part is asked of a value that has none. -/
  | missingPart
  /-- A name that a collection does not hold. -/
  | unknownEntry (name : String)
  /-- The first item of nothing. -/
  | emptyChoice
  /-- A name or comparison that cannot be put into a query. -/
  | unsuitableArgument
  /-- An integer that no signed 64-bit word holds. -/
  | integerTooLarge
  deriving Repr, DecidableEq, Inhabited

/-- Ways in which the storage refuses a statement. -/
inductive StorageCause where
  | notNull (table column : String)
  | notUnique (table : String) (columns : List String)
  | severalRows
  | unknownColumn (name : String)
  /-- Two columns of a result bear one name. -/
  | ambiguousColumn (name : String)
  /-- The statement cannot be run at all. -/
  | statement
  deriving Repr, DecidableEq, Inhabited

/-- A compiled part that does not fit the resources. -/
inductive Mismatch where
  | unknownField (field resource : String)
  | unknownRelation (relation resource : String)
  | severalTargets (relation : String)
  | unknownScope (scope resource : String)
  | invalidFilter (field : Option String) (operator : String)
  | fieldNeeded (aggregate : String)
  | unknownInclude (relation resource : String)
  deriving Repr, DecidableEq, Inhabited

/-- A write that a resource or relation does not know. -/
inductive Unsupported where
  | readOnly (relation kind : String)
  | undeclared (relation resource : String)
  | operation (operation relation : String)
  | softDeletes (resource : String)
  deriving Repr, DecidableEq, Inhabited

inductive Failure where
  /-- The request breaks the rules of its resource. -/
  | invalid (errors : List String)
  /-- The request does not have the form of its type. -/
  | unreadable (errors : List String)
  /-- The declarations do not fit each other or the tables. -/
  | misconfigured (issues : List String)
  | mismatch (cause : Mismatch)
  | unsupported (cause : Unsupported)
  | notFound (resource : String) (key : Json)
  | denied (action resource : String)
  | storage (cause : StorageCause)
  | fault (kind : Fault)
  deriving Repr, Inhabited

namespace StorageCause

def text : StorageCause → String
  | notNull table column => s!"(sqlite3.IntegrityError) NOT NULL constraint failed: {table}.{column}"
  | notUnique table columns =>
    "(sqlite3.IntegrityError) UNIQUE constraint failed: " ++
      ", ".intercalate (columns.map fun column => s!"{table}.{column}")
  | severalRows => "Multiple rows were found when one or none was required"
  | unknownColumn name => s!"Unconsumed column names: {name}"
  | ambiguousColumn name => s!"Ambiguous column name {Text.quoted name} in result set column descriptions"
  | statement => "(storage)"

end StorageCause

namespace Mismatch

/-- The step of compiling that notices the mismatch, when it is one of the named ones. -/
def step? : Mismatch → Option String
  | unknownScope .. => some "scopes"
  | invalidFilter .. => some "filters"
  | fieldNeeded _ => some "aggregates"
  | unknownInclude .. => some "includes"
  | _ => none

def text : Mismatch → String
  | unknownField field resource => s!"Unknown field '{field}' on {resource}"
  | unknownRelation relation resource => s!"Unknown relation '{relation}' on {resource}"
  | unknownInclude relation resource => s!"Unknown relation '{relation}' on {resource}"
  | severalTargets relation => s!"Relation '{relation}' has several possible targets"
  | unknownScope scope resource => s!"Unknown scope '{scope}' on {resource}"
  | invalidFilter field operator =>
    let shown := match field with
      | some name => Text.quoted name
      | none => "None"
    s!"Invalid filter {shown} {Text.quoted operator}"
  | fieldNeeded aggregate => s!"Aggregate '{aggregate}' needs a field"

def message (cause : Mismatch) : String :=
  match cause.step? with
  | some step => s!"Execution failed at {step}: {cause.text}"
  | none => s!"Execution failed: {cause.text}"

end Mismatch

def Unsupported.message : Unsupported → String
  | readOnly relation kind => s!"You can't mutate a '{kind}' relation ('{relation}')."
  | undeclared relation resource => s!"Unknown relation '{relation}' on {resource}"
  | .operation written relation => s!"Operation '{written}' is not supported by '{relation}'"
  | softDeletes resource => s!"{resource} does not support soft deletes"

namespace Fault

def label : Fault → String
  | unsuitableValue => "TypeError"
  | impossibleValue => "ValueError"
  | missingPart => "AttributeError"
  | unknownEntry _ => "KeyError"
  | emptyChoice => "IndexError"
  | unsuitableArgument => "ArgumentError"
  | integerTooLarge => "OverflowError"

def message : Fault → String
  | unknownEntry name => Text.quoted name
  | emptyChoice => "tuple index out of range"
  | integerTooLarge => "Python int too large to convert to SQLite INTEGER"
  | _ => ""

end Fault

namespace Failure

/-- Name of the class of a failure. -/
def label : Failure → String
  | invalid _ => "ValidationError"
  | unreadable _ => "ValidationError"
  | misconfigured _ => "ResourceConfigError"
  | mismatch _ => "ExecutionError"
  | unsupported _ => "UnsupportedOperationError"
  | notFound .. => "NotFoundError"
  | denied .. => "AuthorizationError"
  | storage _ => "StorageError"
  | fault kind => kind.label

def message : Failure → String
  | invalid errors | unreadable errors =>
    "Validation failed: " ++ (Json.list (errors.map .text)).display
  | misconfigured issues => "Resource configuration is invalid:\n" ++ "\n".intercalate issues
  | mismatch cause => cause.message
  | unsupported cause => cause.message
  | notFound resource key => s!"No {resource} record found for key {key.display}"
  | denied action resource => s!"Access denied: '{action}' on {resource}"
  | storage cause => "Storage failure: " ++ cause.text
  | fault kind => kind.message

end Failure

end ResourceApi
