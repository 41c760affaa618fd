import ResourceApi.Query.Basic
import ResourceApi.Query.Name

/-!
Queries as SQL text with their values apart. Every table that is not the first of the whole query gets a name of its
own, its number being the count of such names at its first appearance in the text; values are numbered by their place.
-/

namespace ResourceApi.Query

/-- A statement: its text with a question mark for each value, and the values in their order. -/
structure Statement where
  text : String
  values : List Json
  deriving Inhabited

namespace Sql

/-- The tables of a query in sight, each with its name in the database and its name in the statement once it has one. -/
abbrev Frame := List (String × Option String)

structure State where
  /-- How many names were made of each base. -/
  counts : List (String × Nat) := []
  /-- The queries around the place reached, the innermost first. -/
  frames : List Frame := []
  values : Array Json := #[]

abbrev Printer := StateM State

/-- A new name made of a base and the next number. -/
def fresh (base : String) : Printer String := modifyGet fun state =>
  let number := (state.counts.lookup base).getD 0 + 1
  (s!"{base}_{number}", { state with counts := (base, number) :: state.counts })

/-- The name of a table of a query in sight. -/
def tableName (frame slot : Nat) : Printer String := do
  match ((← get).frames.getD frame []).getD slot ("", none) with
  | (_, some name) => return name
  | (base, none) =>
    let name ← fresh base
    modify fun state => { state with
      frames := state.frames.modify frame fun tables => tables.modify slot fun entry => (entry.1, some name) }
    return name

def column (ref : ColumnRef) : Printer String := do
  return Name.text (← tableName ref.frame ref.slot) ++ "." ++ Name.text ref.name

/-- A question mark for a value. -/
def value (j : Json) : Printer String :=
  modifyGet fun state => ("?", { state with values := state.values.push j })

/-- Runs a printer inside one more query. -/
def inside {α : Type} (tables : Frame) (printer : Printer α) : Printer α := do
  modify fun state => { state with frames := tables :: state.frames }
  let result ← printer
  modify fun state => { state with frames := state.frames.drop 1 }
  return result

/-- The tables of a source from left to right. -/
def tables : Source → List String
  | .table name => [name]
  | .join left right _ => tables left ++ tables right

def frame (source : Source) : Frame := (tables source).map (·, none)

/-- Parts of a statement, those that are empty left out. -/
def words (parts : List String) : String := " ".intercalate (parts.filter (!·.isEmpty))

/-- A query without order and page. -/
def selectText (shown origin : String) (conditions : List String) : String :=
  words ["SELECT", shown, if origin.isEmpty then "" else "FROM " ++ origin,
    if conditions.isEmpty then "" else "WHERE " ++ " AND ".intercalate conditions]

/-- The values of a membership test; the empty list is written as a query without rows. -/
def members (bounds : List Bound) : Printer String := do
  if bounds.isEmpty then return "(SELECT 1 FROM (SELECT 1) WHERE 1!=1)"
  let marks ← bounds.mapM fun bound => value bound.value
  return "(" ++ ", ".intercalate marks ++ ")"

def parenthesised (wanted : Bool) (text : String) : String := if wanted then "(" ++ text ++ ")" else text

def symbol : Comparison → String
  | .like => "LIKE"
  | .notLike => "NOT LIKE"
  | comparison => comparison.symbol

mutual
/-- A condition; `joined` tells that it stands with others. -/
def condition (joined : Bool) : Cond → Printer String
  | .isNull ref => return (← column ref) ++ " IS NULL"
  | .isNotNull ref => return (← column ref) ++ " IS NOT NULL"
  | .compare comparison ref bound => do
    let left ← column ref
    return left ++ " " ++ symbol comparison ++ " " ++ (← value bound.value)
  | .truth equal ref b => do
    return (← column ref) ++ (if equal then " = " else " != ") ++ (if b then "1" else "0")
  | .among ref bounds => do
    let left ← column ref
    return left ++ " IN " ++ (← members bounds)
  | .notAmong ref bounds => do
    let left ← column ref
    return parenthesised joined (left ++ " NOT IN " ++ (← members bounds))
  | .amongParents ref => do
    let left ← column ref
    return left ++ " IN (" ++ (← value (.text "$parent_keys")) ++ ")"
  | .linked ref other => do
    let left ← column ref
    return left ++ " = " ++ (← column other)
  | .picked ref extreme picked source conditions => do
    let left ← column ref
    let inner ← inside (frame source) do
      let argument ← column picked
      let shown := extreme.name ++ "(" ++ argument ++ ") AS " ++ (← fresh extreme.name)
      let (origin, _) ← sourceText 0 source
      let parts ← conditionTexts (1 < conditions.length) conditions
      return selectText shown origin parts
    return left ++ " = (" ++ inner ++ ")"
  | .exist shown source conditions => do
    let inner ← inside (frame source) do
      let argument ← column shown
      let (origin, _) ← sourceText 0 source
      let parts ← conditionTexts (1 < conditions.length) conditions
      return selectText argument origin parts
    return parenthesised joined ("EXISTS (" ++ inner ++ ")")
  | .all conditions => return " AND ".intercalate (← conditionTexts (1 < conditions.length) conditions)
  | .any conditions =>
    return parenthesised joined (" OR ".intercalate (← conditionTexts (1 < conditions.length) conditions))
termination_by structural c => c

def conditionTexts (joined : Bool) : List Cond → Printer (List String)
  | [] => return []
  | c :: rest => do
    let first ← condition joined c
    return first :: (← conditionTexts joined rest)
termination_by structural cs => cs

/-- A source whose first table has the given number; the second result is the number after its last. -/
def sourceText (slot : Nat) : Source → Printer (String × Nat)
  | .table name => do
    let shown ← tableName 0 slot
    return (if shown = name then Name.text name else Name.text name ++ " AS " ++ Name.text shown, slot + 1)
  | .join left right on => do
    let (leftText, middle) ← sourceText slot left
    let (rightText, next) ← sourceText middle right
    let parts ← conditionTexts (1 < on.length) on
    return (leftText ++ " JOIN " ++ parenthesised (1 < next - middle) rightText ++ " ON " ++ " AND ".intercalate parts,
      next)
termination_by structural source => source
end

/-- A column of a result. -/
def output : Output → Printer String
  | .column ref label => do
    let shown ← column ref
    return shown ++ ((label.map fun l => " AS " ++ Name.text l).getD "")
  | .measure label measure argument source conditions => do
    let inner ← inside (frame source) do
      let shown ← match measure, argument with
        | .presence, some ref => column ref
        | measure, argument =>
          let operand ← match argument with
            | some ref => column ref
            | none => pure "*"
          pure (measure.name ++ "(" ++ operand ++ ") AS " ++ (← fresh measure.name))
      let (origin, _) ← sourceText 0 source
      let parts ← conditionTexts (1 < conditions.length) conditions
      return selectText shown origin parts
    let written := (if measure = .presence then "EXISTS " else "") ++ "(" ++ inner ++ ")"
    return written ++ " AS " ++ Name.text label

end Sql

open Sql

/-- The frame of a query: its own tables. -/
def ownFrame (query : Query) : Frame :=
  (tables query.source).map fun name => (name, if query.aliased then none else some name)

def print (query : Query) : Printer String := inside query.ownFrame do
  let shown ← query.outputs.mapM output
  let origin ← if query.showsSource then (sourceText 0 query.source).map (·.1) else pure ""
  let conditions ← conditionTexts (1 < query.conditions.length) query.conditions
  let order ← query.order.mapM fun (ref, direction) => do
    return (← column ref) ++ (if direction = .asc then " ASC" else " DESC")
  let page ← match query.page with
    | none => pure ""
    | some (limit, offset) => do
      let limitMark ← value (.int limit)
      pure ("LIMIT " ++ limitMark ++ " OFFSET " ++ (← value (.int offset)))
  let orderText := if order.isEmpty then "" else "ORDER BY " ++ ", ".intercalate order
  return words [selectText (", ".intercalate shown) origin conditions, orderText, page]

/-- The statement of a query. -/
def statement (query : Query) : Statement :=
  let (text, state) := query.print.run {}
  ⟨text, state.values.toList⟩

/-- The statement that counts the rows of a table that meet some conditions, by the column of their key. -/
def countStatement (table : String) (key : ColumnRef) (conditions : List Cond) : Statement :=
  let inner : Query := ⟨[.column key (some key.name)], .table table, false, conditions, [], none⟩
  let printer : Printer String := do
    let label ← fresh "count"
    let text ← inner.print
    return "SELECT count(*) AS " ++ label ++ " FROM (" ++ text ++ ") AS " ++ (← fresh "anon")
  let (text, state) := printer.run {}
  ⟨text, state.values.toList⟩

end ResourceApi.Query
