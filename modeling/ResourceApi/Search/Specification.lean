import ResourceApi.Json.Basic

/-!
What a search asks for: filters, scopes, sorts, selected fields, aggregates over relations, included relations, and the
page.
-/

namespace ResourceApi

inductive Direction where
  | asc | desc
  deriving Repr, DecidableEq, Inhabited

/-- How a filter is joined to the one before it. -/
inductive Joining where
  | and | or
  deriving Repr, DecidableEq, Inhabited

/-- What is computed over the records of a relation. -/
inductive Measure where
  | count | min | max | avg | sum | presence
  deriving Repr, DecidableEq, Inhabited

def Direction.name : Direction → String
  | asc => "asc"
  | desc => "desc"

def Direction.ofName? (text : String) : Option Direction := [asc, desc].find? (·.name == text)

def Joining.name : Joining → String
  | and => "and"
  | or => "or"

def Joining.ofName? (text : String) : Option Joining := [.and, .or].find? (·.name == text)

namespace Measure

def name : Measure → String
  | count => "count"
  | min => "min"
  | max => "max"
  | avg => "avg"
  | sum => "sum"
  | presence => "exists"

def all : List Measure := [.count, .min, .max, .avg, .sum, .presence]

def ofName? (text : String) : Option Measure := all.find? (·.name == text)

/-- Measures that are taken of a field. -/
def ofField : List Measure := [.min, .max, .avg, .sum]

end Measure

/-- A comparison of a field with a value, or a group of filters when `nested` is given. -/
structure Filter where
  field : Option String := none
  operator : String := "="
  value : Json := .null
  joining : Joining := .and
  nested : Option (List Filter) := none
  deriving Inhabited

/-- A named restriction with its parameters. -/
structure ScopeCall where
  name : String
  parameters : List Json := []
  deriving Inhabited

structure SortKey where
  field : String
  direction : Direction := .asc
  deriving Inhabited

/-- A value computed over the records that a relation path leads to. -/
structure Aggregate where
  relation : String
  measure : Measure
  field : Option String := none
  filters : List Filter := []
  deriving Inhabited

/-- A relation path whose records are loaded along, with a search of its own. -/
structure Include where
  relation : String
  filters : List Filter := []
  scopes : List ScopeCall := []
  sorts : List SortKey := []
  selects : List String := []
  aggregates : List Aggregate := []
  limit : Option Int := none
  deriving Inhabited

structure Specification where
  filters : List Filter := []
  scopes : List ScopeCall := []
  sorts : List SortKey := []
  selects : List String := []
  aggregates : List Aggregate := []
  includes : List Include := []
  limit : Option Int := none
  page : Int := 1
  deriving Inhabited

/-! ## As JSON -/

mutual
def Filter.describe : Filter → Json
  | ⟨field, operator, value, joining, nested⟩ =>
    .object [
      ("field", Json.ofText? field), ("operator", .text operator), ("value", value), ("type", .text joining.name),
      ("nested", match nested with
        | some filters => .list (Filter.describeAll filters)
        | none => .null)]
termination_by structural filter => filter

def Filter.describeAll : List Filter → List Json
  | [] => []
  | filter :: rest => filter.describe :: Filter.describeAll rest
termination_by structural filters => filters
end

def ScopeCall.describe (call : ScopeCall) : Json :=
  .object [("name", .text call.name), ("parameters", .list call.parameters)]

def SortKey.describe (sort : SortKey) : Json :=
  .object [("field", .text sort.field), ("direction", .text sort.direction.name)]

def Specification.describeSelect (field : String) : Json := .object [("field", .text field)]

def Aggregate.describe (aggregate : Aggregate) : Json :=
  .object [
    ("relation", .text aggregate.relation), ("type", .text aggregate.measure.name),
    ("field", Json.ofText? aggregate.field), ("filters", .list (Filter.describeAll aggregate.filters))]

def Specification.describeLimit (limit : Option Int) : Json := (limit.map Json.int).getD .null

def Include.describe (item : Include) : Json :=
  .object [
    ("relation", .text item.relation), ("filters", .list (Filter.describeAll item.filters)),
    ("scopes", .list (item.scopes.map ScopeCall.describe)), ("sorts", .list (item.sorts.map SortKey.describe)),
    ("selects", .list (item.selects.map Specification.describeSelect)),
    ("aggregates", .list (item.aggregates.map Aggregate.describe)), ("limit", Specification.describeLimit item.limit)]

/-- A specification with every field written out. -/
def Specification.describe (spec : Specification) : Json :=
  .object [
    ("filters", .list (Filter.describeAll spec.filters)), ("scopes", .list (spec.scopes.map ScopeCall.describe)),
    ("sorts", .list (spec.sorts.map SortKey.describe)),
    ("selects", .list (spec.selects.map Specification.describeSelect)),
    ("aggregates", .list (spec.aggregates.map Aggregate.describe)),
    ("includes", .list (spec.includes.map Include.describe)), ("limit", Specification.describeLimit spec.limit),
    ("page", .int spec.page)]

end ResourceApi
