import ResourceApi.Json.Reading
import ResourceApi.Search.Specification

/-!
Reading specifications from JSON: members that are left out take their defaults, unknown ones are passed over, and every
member of a wrong form is reported.
-/

namespace ResourceApi

open Reading

def Joining.read : Json → Reading Joining := choice Joining.ofName? "'and' or 'or'"

mutual
def Filter.read : Json → Reading Filter
  | .object members =>
    let leaf :=
      (fun field operator value joining => (⟨field, operator, value, joining, ·⟩ : Option (List Filter) → Filter))
      <$> member members "field" none (optional text)
      <*> member members "operator" "=" text
      <*> member members "value" .null any
      <*> member members "type" .and Joining.read
    leaf <*> Filter.readNested members
  | _ => problem "Input should be a valid dictionary or instance of Filter"
termination_by structural j => j

/-- The nested filters among the members of a filter. -/
def Filter.readNested : List (String × Json) → Reading (Option (List Filter))
  | [] => done none
  | (key, value) :: rest =>
    if key = "nested" then (Filter.readGroup value).below "nested" else Filter.readNested rest
termination_by structural members => members

def Filter.readGroup : Json → Reading (Option (List Filter))
  | .null => done none
  | .list items => some <$> Filter.readFrom 0 items
  | _ => problem "Input should be a valid list"
termination_by structural j => j

/-- Reads filters, the first at the given position. -/
def Filter.readFrom (position : Nat) : List Json → Reading (List Filter)
  | [] => done []
  | j :: rest => List.cons <$> (Filter.read j).below (toString position) <*> Filter.readFrom (position + 1) rest
termination_by structural js => js
end

def Filter.readAll : Json → Reading (List Filter) := list Filter.read

def ScopeCall.read : Json → Reading ScopeCall := object "Scope" fun members =>
  ScopeCall.mk <$> required members "name" text <*> member members "parameters" [] (list any)

def SortKey.read : Json → Reading SortKey := object "Sort" fun members =>
  SortKey.mk <$> required members "field" text
    <*> member members "direction" .asc (choice Direction.ofName? "'asc' or 'desc'")

def Specification.readSelect : Json → Reading String := object "Select" fun members => required members "field" text

def Aggregate.read : Json → Reading Aggregate := object "Aggregate" fun members =>
  Aggregate.mk <$> required members "relation" text
    <*> required members "type" (choice Measure.ofName? "'count', 'min', 'max', 'avg', 'sum' or 'exists'")
    <*> member members "field" none (optional text)
    <*> member members "filters" [] Filter.readAll

def Include.read : Json → Reading Include := object "Include" fun members =>
  Include.mk <$> required members "relation" text
    <*> member members "filters" [] Filter.readAll
    <*> member members "scopes" [] (list ScopeCall.read)
    <*> member members "sorts" [] (list SortKey.read)
    <*> member members "selects" [] (list Specification.readSelect)
    <*> member members "aggregates" [] (list Aggregate.read)
    <*> member members "limit" none (optional integer)

def Specification.read : Json → Reading Specification := object "SearchSpecification" fun members =>
  Specification.mk <$> member members "filters" [] Filter.readAll
    <*> member members "scopes" [] (list ScopeCall.read)
    <*> member members "sorts" [] (list SortKey.read)
    <*> member members "selects" [] (list Specification.readSelect)
    <*> member members "aggregates" [] (list Aggregate.read)
    <*> member members "includes" [] (list Include.read)
    <*> member members "limit" none (optional integer)
    <*> member members "page" 1 integer

end ResourceApi
