import ResourceApi.Resource.Paths
import ResourceApi.Rule.Check
import ResourceApi.Search.Comparison

/-!
What a search may ask of a resource. The rules are built from the graph: fields and relation paths are listed there, and
the parts that search a related resource are checked by its own rules.
-/

namespace ResourceApi.Search

/-- Depth to which filters nest: the list itself and one level of groups. -/
def filterDepth : Nat := 2

def textsOf (names : List String) : List Json := names.map .text

/-- Rules for a list of filters over known fields, groups left aside. -/
def leafRules (fields : List Json) (path : String) : RuleSet :=
  let items := path ++ ".*"
  [(path, [.sometimes, .isList]),
    (items, [.isObject, .filterValue]),
    (items ++ ".field", [.requiredWithout "nested", .isString, .oneOf fields]),
    (items ++ ".operator", [.sometimes, .isString, .oneOf (textsOf (Comparison.all.map (·.symbol)))]),
    (items ++ ".value", [.requiredWithout "nested"]),
    (items ++ ".type", [.sometimes, .isString, .oneOf (textsOf ["and", "or"])])]

/-- Rules for a list of filters over known fields, with so many levels of groups below it. -/
def filterRulesFrom (fields : List Json) : Nat → String → RuleSet
  | 0, path => leafRules fields path ++ [(path ++ ".*.nested", [.prohibited])]
  | levels + 1, path =>
    let nested := path ++ ".*.nested"
    RuleSet.merge
      (leafRules fields path ++ [(nested, [.sometimes, .isList, .prohibits ["field", "operator", "value"]])])
      (filterRulesFrom fields levels nested)

/-- Rules for the filters of a resource at some depth of nesting, the first being one. -/
def filterRules (graph : Graph) (resource : Resource) (path : String) (depth : Int) : Except Failure RuleSet := do
  let fields ← graph.filterFields resource
  return filterRulesFrom (textsOf fields) ((filterDepth : Int) - depth).toNat path

def scopeRules (resource : Resource) (path : String) : RuleSet := [
  (path, [.sometimes, .isList]),
  (path ++ ".*", [.isObject]),
  (path ++ ".*.name", [.required, .isString, .oneOf (textsOf (resource.scopes.map (·.name)))]),
  (path ++ ".*.parameters", [.sometimes, .isList])]

def sortRules (resource : Resource) (path : String) : RuleSet := [
  (path, [.sometimes, .isList]),
  (path ++ ".*", [.isObject]),
  (path ++ ".*.field", [.required, .isString, .oneOf (textsOf resource.fields)]),
  (path ++ ".*.direction", [.sometimes, .isString, .oneOf (textsOf ["asc", "desc"])])]

def selectRules (resource : Resource) (path : String) : RuleSet := [
  (path, [.sometimes, .isList]),
  (path ++ ".*", [.isObject]),
  (path ++ ".*.field", [.required, .isString, .oneOf (textsOf resource.fields)])]

def aggregateRules (graph : Graph) (resource : Resource) (path : String) : Except Failure RuleSet := do
  let paths ← graph.aggregatePaths resource
  let measures := Measure.all.map (·.name)
  let ofField := Measure.ofField.map (·.name)
  return [
    (path, [.sometimes, .isList]),
    (path ++ ".*", [.isObject, .graph (.aggregateField resource), .graph (.aggregateFilterable resource)]),
    (path ++ ".*.relation", [.required, .isString, .oneOf (textsOf paths)]),
    (path ++ ".*.type", [.required, .isString, .oneOf (textsOf measures)]),
    (path ++ ".*.field",
      [.requiredIf "type" (textsOf ofField), .prohibitedIf "type" (textsOf ["count", "exists"]), .isString]),
    (path ++ ".*.filters", [.sometimes, .isList])]

def includeRules (graph : Graph) (resource : Resource) (path : String) : Except Failure RuleSet := do
  let paths ← graph.searchPaths resource
  return [
    (path, [.sometimes, .isList]),
    (path ++ ".*", [.isObject, .graph (.includable resource)]),
    (path ++ ".*.relation", [.required, .isString, .oneOf (textsOf (paths.map (·.1)))]),
    (path ++ ".*.includes", [.prohibited])]

/-- The includes of a search; those of an include have no rules of their own. -/
def includePart (graph : Graph) (resource : Resource) (path : String) (isRoot : Bool) : Except Failure RuleSet :=
  if isRoot then includeRules graph resource path else .ok []

/-- Rules for a search; only the search itself, and not that of an include, has includes and pages. -/
def rules (graph : Graph) (resource : Resource) (path : String) (isRoot : Bool) : Except Failure RuleSet := do
  let part := Path.under path
  let filters ← filterRules graph resource (part "filters") 1
  let aggregates ← aggregateRules graph resource (part "aggregates")
  let includes ← includePart graph resource (part "includes") isRoot
  let listed := [filters, scopeRules resource (part "scopes"), sortRules resource (part "sorts"),
    selectRules resource (part "selects"), aggregates, includes]
  let page : RuleSet := if isRoot then [(part "page", [.sometimes, .isInteger, .atLeast (.int 0)])] else []
  let limit : RuleSet := [(part "limit", [.sometimes, .isInteger, .oneOf resource.limits])]
  return listed.foldl RuleSet.merge [] ++ page ++ limit

/-! ## Answers of the graph -/

/-- Keys of an include that search the included records. -/
def nestedKeys : List String := ["filters", "scopes", "sorts", "selects", "aggregates"]

/-- Rules inside filters ask nothing of the graph. -/
def answerNone : GraphRule.Answer := fun _ _ _ => .ok []

/-- Aggregates are checked by the resource behind their relation. -/
def answerAggregates (graph : Graph) : GraphRule.Answer
  | .aggregateField resource, value, path => do
    let measure := (value.get? "type").getD .null
    if !measure.isName (Measure.ofField.map (·.name)) then return []
    match ← graph.resolve? resource ((value.get? "relation").getD .null), (value.get? "field").bind Json.text? with
    | some (_, target), some field =>
      if target.fields.contains field then return []
      let place := Path.under path "field"
      return [s!"{place}: value '{field}' is not an exposed field of {target.name}"]
    | _, _ => return []
  | .aggregateFilterable resource, value, path => do
    if (value.get? "filters").isNone then return []
    match ← graph.resolve? resource ((value.get? "relation").getD .null) with
    | none => return []
    | some (_, target) => (← filterRules graph target "filters" 1).errorsAt answerNone value path
  | _, _, _ => .ok []

/-- Includes are checked by the resource that they load. -/
def answer (graph : Graph) : GraphRule.Answer
  | .includable resource, value, path => do
    match ← graph.resolve? resource ((value.get? "relation").getD .null) with
    | none => return []
    | some (relation, target) =>
      if relation.isNestable then
        (← rules graph target "" false).errorsAt (answerAggregates graph) value path
      else
        let shown := ((value.get? "relation").getD .null).bare
        let used := nestedKeys.filter fun key => ((value.get? key).map Json.truthy).getD false
        return used.map fun key =>
          let place := Path.under path key
          s!"{place}: relation '{shown}' does not support nested search"
  | rule, value, path => answerAggregates graph rule value path

end ResourceApi.Search
