import ResourceApi.Proofs.Json.Reading
import ResourceApi.Proofs.Resource.Built
import ResourceApi.Proofs.Rule.Met
import ResourceApi.Proofs.Text.Path
import ResourceApi.Search.Validation

/-!
What is known of a search once it is accepted: every name in it is one that the rules of the resource list, also inside
aggregates and includes, whose parts are checked by the rules of the resource behind them.
-/

namespace ResourceApi

open Outcome Reading RuleSet

/-- A filter that speaks of listed fields only, and compares them with values that say something, for membership with
lists. -/
inductive Filter.Fits (fields : List String) : Filter → Prop where
  | leaf {filter : Filter} {name : String} (alone : filter.nested = none) (named : filter.field = some name)
      (listed : name ∈ fields) (known : (Comparison.ofSymbol? filter.operator).isSome) (valued : filter.value ≠ .null)
      (several : filter.operator ∈ ["in", "not in"] → filter.value.isList) : Filter.Fits fields filter
  | group {filter : Filter} {filters : List Filter} (grouped : filter.nested = some filters)
      (each : ∀ inner ∈ filters, Filter.Fits fields inner) : Filter.Fits fields filter

/-- Filters that speak of fields that can be searched by. -/
def Graph.FiltersFit (graph : Graph) (resource : Resource) (filters : List Filter) : Prop :=
  ∀ filter ∈ filters, ∃ fields, graph.filterFields resource = .ok fields ∧ filter.Fits fields

/-- An aggregate over a path that can be computed over, of an exposed field and of filters that fit the resource
behind the path. -/
structure Aggregate.Fits (graph : Graph) (resource : Resource) (item : Aggregate) : Prop where
  path : ∃ paths, graph.aggregatePaths resource = .ok paths ∧ item.relation ∈ paths
  behind : ∀ relation target, graph.resolve? resource (.text item.relation) = .ok (some (relation, target)) →
    (item.measure ∈ Measure.ofField → ∃ field ∈ target.fields, item.field = some field) ∧
      graph.FiltersFit target item.filters

/-- The parts that a search and an include have in common. -/
structure Search.Fits (graph : Graph) (resource : Resource) (filters : List Filter) (scopes : List ScopeCall)
    (sorts : List SortKey) (selects : List String) (aggregates : List Aggregate) : Prop where
  filters : graph.FiltersFit resource filters
  scopes : ∀ call ∈ scopes, (resource.scope? call.name).isSome
  sorts : ∀ sort ∈ sorts, sort.field ∈ resource.fields
  selects : ∀ name ∈ selects, name ∈ resource.fields
  aggregates : ∀ item ∈ aggregates, item.Fits graph resource

/-- A limit that is one of those that a resource exposes. -/
def Resource.Limits (resource : Resource) (limit : Option Int) : Prop :=
  ∀ count, limit = some count → (Json.int count).isIn resource.limits

/-- An include of a relation path, with a search that fits the resource behind it, and with none if there is more than
one such resource. -/
structure Include.Fits (graph : Graph) (resource : Resource) (item : Include) : Prop where
  listed : ∃ paths, graph.searchPaths resource = .ok paths ∧ item.relation ∈ paths.map (·.1)
  behind : ∃ relation target, graph.resolve? resource (.text item.relation) = .ok (some (relation, target)) ∧
    (relation.isNestable →
      Search.Fits graph target item.filters item.scopes item.sorts item.selects item.aggregates ∧
        target.Limits item.limit) ∧
    (¬relation.isNestable →
      item.filters = [] ∧ item.scopes = [] ∧ item.sorts = [] ∧ item.selects = [] ∧ item.aggregates = [])

structure Specification.Fits (graph : Graph) (resource : Resource) (spec : Specification) : Prop where
  parts : Search.Fits graph resource spec.filters spec.scopes spec.sorts spec.selects spec.aggregates
  includes : ∀ item ∈ spec.includes, item.Fits graph resource
  limit : resource.Limits spec.limit

namespace Search

variable {answer : GraphRule.Answer}

/-! ## The rules of a search -/

/-- Rules for one level of groups, written out. -/
theorem filterRules_eq (fields : List Json) :
    filterRulesFrom fields 1 "filters" =
      leafRules fields "filters" ++
        ("filters.*.nested", [.sometimes, .isList, .prohibits ["field", "operator", "value"]]) ::
          (leafRules fields "filters.*.nested").tail ++ [("filters.*.nested.*.nested", [.prohibited])] := by
  simp [filterRulesFrom, leafRules, merge, extend, Constraint.same]

private theorem tidy_leafRules (fields : List Json) (path : String) : ∀ entry ∈ leafRules fields path, Tidy entry.2 := by
  simp [leafRules, Tidy, Constraint.same]

private theorem foldl_merge_fresh {sets : List RuleSet} (distinct : (sets.flatten.map (·.1)).Nodup)
    (tidy : ∀ set ∈ sets, ∀ entry ∈ set, Tidy entry.2) : sets.foldl merge [] = sets.flatten := by
  have loop (done : RuleSet) (sets : List RuleSet) (distinct : ((done ++ sets.flatten).map (·.1)).Nodup)
      (tidy : ∀ set ∈ sets, ∀ entry ∈ set, Tidy entry.2) : sets.foldl merge done = done ++ sets.flatten := by
    induction sets generalizing done with
    | nil => simp
    | cons set rest ih =>
      rw [List.flatten_cons, ← List.append_assoc] at distinct
      have here : ((done ++ set).map (·.1)).Nodup := by
        rw [List.map_append] at distinct
        exact (List.nodup_append.1 distinct).1
      rw [List.foldl_cons, merge_fresh here (tidy set List.mem_cons_self),
        ih (done ++ set) distinct fun later member => tidy later (List.mem_cons_of_mem set member)]
      simp
  simpa using loop [] sets (by simpa using distinct) tidy

/-- The parts of the rules of a search, in their order. -/
def ruleParts (resource : Resource) (fields : List String) (aggregates includes : RuleSet) : List RuleSet :=
  [filterRulesFrom (textsOf fields) 1 "filters", scopeRules resource "scopes", sortRules resource "sorts",
    selectRules resource "selects", aggregates, includes]

private theorem aggregateRules_eq {graph : Graph} {resource : Resource} {set : RuleSet}
    (given : aggregateRules graph resource "aggregates" = .ok set) :
    set.map (·.1) = ["aggregates", "aggregates.*", "aggregates.*.relation", "aggregates.*.type", "aggregates.*.field",
      "aggregates.*.filters"] ∧ ∀ entry ∈ set, Tidy entry.2 := by
  simp only [aggregateRules, bind_eq_ok, pure_eq_ok] at given
  obtain ⟨paths, -, rfl⟩ := given
  simp [Tidy, Constraint.same]

private theorem includePart_eq {graph : Graph} {resource : Resource} {isRoot : Bool} {set : RuleSet}
    (given : includePart graph resource "includes" isRoot = .ok set) :
    (set.map (·.1) = ["includes", "includes.*", "includes.*.relation", "includes.*.includes"] ∨ set = []) ∧
      ∀ entry ∈ set, Tidy entry.2 := by
  cases isRoot with
  | false =>
    cases given
    simp
  | true =>
    simp only [includePart, includeRules, if_true, bind_eq_ok, pure_eq_ok] at given
    obtain ⟨paths, -, rfl⟩ := given
    simp [Tidy, Constraint.same]

private theorem paths_filterRules (fields : List Json) :
    (filterRulesFrom fields 1 "filters").map (·.1) =
      ["filters", "filters.*", "filters.*.field", "filters.*.operator", "filters.*.value", "filters.*.type",
        "filters.*.nested", "filters.*.nested.*", "filters.*.nested.*.field", "filters.*.nested.*.operator",
        "filters.*.nested.*.value", "filters.*.nested.*.type", "filters.*.nested.*.nested"] := by
  rw [filterRules_eq]
  simp [leafRules]

private theorem tidy_filterRules (fields : List Json) :
    ∀ entry ∈ filterRulesFrom fields 1 "filters", Tidy entry.2 := by
  rw [filterRules_eq]
  intro entry inside
  rcases List.mem_append.1 inside with before | last
  · rcases List.mem_append.1 before with leaf | later
    · exact tidy_leafRules fields "filters" entry leaf
    · rcases List.mem_cons.1 later with rfl | inner
      · simp [Tidy, Constraint.same]
      · exact tidy_leafRules fields "filters.*.nested" entry (List.mem_of_mem_tail inner)
  · obtain rfl := List.mem_singleton.1 last
    simp [Tidy]

private theorem tidy_ruleParts {resource : Resource} {fields : List String} {aggregates includes : RuleSet}
    (ofAggregates : ∀ entry ∈ aggregates, Tidy entry.2) (ofIncludes : ∀ entry ∈ includes, Tidy entry.2) :
    ∀ part ∈ ruleParts resource fields aggregates includes, ∀ entry ∈ part, Tidy entry.2 := by
  have ofScopes : ∀ entry ∈ scopeRules resource "scopes", Tidy entry.2 := by simp [scopeRules, Tidy, Constraint.same]
  have ofSorts : ∀ entry ∈ sortRules resource "sorts", Tidy entry.2 := by simp [sortRules, Tidy, Constraint.same]
  have ofSelects : ∀ entry ∈ selectRules resource "selects", Tidy entry.2 := by
    simp [selectRules, Tidy, Constraint.same]
  unfold ruleParts
  simp only [List.forall_mem_cons]
  exact ⟨tidy_filterRules _, ofScopes, ofSorts, ofSelects, ofAggregates, ofIncludes,
    fun _ none => absurd none List.not_mem_nil⟩

/-- The rules of a search are those of its parts. -/
theorem mem_rules {graph : Graph} {resource : Resource} {isRoot : Bool} {set : RuleSet}
    (given : rules graph resource "" isRoot = .ok set) :
    ∃ fields aggregates includes, graph.filterFields resource = .ok fields ∧
      aggregateRules graph resource "aggregates" = .ok aggregates ∧
      includePart graph resource "includes" isRoot = .ok includes ∧
      (∀ part ∈ ruleParts resource fields aggregates includes, ∀ entry ∈ part, entry ∈ set) ∧
      ("limit", [.sometimes, .isInteger, .oneOf resource.limits]) ∈ set := by
  have under (name : String) : Path.under "" name = name := rfl
  simp only [rules, under, bind_eq_ok, pure_eq_ok] at given
  obtain ⟨filters, filtered, aggregates, aggregated, includes, included, rfl⟩ := given
  simp only [filterRules, bind_eq_ok, pure_eq_ok] at filtered
  obtain ⟨fields, listed, rfl⟩ := filtered
  have levels : ((filterDepth : Int) - 1).toNat = 1 := rfl
  rw [levels]
  refine ⟨fields, aggregates, includes, listed, aggregated, included, ?_, by simp⟩
  have merged := @foldl_merge_fresh (ruleParts resource fields aggregates includes) ?_ ?_
  · intro part member entry inside
    refine List.mem_append_left _ (List.mem_append_left _ ?_)
    exact merged ▸ List.mem_flatten.2 ⟨part, member, inside⟩
  · have ofAggregates := (aggregateRules_eq aggregated).1
    rcases (includePart_eq included).1 with ofIncludes | rfl
    · simp only [ruleParts, List.flatten_cons, List.flatten_nil, List.map_append, paths_filterRules, ofAggregates,
        ofIncludes]
      simp [scopeRules, sortRules, selectRules]
    · simp only [ruleParts, List.flatten_cons, List.flatten_nil, List.map_append, paths_filterRules, ofAggregates]
      simp [scopeRules, sortRules, selectRules]
  · exact tidy_ruleParts (aggregateRules_eq aggregated).2 (includePart_eq included).2

/-! ## Places of a search -/

/-- What the items of a part keep to. -/
theorem placeErrors_of_item {set : RuleSet} {members : Members} (none : set.errors answer (.object members) = .ok [])
    {part pattern : String} {rest : List Segment} {constraints : List Constraint}
    (rule : (pattern, constraints) ∈ set)
    (names : (Path.segments pattern).map Segment.ofText = .name part :: .any :: rest) {items : List Json}
    (found : members.get? part = some (.list items)) {item : Json} (member : item ∈ items) :
    ∃ inner, ∀ place ∈ Attribute.below inner item rest, placeErrors answer constraints place = .ok [] := by
  obtain ⟨inner, reaches⟩ := Attribute.below_item member [.member part]
  refine ⟨inner, fun place reached => placeErrors_of_errors none rule ?_⟩
  have entered : (Json.object members).get? part = some (.list items) := found
  rw [Attribute.expand, names, Attribute.below_member entered]
  exact reaches rest place reached

/-- What a member of an item keeps to. -/
theorem placeErrors_of_key {set : RuleSet} {members : Members} (none : set.errors answer (.object members) = .ok [])
    {part pattern key : String} {constraints : List Constraint} (rule : (pattern, constraints) ∈ set)
    (names : (Path.segments pattern).map Segment.ofText = [.name part, .any, .name key]) {items : List Json}
    (found : members.get? part = some (.list items)) {item : Members} (member : .object item ∈ items) :
    ∃ trail, placeErrors answer constraints ⟨trail, some item, item.get? key⟩ = .ok [] := by
  obtain ⟨inner, kept⟩ := placeErrors_of_item none rule names found member
  exact ⟨inner ++ [.member key], kept _ (by rw [Attribute.below_last]; exact List.mem_singleton.2 rfl)⟩

/-- What the items of an inner list keep to. -/
theorem placeErrors_of_innerItem {set : RuleSet} {members : Members}
    (none : set.errors answer (.object members) = .ok []) {part group pattern : String} {rest : List Segment}
    {constraints : List Constraint} (rule : (pattern, constraints) ∈ set)
    (names : (Path.segments pattern).map Segment.ofText = .name part :: .any :: .name group :: .any :: rest)
    {items : List Json} (found : members.get? part = some (.list items)) {item : Members}
    (member : .object item ∈ items) {innerItems : List Json} (foundInner : item.get? group = some (.list innerItems))
    {inner : Json} (innerMember : inner ∈ innerItems) :
    ∃ trail, ∀ place ∈ Attribute.below trail inner rest, placeErrors answer constraints place = .ok [] := by
  obtain ⟨outer, kept⟩ := placeErrors_of_item none rule names found member
  obtain ⟨trail, reaches⟩ := Attribute.below_item innerMember (outer ++ [.member group])
  have entered : (Json.object item).get? group = some (.list innerItems) := foundInner
  rw [Attribute.below_member entered] at kept
  exact ⟨trail, fun place reached => kept place (reaches rest place reached)⟩

/-- What a member of an item of an inner list keeps to. -/
theorem placeErrors_of_innerKey {set : RuleSet} {members : Members}
    (none : set.errors answer (.object members) = .ok []) {part group pattern key : String}
    {constraints : List Constraint} (rule : (pattern, constraints) ∈ set)
    (names : (Path.segments pattern).map Segment.ofText = [.name part, .any, .name group, .any, .name key])
    {items : List Json} (found : members.get? part = some (.list items)) {item : Members}
    (member : .object item ∈ items) {innerItems : List Json} (foundInner : item.get? group = some (.list innerItems))
    {inner : Members} (innerMember : .object inner ∈ innerItems) :
    ∃ trail, placeErrors answer constraints ⟨trail, some inner, inner.get? key⟩ = .ok [] := by
  obtain ⟨trail, kept⟩ := placeErrors_of_innerItem none rule names found member foundInner innerMember
  exact ⟨trail ++ [.member key], kept _ (by rw [Attribute.below_last]; exact List.mem_singleton.2 rfl)⟩

/-- A member that has to be one of some names is one of them. -/
theorem mem_of_placeErrors {constraints : List Constraint} {trail : List Step} {parent : Option Members} {text : String}
    {names : List String} (none : placeErrors answer constraints ⟨trail, parent, some (.text text)⟩ = .ok [])
    (member : .oneOf (names.map .text) ∈ constraints) : text ∈ names := by
  have listed := isIn_of_met rfl (constraintErrors_of_present none rfl member)
  obtain ⟨name, inside, same⟩ := Json.isIn_texts listed
  cases same
  exact inside

end Search

/-! ## Filters -/

theorem Filter.readFrom_eq_done {position : Nat} {items : List Json} {filters : List Filter}
    (success : Filter.readFrom position items = done filters) :
    List.Forall₂ (fun item filter => Filter.read item = done filter) items filters := by
  induction items generalizing position filters with
  | nil =>
    cases success
    exact .nil
  | cons item rest ih =>
    simp only [Filter.readFrom, seq_eq_done, map_eq_done, below_eq_done] at success
    obtain ⟨_, ⟨filter, here, rfl⟩, others, later, rfl⟩ := success
    exact .cons here (ih later)

theorem Filter.readGroup_eq_done {value : Json} {group : Option (List Filter)}
    (success : Filter.readGroup value = done group) :
    value = .null ∧ group = none ∨ ∃ items filters, value = .list items ∧ group = some filters ∧
      List.Forall₂ (fun item filter => Filter.read item = done filter) items filters := by
  cases value with
  | null =>
    cases success
    exact .inl ⟨rfl, rfl⟩
  | list items =>
    simp only [Filter.readGroup, map_eq_done] at success
    obtain ⟨filters, each, rfl⟩ := success
    exact .inr ⟨items, filters, rfl, rfl, Filter.readFrom_eq_done each⟩
  | _ => cases success

theorem Filter.readNested_eq (members : Members) :
    Filter.readNested members = match members.get? "nested" with
      | some value => (Filter.readGroup value).below "nested"
      | none => done none := by
  induction members with
  | nil => rfl
  | cons entry rest ih =>
    obtain ⟨key, value⟩ := entry
    rw [Filter.readNested, ih, Members.get?, Members.get?, List.lookup_cons]
    by_cases here : key = "nested"
    · simp [here]
    · have different : ("nested" == key) = false := by simpa using Ne.symm here
      rw [if_neg here, different]

/-- A filter was read from the members of an object. -/
theorem Filter.read_eq_done {value : Json} {filter : Filter} (success : Filter.read value = done filter) :
    ∃ members, value = .object members ∧
      member members "field" none (optional text) = done filter.field ∧
      member members "operator" "=" text = done filter.operator ∧
      member members "value" .null any = done filter.value ∧
      member members "type" .and Joining.read = done filter.joining ∧
      Filter.readNested members = done filter.nested := by
  cases value with
  | object members =>
    simp only [Filter.read, seq_eq_done, map_eq_done] at success
    obtain ⟨_, ⟨_, ⟨_, ⟨_, ⟨field, fieldRead, rfl⟩, operator, operatorRead, rfl⟩, value, valueRead, rfl⟩, joining,
      joiningRead, rfl⟩, nested, nestedRead, rfl⟩ := success
    exact ⟨members, rfl, fieldRead, operatorRead, valueRead, joiningRead, nestedRead⟩
  | _ => cases success

namespace Search

variable {answer : GraphRule.Answer}

/-- What the rules for filters say about the members of one: it has a field that is listed and a value unless it is a
group, an operator that is known, and a list if that is for membership. -/
structure FilterItem (fields : List String) (members : Members) : Prop where
  named : Json.isFilled (members.get? "nested") ∨ ∃ name ∈ fields, members.get? "field" = some (.text name)
  known : ∀ value, members.get? "operator" = some value → ∃ comparison : Comparison, value = .text comparison.symbol
  valued : Json.isFilled (members.get? "nested") ∨ Json.isFilled (members.get? "value")
  several : ∀ operand, members.get? "value" = some operand →
    members.get? "operator" = some (.text "in") ∨ members.get? "operator" = some (.text "not in") → operand.isList

theorem filterItem_of_places {fields : List String} {members : Members} {outer ofField ofOperator ofValue : List Step}
    (whole : placeErrors answer [.isObject, .filterValue] ⟨outer, none, some (.object members)⟩ = .ok [])
    (field : placeErrors answer [.requiredWithout "nested", .isString, .oneOf (textsOf fields)]
      ⟨ofField, some members, members.get? "field"⟩ = .ok [])
    (operator : placeErrors answer [.sometimes, .isString, .oneOf (textsOf (Comparison.all.map (·.symbol)))]
      ⟨ofOperator, some members, members.get? "operator"⟩ = .ok [])
    (value : placeErrors answer [.requiredWithout "nested"] ⟨ofValue, some members, members.get? "value"⟩ = .ok []) :
    FilterItem fields members := by
  refine ⟨?_, fun value present => ?_,
    isFilled_of_requiredWithout (constraintErrors_of_needed value (by simp) List.mem_cons_self), ?_⟩
  · rcases isFilled_of_requiredWithout (constraintErrors_of_needed field (by simp) List.mem_cons_self) with group | filled
    · exact .inl group
    · cases found : members.get? "field" with
      | none => simp [found, Json.isFilled] at filled
      | some value =>
        rw [found] at field
        obtain ⟨text, rfl⟩ := isText_of_met rfl (constraintErrors_of_present field rfl (by simp))
        exact .inr ⟨text, mem_of_placeErrors field (by simp [textsOf]), rfl⟩
  · rw [present] at operator
    obtain ⟨text, rfl⟩ := isText_of_met rfl (constraintErrors_of_present operator rfl (by simp))
    have listed := mem_of_placeErrors operator (List.mem_cons_of_mem _ (List.mem_cons_of_mem _ List.mem_cons_self))
    obtain ⟨comparison, -, rfl⟩ := List.mem_map.1 listed
    exact ⟨comparison, rfl⟩
  · have met := constraintErrors_of_present whole rfl (List.mem_cons_of_mem _ List.mem_cons_self)
    exact constraintErrors_eq_nil.1 met _ rfl

/-- A filter read from an item without a group speaks of a listed field. -/
theorem fits_of_filterItem {fields : List String} {members : Members} {filter : Filter} (item : FilterItem fields members)
    (single : Json.isFilled (members.get? "nested") = false) (read : Filter.read (.object members) = done filter)
    (alone : filter.nested = none) : filter.Fits fields := by
  obtain ⟨_, same, fieldRead, operatorRead, valueRead, -⟩ := Filter.read_eq_done read
  cases same
  have named : ∃ name ∈ fields, members.get? "field" = some (.text name) := by
    rcases item.named with group | named
    · simp [single] at group
    · exact named
  obtain ⟨name, listed, present⟩ := named
  have filled : Json.isFilled (members.get? "value") := item.valued.resolve_left (by simp [single])
  have given : members.get? "value" = some filter.value := by
    rcases member_eq_done.1 valueRead with ⟨value, found, same⟩ | ⟨absent, -⟩
    · rw [found, any_eq_done.1 same]
    · simp [absent, Json.isFilled] at filled
  refine .leaf alone ?_ listed ?_ (fun isNull => ?_) fun isSeveral => item.several filter.value given ?_
  · rcases member_eq_done.1 fieldRead with ⟨value, found, given⟩ | ⟨absent, -⟩
    · rw [present] at found
      cases found
      rcases optional_eq_done given with ⟨isNull, -⟩ | ⟨text, textRead, some⟩
      · cases isNull
      · rw [some, ← text_eq_done.1 textRead |> Json.text.inj]
    · rw [present] at absent
      cases absent
  · rcases member_eq_done.1 operatorRead with ⟨value, found, given⟩ | ⟨-, default⟩
    · obtain ⟨comparison, rfl⟩ := item.known value found
      rw [← Json.text.inj (text_eq_done.1 given), Comparison.ofSymbol?_symbol]
      rfl
    · rw [← default]
      decide
  · simp [given, isNull, Json.isFilled] at filled
  · rcases member_eq_done.1 operatorRead with ⟨value, found, same⟩ | ⟨-, default⟩
    · rw [found, text_eq_done.1 same]
      simpa using isSeveral
    · rw [← default] at isSeveral
      simp at isSeveral

/-- A group, read from the member of an item. -/
theorem group_of_read {members : Members} {filter : Filter} (read : Filter.read (.object members) = done filter) :
    (members.get? "nested" = none ∨ members.get? "nested" = some .null) ∧ filter.nested = none ∨
      ∃ items filters, members.get? "nested" = some (.list items) ∧ filter.nested = some filters ∧
        List.Forall₂ (fun item filter => Filter.read item = done filter) items filters := by
  obtain ⟨_, same, -, -, -, -, nestedRead⟩ := Filter.read_eq_done read
  cases same
  rw [Filter.readNested_eq] at nestedRead
  cases found : members.get? "nested" with
  | none =>
    rw [found] at nestedRead
    exact .inl ⟨.inl rfl, (Reading.done.inj nestedRead).symm⟩
  | some value =>
    rw [found] at nestedRead
    rcases Filter.readGroup_eq_done (below_eq_done.1 nestedRead) with ⟨rfl, alone⟩ | ⟨items, filters, rfl, grouped, each⟩
    · exact .inl ⟨.inr rfl, alone⟩
    · exact .inr ⟨items, filters, rfl, grouped, each⟩

private theorem names_ofItem : (Path.segments "filters.*").map Segment.ofText = [.name "filters", .any] := by decide

private theorem names_ofField :
    (Path.segments "filters.*.field").map Segment.ofText = [.name "filters", .any, .name "field"] := by decide

private theorem names_ofOperator :
    (Path.segments "filters.*.operator").map Segment.ofText = [.name "filters", .any, .name "operator"] := by decide

private theorem names_ofValue :
    (Path.segments "filters.*.value").map Segment.ofText = [.name "filters", .any, .name "value"] := by decide

private theorem names_ofNested :
    (Path.segments "filters.*.nested").map Segment.ofText = [.name "filters", .any, .name "nested"] := by decide

private theorem names_ofInnerItem : (Path.segments "filters.*.nested.*").map Segment.ofText =
    [.name "filters", .any, .name "nested", .any] := by decide

private theorem names_ofInnerField : (Path.segments "filters.*.nested.*.field").map Segment.ofText =
    [.name "filters", .any, .name "nested", .any, .name "field"] := by decide

private theorem names_ofInnerOperator : (Path.segments "filters.*.nested.*.operator").map Segment.ofText =
    [.name "filters", .any, .name "nested", .any, .name "operator"] := by decide

private theorem names_ofInnerValue : (Path.segments "filters.*.nested.*.value").map Segment.ofText =
    [.name "filters", .any, .name "nested", .any, .name "value"] := by decide

private theorem names_ofInnerNested : (Path.segments "filters.*.nested.*.nested").map Segment.ofText =
    [.name "filters", .any, .name "nested", .any, .name "nested"] := by decide

/-- Filters that were read from items which keep to the rules for filters speak of listed fields. -/
theorem filters_fit {set : RuleSet} {members : Members} (none : set.errors answer (.object members) = .ok [])
    {fields : List String} (inside : ∀ entry ∈ filterRulesFrom (textsOf fields) 1 "filters", entry ∈ set)
    {filters : List Filter} (read : member members "filters" [] Filter.readAll = done filters) :
    ∀ filter ∈ filters, filter.Fits fields := by
  simp only [filterRules_eq, leafRules, String.reduceAppend, List.cons_append, List.nil_append, List.tail_cons,
    List.forall_mem_cons] at inside
  obtain ⟨-, whole, field, operator, value, -, nested, innerWhole, innerField, innerOperator, innerValue, -, innerNested,
    -⟩ := inside
  rcases member_list_eq_done read with ⟨items, found, pointwise⟩ | ⟨-, rfl⟩
  · intro filter member
    obtain ⟨_, present, readItem⟩ := forall₂_mem_right pointwise member
    obtain ⟨item, rfl, -⟩ := Filter.read_eq_done readItem
    obtain ⟨outer, ofItem⟩ := placeErrors_of_item none whole names_ofItem found present
    obtain ⟨_, ofField⟩ := placeErrors_of_key none field names_ofField found present
    obtain ⟨_, ofOperator⟩ := placeErrors_of_key none operator names_ofOperator found present
    obtain ⟨_, ofValue⟩ := placeErrors_of_key none value names_ofValue found present
    have ofItem := ofItem ⟨outer, Option.none, some (.object item)⟩ (List.mem_singleton.2 rfl)
    obtain ⟨_, ofNested⟩ := placeErrors_of_key none nested names_ofNested found present
    rcases group_of_read readItem with ⟨absent | isNull, alone⟩ | ⟨innerItems, group, foundInner, grouped, each⟩
    · exact fits_of_filterItem (filterItem_of_places ofItem ofField ofOperator ofValue)
        (by simp [absent, Json.isFilled]) readItem alone
    · rw [isNull] at ofNested
      obtain ⟨_, isList⟩ := isList_of_met rfl (constraintErrors_of_present ofNested rfl (by simp))
      cases isList
    · refine .group grouped fun inner innerMember => ?_
      obtain ⟨_, innerPresent, readInner⟩ := forall₂_mem_right each innerMember
      obtain ⟨own, rfl, -⟩ := Filter.read_eq_done readInner
      obtain ⟨middle, ofInner⟩ :=
        placeErrors_of_innerItem none innerWhole names_ofInnerItem found present foundInner innerPresent
      obtain ⟨_, ofInnerField⟩ :=
        placeErrors_of_innerKey none innerField names_ofInnerField found present foundInner innerPresent
      obtain ⟨_, ofInnerOperator⟩ :=
        placeErrors_of_innerKey none innerOperator names_ofInnerOperator found present foundInner innerPresent
      obtain ⟨_, ofInnerValue⟩ :=
        placeErrors_of_innerKey none innerValue names_ofInnerValue found present foundInner innerPresent
      obtain ⟨_, ofInnerNested⟩ :=
        placeErrors_of_innerKey none innerNested names_ofInnerNested found present foundInner innerPresent
      have absent : Members.get? own "nested" = Option.none :=
        absent_of_prohibited (constraintErrors_of_needed ofInnerNested (by simp) List.mem_cons_self)
      have ofInner := ofInner ⟨middle, Option.none, some (.object own)⟩ (List.mem_singleton.2 rfl)
      refine fits_of_filterItem (filterItem_of_places ofInner ofInnerField ofInnerOperator ofInnerValue)
        (by simp [absent, Json.isFilled]) readInner ?_
      rcases group_of_read readInner with ⟨-, alone⟩ | ⟨_, _, foundGroup, -, -⟩
      · exact alone
      · rw [absent] at foundGroup
        cases foundGroup
  · simp

/-! ## The other parts -/

/-- A text under a key of an item has to be one of the listed names. -/
theorem mem_of_key {set : RuleSet} {members : Members} (none : set.errors answer (.object members) = .ok [])
    {part pattern key : String} {constraints : List Constraint} (rule : (pattern, constraints) ∈ set)
    (names : (Path.segments pattern).map Segment.ofText = [.name part, .any, .name key]) (listed : List String)
    (oneOf : .oneOf (textsOf listed) ∈ constraints) {items : List Json} (found : members.get? part = some (.list items))
    {item : Members} (member : .object item ∈ items) {text : String} (present : item.get? key = some (.text text)) :
    text ∈ listed := by
  obtain ⟨_, kept⟩ := placeErrors_of_key none rule names found member
  rw [present] at kept
  exact mem_of_placeErrors kept oneOf

theorem sorts_fit {set : RuleSet} {members : Members} (none : set.errors answer (.object members) = .ok [])
    {resource : Resource} (inside : ∀ entry ∈ sortRules resource "sorts", entry ∈ set) {sorts : List SortKey}
    (read : member members "sorts" [] (list SortKey.read) = done sorts) :
    ∀ sort ∈ sorts, sort.field ∈ resource.fields := by
  simp only [sortRules, String.reduceAppend, List.forall_mem_cons] at inside
  obtain ⟨-, -, field, -⟩ := inside
  rcases member_list_eq_done read with ⟨items, found, pointwise⟩ | ⟨-, rfl⟩
  · intro sort member
    obtain ⟨_, present, readItem⟩ := forall₂_mem_right pointwise member
    obtain ⟨item, rfl, parts⟩ := object_eq_done.1 readItem
    simp only [seq_eq_done, map_eq_done, required_eq_done, text_eq_done] at parts
    obtain ⟨_, ⟨name, ⟨_, named, rfl⟩, rfl⟩, direction, -, rfl⟩ := parts
    exact mem_of_key none field (by decide) _ (by simp) found present named
  · simp

theorem selects_fit {set : RuleSet} {members : Members} (none : set.errors answer (.object members) = .ok [])
    {resource : Resource} (inside : ∀ entry ∈ selectRules resource "selects", entry ∈ set) {selects : List String}
    (read : member members "selects" [] (list Specification.readSelect) = done selects) :
    ∀ name ∈ selects, name ∈ resource.fields := by
  simp only [selectRules, String.reduceAppend, List.forall_mem_cons] at inside
  obtain ⟨-, -, field, -⟩ := inside
  rcases member_list_eq_done read with ⟨items, found, pointwise⟩ | ⟨-, rfl⟩
  · intro name member
    obtain ⟨_, present, readItem⟩ := forall₂_mem_right pointwise member
    obtain ⟨item, rfl, parts⟩ := object_eq_done.1 readItem
    simp only [required_eq_done, text_eq_done] at parts
    obtain ⟨_, named, rfl⟩ := parts
    exact mem_of_key none field (by decide) _ (by simp) found present named
  · simp

theorem scopes_fit {set : RuleSet} {members : Members} (none : set.errors answer (.object members) = .ok [])
    {resource : Resource} (inside : ∀ entry ∈ scopeRules resource "scopes", entry ∈ set) {scopes : List ScopeCall}
    (read : member members "scopes" [] (list ScopeCall.read) = done scopes) :
    ∀ call ∈ scopes, (resource.scope? call.name).isSome := by
  simp only [scopeRules, String.reduceAppend, List.forall_mem_cons] at inside
  obtain ⟨-, -, named, -⟩ := inside
  rcases member_list_eq_done read with ⟨items, found, pointwise⟩ | ⟨-, rfl⟩
  · intro call member
    obtain ⟨_, present, readItem⟩ := forall₂_mem_right pointwise member
    obtain ⟨item, rfl, parts⟩ := object_eq_done.1 readItem
    simp only [seq_eq_done, map_eq_done, required_eq_done, text_eq_done] at parts
    obtain ⟨_, ⟨name, ⟨_, given, rfl⟩, rfl⟩, parameters, -, rfl⟩ := parts
    have listed := mem_of_key none named (by decide) (resource.scopes.map (·.name)) (by simp) found present given
    obtain ⟨scope, declared, same⟩ := List.mem_map.1 listed
    rw [Resource.scope?, List.find?_isSome]
    exact ⟨scope, declared, by simpa using same⟩
  · simp

/-- The part of an item to which a constraint of the graph gives no message. -/
theorem answer_of_item {set : RuleSet} {members : Members} (none : set.errors answer (.object members) = .ok [])
    {part pattern : String} {constraints : List Constraint} (rule : (pattern, constraints) ∈ set)
    (names : (Path.segments pattern).map Segment.ofText = [.name part, .any]) {question : GraphRule}
    (asked : .graph question ∈ constraints) {items : List Json} (found : members.get? part = some (.list items))
    {item : Json} (member : item ∈ items) : ∃ path, answer question item path = .ok [] := by
  obtain ⟨inner, kept⟩ := placeErrors_of_item none rule names found member
  have here := kept ⟨inner, Option.none, some item⟩ (List.mem_singleton.2 rfl)
  exact ⟨_, answer_of_met rfl (constraintErrors_of_present here rfl asked)⟩

/-- Questions about the resource behind an aggregate. -/
def IsOfAggregates (question : GraphRule) : Prop :=
  ∃ resource, question = .aggregateField resource ∨ question = .aggregateFilterable resource

private theorem field_of_aggregate {graph : Graph} {resource target : Resource} {relation : Relation} {item : Members}
    {path measureText : String} {measure : Measure} {name : Option String} {place : String} {trail : List Step}
    (none : answerAggregates graph (.aggregateField resource) (.object item) place = .ok [])
    (rule : placeErrors answer [.requiredIf "type" (textsOf (Measure.ofField.map (·.name))),
      .prohibitedIf "type" (textsOf ["count", "exists"]), .isString] ⟨trail, some item, item.get? "field"⟩ = .ok [])
    (pathGiven : item.get? "relation" = some (.text path)) (typeGiven : item.get? "type" = some (.text measureText))
    (measured : Measure.ofName? measureText = some measure)
    (nameRead : Reading.member item "field" Option.none (Reading.optional text) = done name)
    (leads : graph.resolve? resource (.text path) = .ok (some (relation, target))) (needed : measure ∈ Measure.ofField) :
    ∃ field ∈ target.fields, name = some field := by
  have sameName : measure.name = measureText := by simpa using List.find?_some measured
  have listed : measureText ∈ Measure.ofField.map (·.name) := List.mem_map.2 ⟨measure, needed, sameName⟩
  have isIn : (Json.text measureText).isIn (textsOf (Measure.ofField.map (·.name))) :=
    List.any_eq_true.2 ⟨.text measureText, List.mem_map_of_mem listed, by simp [Json.same, Json.sameScalar]⟩
  have filled := isFilled_of_requiredIf (constraintErrors_of_needed rule (by simp) List.mem_cons_self) typeGiven isIn
  cases present : item.get? "field" with
  | none => simp [present, Json.isFilled] at filled
  | some value =>
    rw [present] at rule
    obtain ⟨field, rfl⟩ := isText_of_met rfl (constraintErrors_of_present rule rfl (by simp))
    have given : name = some field := by
      rcases member_eq_done.1 nameRead with ⟨value, found, read⟩ | ⟨absent, -⟩
      · rw [present] at found
        cases found
        rcases optional_eq_done read with ⟨isNull, -⟩ | ⟨text, textRead, some⟩
        · cases isNull
        · rw [some, ← Json.text.inj (text_eq_done.1 textRead)]
      · rw [present] at absent
        cases absent
    refine ⟨field, ?_, given⟩
    have relationGiven : (Json.object item).get? "relation" = some (.text path) := pathGiven
    have typeIs : (Json.object item).get? "type" = some (.text measureText) := typeGiven
    have fieldIs : (Json.object item).get? "field" = some (.text field) := present
    by_contra unexposed
    simp [answerAggregates, typeIs, relationGiven, fieldIs, leads, Json.isName, listed, Json.text?, unexposed] at none

private theorem names_ofAggregateField :
    (Path.segments "aggregates.*.field").map Segment.ofText = [.name "aggregates", .any, .name "field"] := by decide

private theorem filters_of_aggregate {graph : Graph} {resource target : Resource} {relation : Relation} {item : Members}
    {path : String} {filters : List Filter} {place : String}
    (none : answerAggregates graph (.aggregateFilterable resource) (.object item) place = .ok [])
    (pathGiven : item.get? "relation" = some (.text path))
    (filtersRead : Reading.member item "filters" [] Filter.readAll = done filters)
    (leads : graph.resolve? resource (.text path) = .ok (some (relation, target))) :
    graph.FiltersFit target filters := by
  have relationIs : (Json.object item).get? "relation" = some (.text path) := pathGiven
  cases given : item.get? "filters" with
  | none =>
    rcases member_eq_done.1 filtersRead with ⟨value, found, -⟩ | ⟨-, rfl⟩
    · rw [given] at found
      cases found
    · exact fun _ member => absurd member List.not_mem_nil
  | some value =>
    have filtersGiven : (Json.object item).get? "filters" = some value := given
    simp only [answerAggregates, filtersGiven, relationIs, Option.isNone_some, Option.getD_some, Bool.false_eq_true,
      if_false, leads, bind_eq_ok, Except.ok.injEq, exists_eq_left'] at none
    obtain ⟨set, filtered, clear⟩ := none
    simp only [filterRules, bind_eq_ok, pure_eq_ok] at filtered
    obtain ⟨fields, listed, rfl⟩ := filtered
    have fit := filters_fit (errors_of_errorsAt clear) (fun _ inside => inside) filtersRead
    exact fun filter member => ⟨fields, listed, fit filter member⟩

theorem aggregates_fit {graph : Graph} {set : RuleSet} {members : Members}
    (none : set.errors answer (.object members) = .ok [])
    (answers : ∀ question, IsOfAggregates question → answer question = answerAggregates graph question)
    {resource : Resource} {rules : RuleSet} (given : aggregateRules graph resource "aggregates" = .ok rules)
    (inside : ∀ entry ∈ rules, entry ∈ set) {aggregates : List Aggregate}
    (read : member members "aggregates" [] (list Aggregate.read) = done aggregates) :
    ∀ item ∈ aggregates, item.Fits graph resource := by
  simp only [aggregateRules, bind_eq_ok, pure_eq_ok] at given
  obtain ⟨paths, computable, rfl⟩ := given
  simp only [String.reduceAppend, List.forall_mem_cons] at inside
  obtain ⟨-, whole, relation, type, field, -⟩ := inside
  rcases member_list_eq_done read with ⟨items, found, pointwise⟩ | ⟨-, rfl⟩
  · intro aggregate member
    obtain ⟨_, present, readItem⟩ := forall₂_mem_right pointwise member
    obtain ⟨item, rfl, parts⟩ := object_eq_done.1 readItem
    simp only [seq_eq_done, map_eq_done, required_eq_done, text_eq_done, choice_eq_done] at parts
    obtain ⟨_, ⟨_, ⟨_, ⟨path, ⟨_, pathGiven, rfl⟩, rfl⟩, measure, ⟨_, typeGiven, measureText, rfl, measured⟩, rfl⟩,
      name, nameRead, rfl⟩, filters, filtersRead, rfl⟩ := parts
    have listed := mem_of_key none relation (by decide) paths (by simp) found present pathGiven
    refine ⟨⟨paths, computable, listed⟩, fun relation target leads => ⟨fun needed => ?_, ?_⟩⟩
    · obtain ⟨_, ofField⟩ := answer_of_item none whole (by decide) (List.mem_cons_of_mem _ List.mem_cons_self) found present
      rw [answers _ ⟨resource, .inl rfl⟩] at ofField
      obtain ⟨_, rule⟩ := placeErrors_of_key none field names_ofAggregateField found present
      exact field_of_aggregate ofField rule pathGiven typeGiven measured nameRead leads needed
    · obtain ⟨_, ofFilters⟩ := answer_of_item none whole (by decide)
        (List.mem_cons_of_mem _ (List.mem_cons_of_mem _ List.mem_cons_self)) found present
      rw [answers _ ⟨resource, .inr rfl⟩] at ofFilters
      exact filters_of_aggregate ofFilters pathGiven filtersRead leads
  · simp

end Search

end ResourceApi
