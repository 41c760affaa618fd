import ResourceApi.Proofs.Resource.Listed
import ResourceApi.Proofs.Search.Grammar

/-!
The grammar of aggregates. The rules for aggregates accept a value if and only if it is a list of measures over the records
behind relations that have one target each, by the fields and the filters of the resource at the end of the path.
-/

namespace ResourceApi

open Outcome RuleSet

/-- A measure over the records of a resource: of an exposed field if it is one of a field, and of nothing else otherwise, over
those records that the filters leave. -/
structure Json.Measures (graph : Graph) (target : Resource) (item : Json) : Prop where
  type : ∃ measure : Measure, item.get? "type" = some (.text measure.name) ∧
    if measure ∈ Measure.ofField then ∃ field ∈ target.fields, item.get? "field" = some (.text field)
    else item.get? "field" = none
  filters : ∀ value, item.get? "filters" = some value → ∃ items, value = .list items ∧ ∀ filter ∈ items,
    filter.IsLeaf (graph.Searches target) ∨ filter.IsGroup (Json.IsLeaf (graph.Searches target))

/-- An aggregate for a resource: a measure over the records at the end of a path of two relations at most. -/
structure Json.IsAggregate (graph : Graph) (resource : Resource) (item : Json) : Prop where
  object : item.isObject
  behind : ∃ names owner relation target, names.length ≤ 2 ∧ graph.Leads resource names owner relation ∧
    relation.isNestable ∧ graph.target relation = .ok target ∧
      item.get? "relation" = some (.text (Path.ofNames names)) ∧ item.Measures graph target

/-- No relation and no exposed field of the graph has a blank name. -/
def Graph.Worded (graph : Graph) : Prop :=
  ∀ resource ∈ graph.resources, (∀ relation ∈ resource.relations, ¬Text.isBlank relation.name) ∧
    ∀ field ∈ resource.fields, ¬Text.isBlank field

instance (graph : Graph) : Decidable graph.Worded := inferInstanceAs (Decidable (∀ resource ∈ graph.resources, _ ∧ _))

/-- A path that leads somewhere is no blank text. -/
theorem Graph.Leads.not_isBlank {graph : Graph} {resource owner : Resource} {relation : Relation} {names : List String}
    (leads : graph.Leads resource names owner relation) (worded : graph.Worded) (member : resource ∈ graph.resources) :
    ¬Text.isBlank (Path.ofNames names) := by
  cases leads with
  | one declared =>
    rw [Path.ofNames_singleton]
    exact (worded resource member).1 _ declared
  | more _ _ _ further =>
    rw [← List.singleton_append, Path.ofNames_append (List.cons_ne_nil _ _) further.ne_nil]
    exact not_isBlank_of_point _ _

namespace Search

/-! ## The members of an aggregate -/

/-- The members of an aggregate over some paths, with what is asked of them. -/
def aggregateKeys (paths : List String) : List (String × List Constraint) := [
  ("relation", [.required, .isString, .oneOf (textsOf paths)]),
  ("type", [.required, .isString, .oneOf (textsOf (Measure.all.map (·.name)))]),
  ("field", [.requiredIf "type" (textsOf (Measure.ofField.map (·.name))),
    .prohibitedIf "type" (textsOf ["count", "exists"]), .isString]),
  ("filters", [.sometimes, .isList])]

/-- Rules for aggregates over some paths. -/
def aggregateEntries (resource : Resource) (paths : List String) (path : String) : RuleSet :=
  ofItems path [.sometimes, .isList] [.isObject, .graph (.aggregateField resource), .graph (.aggregateFilterable resource)]
    (aggregateKeys paths)

/-- What is asked of the measure of an aggregate, whatever the resource behind it. -/
structure MeasureMet (members : Members) : Prop where
  type : ∃ measure : Measure, members.get? "type" = some (.text measure.name) ∧
    if measure ∈ Measure.ofField then ∃ field, members.get? "field" = some (.text field) ∧ ¬Text.isBlank field
    else members.get? "field" = none
  filters : ∀ value, members.get? "filters" = some value → value.isList

variable {ask : GraphRule.Answer} {paths : List String} {members : Members} {trail : List Step}

private theorem name_mem_ofField {measure : Measure} :
    measure.name ∈ Measure.ofField.map (·.name) ↔ measure ∈ Measure.ofField := by
  cases measure <;> decide

private theorem name_mem_fieldless {measure : Measure} :
    measure.name ∈ ["count", "exists"] ↔ measure ∉ Measure.ofField := by
  cases measure <;> decide

/-- A field is asked for by the measures of one, and by no other. -/
private theorem placeErrors_field {measure : Measure} (type : members.get? "type" = some (.text measure.name)) :
    placeErrors ask [.requiredIf "type" (textsOf (Measure.ofField.map (·.name))),
      .prohibitedIf "type" (textsOf ["count", "exists"]), .isString] ⟨trail, some members, members.get? "field"⟩ = .ok [] ↔
      if measure ∈ Measure.ofField then ∃ field, members.get? "field" = some (.text field) ∧ ¬Text.isBlank field
      else members.get? "field" = none := by
  have sibling : Attribute.sibling? ⟨trail, some members, members.get? "field"⟩ "type" = some (.text measure.name) := type
  rw [placeErrors_eq_nil, or_iff_right (by simp), List.forall_mem_cons, List.forall_mem_cons, List.forall_mem_singleton]
  simp only [Constraint.Met, sibling, Option.some.injEq, forall_eq', textsOf, Json.text_isIn, name_mem_ofField,
    name_mem_fieldless]
  split
  · next ofField =>
    simp only [ofField, forall_const, not_true_eq_false, IsEmpty.forall_iff, true_and]
    constructor
    · rintro ⟨filled, text⟩
      cases given : members.get? "field" with
      | none => simp [given, Json.isFilled] at filled
      | some value =>
        cases value with
        | text field => exact ⟨field, rfl, by simpa [given, Json.isFilled] using filled⟩
        | _ => exact absurd (text _ given) (by simp [Json.isText])
    · rintro ⟨field, given, worded⟩
      simp [given, Json.isFilled, worded, Json.isText]
  · next fieldless =>
    simp only [fieldless, IsEmpty.forall_iff, not_false_eq_true, forall_const, true_and]
    refine ⟨fun both => both.1, fun absent => ⟨absent, fun value given => ?_⟩⟩
    rw [absent] at given
    cases given

theorem aggregateKeys_iff :
    (∀ entry ∈ aggregateKeys paths, placeErrors ask entry.2
        ⟨trail ++ [.member entry.1], some members, members.get? entry.1⟩ = .ok []) ↔
      (∃ path ∈ paths, members.get? "relation" = some (.text path) ∧ ¬Text.isBlank path) ∧ MeasureMet members := by
  have measures : (∃ name ∈ Measure.all.map (·.name), members.get? "type" = some (.text name) ∧ ¬Text.isBlank name) ↔
      ∃ measure : Measure, members.get? "type" = some (.text measure.name) := by
    constructor
    · rintro ⟨_, listed, given, -⟩
      obtain ⟨measure, -, rfl⟩ := List.mem_map.1 listed
      exact ⟨measure, given⟩
    · rintro ⟨measure, given⟩
      exact ⟨_, List.mem_map_of_mem (by cases measure <;> decide), given, by cases measure <;> decide⟩
  simp only [aggregateKeys, textsOf, List.forall_mem_cons, placeErrors_required_text, placeErrors_optional_list, measures]
  constructor
  · rintro ⟨relation, ⟨measure, type⟩, field, filters, -⟩
    exact ⟨relation, ⟨measure, type, (placeErrors_field type).1 field⟩, filters⟩
  · rintro ⟨relation, ⟨measure, type, field⟩, filters⟩
    exact ⟨relation, ⟨measure, type⟩, (placeErrors_field type).2 field, filters, List.forall_mem_nil _⟩

/-! ## What the resource behind an aggregate says -/

section Behind

variable {graph : Graph} {resource target : Resource} {relation : Relation} {path place : String}
  (given : members.get? "relation" = some (.text path))
  (resolved : graph.resolve? resource (.text path) = .ok (some (relation, target)))
include given resolved

/-- The field of a measure has to be exposed by the resource behind the path. -/
theorem answer_aggregateField {measure : Measure} (type : members.get? "type" = some (.text measure.name)) :
    answerAggregates graph (.aggregateField resource) (.object members) place = .ok [] ↔
      (measure ∈ Measure.ofField → ∀ field, members.get? "field" = some (.text field) → field ∈ target.fields) := by
  have relationGiven : (Json.object members).get? "relation" = some (.text path) := given
  have typeGiven : (Json.object members).get? "type" = some (.text measure.name) := type
  have fieldGiven : (Json.object members).get? "field" = members.get? "field" := rfl
  have named : Json.isName (.text measure.name) (Measure.ofField.map (·.name)) = decide (measure ∈ Measure.ofField) := by
    cases measure <;> decide
  simp only [answerAggregates, relationGiven, typeGiven, fieldGiven, Option.getD_some, named, resolved, ok_bind]
  by_cases ofField : measure ∈ Measure.ofField
  · simp only [ofField, decide_true, Bool.not_true, Bool.false_eq_true, if_false, forall_const]
    cases members.get? "field" with
    | none => simp
    | some value =>
      cases value with
      | text field => by_cases exposed : field ∈ target.fields <;> simp [Json.text?, exposed]
      | _ => simp [Json.text?]
  · simp [ofField]

/-- The filters of an aggregate have to be filters of the resource behind the path. -/
theorem answer_aggregateFilterable {fields : List String} (worded : ∀ name ∈ fields, ¬Text.isBlank name)
    (rules : filterRules graph target "filters" 1 = .ok (filterEntries fields 1 "filters")) :
    answerAggregates graph (.aggregateFilterable resource) (.object members) place = .ok [] ↔
      ∀ value, members.get? "filters" = some value →
        ∃ items, value = .list items ∧ ∀ item ∈ items, item.IsFilter (· ∈ fields) 1 := by
  have relationGiven : (Json.object members).get? "relation" = some (.text path) := given
  have filtersGiven : (Json.object members).get? "filters" = members.get? "filters" := rfl
  have reached : Attribute.expand (.object members) "filters" =
      [⟨[.member "filters"], some members, members.get? "filters"⟩] := by
    have names : (Path.segments "filters").map Segment.ofText = [.name "filters"] := by decide
    rw [Attribute.expand, names, Attribute.below_last]
    rfl
  have inside := errors_filterEntries worded answerNone (.object members) 1 (by decide : "filters" ≠ "")
  rw [reached, List.forall_mem_singleton] at inside
  have anyPlace (rules : RuleSet) : rules.errorsAt answerNone (.object members) place = .ok [] ↔
      rules.errors answerNone (.object members) = .ok [] := errorsAt_eq_nil
  rw [← inside, ← anyPlace]
  simp only [answerAggregates, relationGiven, filtersGiven, Option.getD_some, resolved, rules, ok_bind]
  cases absent : members.get? "filters" with
  | none => simpa [errorsAt_eq_nil, absent] using inside
  | some value => simp

/-- What is asked of a measure, here and by the resource behind the path, is that it is one of that resource. -/
theorem measures_iff (exposed : ∀ field ∈ target.fields, ¬Text.isBlank field) {fields : List String}
    (listed : graph.filterFields target = .ok fields)
    (rules : filterRules graph target "filters" 1 = .ok (filterEntries fields 1 "filters")) :
    (MeasureMet members ∧ answerAggregates graph (.aggregateField resource) (.object members) place = .ok [] ∧
        answerAggregates graph (.aggregateFilterable resource) (.object members) place = .ok []) ↔
      (Json.object members).Measures graph target := by
  have searched : (· ∈ fields) = graph.Searches target := funext fun name => propext (Graph.mem_filterFields listed name)
  have worded : ∀ name ∈ fields, ¬Text.isBlank name := fun name among =>
    Graph.not_isBlank_of_searches exposed ((Graph.mem_filterFields listed name).1 among)
  rw [answer_aggregateFilterable given resolved worded rules, searched]
  constructor
  · rintro ⟨⟨⟨measure, type, field⟩, -⟩, ofField, filters⟩
    refine ⟨⟨measure, type, ?_⟩, filters⟩
    rw [answer_aggregateField given resolved type] at ofField
    split
    · next needed =>
      rw [if_pos needed] at field
      obtain ⟨name, present, -⟩ := field
      exact ⟨name, ofField needed name present, present⟩
    · next fieldless =>
      rwa [if_neg fieldless] at field
  · rintro ⟨⟨measure, type, field⟩, filters⟩
    have field : if measure ∈ Measure.ofField then ∃ name ∈ target.fields, members.get? "field" = some (.text name)
        else members.get? "field" = none := field
    rw [answer_aggregateField given resolved type]
    refine ⟨⟨⟨measure, type, ?_⟩, fun value present => ?_⟩, fun needed name present => ?_, filters⟩
    · split
      · next needed =>
        rw [if_pos needed] at field
        obtain ⟨name, inside, present⟩ := field
        exact ⟨name, present, exposed name inside⟩
      · next fieldless =>
        rwa [if_neg fieldless] at field
    · obtain ⟨items, rfl, -⟩ := filters value present
      rfl
    · rw [if_pos needed, present] at field
      obtain ⟨_, inside, same⟩ := field
      cases same
      exact inside

end Behind

/-! ## Aggregates -/

/-- The rules for aggregates ask the same of every item. -/
theorem aggregateRules_eq_ok {graph : Graph} {resource : Resource} (computed : graph.aggregatePaths resource = .ok paths)
    (path : String) : aggregateRules graph resource path = .ok (aggregateEntries resource paths path) := by
  rw [aggregateRules, computed, ok_bind]
  simp [aggregateEntries, ofItems, aggregateKeys, String.append_assoc, pure, Except.pure]

private theorem plain_aggregateKeys : ∀ entry ∈ aggregateKeys paths, Path.IsPlain entry.1 ∧ entry.1 ≠ "*" := by
  simp only [aggregateKeys, List.forall_mem_cons]
  exact ⟨by decide, by decide, by decide, by decide, List.forall_mem_nil _⟩

/-- The rules for aggregates look at the document, or ask about its aggregates. -/
private theorem asked_aggregateEntries {resource : Resource} {path : String} :
    ∀ entry ∈ aggregateEntries resource paths path, ∀ constraint ∈ entry.2, constraint.IsLocal ∨
      constraint = .graph (.aggregateField resource) ∨ constraint = .graph (.aggregateFilterable resource) := by
  simp only [aggregateEntries, ofItems, aggregateKeys, List.map_cons, List.map_nil, List.forall_mem_cons]
  simp [Constraint.IsLocal]

section Accepts

variable {schema : Schema} {declarations : List ResourceDeclaration} {graph : Graph} {resource : Resource}
  (built : Graph.build schema declarations = .ok graph)
  (led : ∀ declaration ∈ declarations, ∀ relation ∈ declaration.relations, relation.IsLed)
  (plain : graph.PlainRelations) (worded : graph.Worded) (member : resource ∈ graph.resources)
include built led plain worded member

/-- An item without messages, here and by the resource behind it, is an aggregate. -/
theorem isAggregate_iff {paths : List String} (computed : graph.aggregatePaths resource = .ok paths)
    (field : ask (.aggregateField resource) = answerAggregates graph (.aggregateField resource))
    (filters : ask (.aggregateFilterable resource) = answerAggregates graph (.aggregateFilterable resource)) {item : Json} :
    (placeErrors ask [.isObject, .graph (.aggregateField resource), .graph (.aggregateFilterable resource)]
        ⟨trail, none, some item⟩ = .ok [] ∧
      ∀ members, item = .object members → ∀ entry ∈ aggregateKeys paths, placeErrors ask entry.2
        ⟨trail ++ [.member entry.1], some members, Members.get? members entry.1⟩ = .ok []) ↔
      item.IsAggregate graph resource := by
  have sound := Graph.sound_of_build built
  have ledBuilt := Graph.led_of_build built led
  have behind {names : List String} {owner : Resource} {relation : Relation} (short : names.length ≤ 2)
      (leads : graph.Leads resource names owner relation) {target : Resource} (leadsTo : graph.target relation = .ok target)
      {members : Members} (given : members.get? "relation" = some (.text (Path.ofNames names))) {place : String} :
      (MeasureMet members ∧ answerAggregates graph (.aggregateField resource) (.object members) place = .ok [] ∧
        answerAggregates graph (.aggregateFilterable resource) (.object members) place = .ok []) ↔
        (Json.object members).Measures graph target := by
    obtain ⟨fields, listed, rules⟩ := filterRules_eq_ok built led (Graph.mem_of_target leadsTo)
      (by decide : "filters" ≠ "")
    exact measures_iff given (Graph.resolve?_of_leads sound ledBuilt member plain leads short leadsTo)
      (worded target (Graph.mem_of_target leadsTo)).2 listed rules
  rw [placeErrors_eq_nil_of_present rfl, List.forall_mem_cons, List.forall_mem_cons, List.forall_mem_singleton]
  simp only [Constraint.Met, Option.some.injEq, forall_eq', aggregateKeys_iff, field, filters]
  constructor
  · rintro ⟨⟨object, ofField, ofFilters⟩, keys⟩
    obtain ⟨members, rfl⟩ := Json.isObject_iff.1 object
    obtain ⟨⟨path, listed, given, -⟩, met⟩ := keys members rfl
    obtain ⟨names, owner, relation, short, leads, nestable, rfl⟩ :=
      (Graph.mem_aggregatePaths sound ledBuilt member plain computed).1 listed
    obtain ⟨memberOwner, declared⟩ := leads.mem_owner member
    obtain ⟨target, leadsTo⟩ := ledBuilt owner memberOwner relation declared nestable
    exact ⟨object, names, owner, relation, target, short, leads, nestable, leadsTo, given,
      (behind short leads leadsTo given).1 ⟨met, ofField, ofFilters⟩⟩
  · rintro ⟨object, names, owner, relation, target, short, leads, nestable, leadsTo, given, measures⟩
    obtain ⟨members, rfl⟩ := Json.isObject_iff.1 object
    have listed := (Graph.mem_aggregatePaths sound ledBuilt member plain computed).2
      ⟨names, owner, relation, short, leads, nestable, rfl⟩
    obtain ⟨met, ofField, ofFilters⟩ := (behind short leads leadsTo given).2 measures
    refine ⟨⟨object, ofField, ofFilters⟩, ?_⟩
    rintro _ ⟨⟩
    exact ⟨⟨_, listed, given, leads.not_isBlank worded member⟩, met⟩

omit worded in
/-- The questions about aggregates are answered if every relation has a target. -/
theorem answerAggregates_total (targeted : ∀ owner ∈ graph.resources, ∀ relation ∈ owner.relations, relation.targets ≠ [])
    (value : Json) (place : String) :
    (∃ messages, answerAggregates graph (.aggregateField resource) value place = .ok messages) ∧
      ∃ messages, answerAggregates graph (.aggregateFilterable resource) value place = .ok messages := by
  have sound := Graph.sound_of_build built
  obtain ⟨found, resolved, reaches⟩ := Graph.resolve?_total sound (Graph.led_of_build built led) member plain targeted
    ((value.get? "relation").getD .null)
  simp only [answerAggregates, resolved, ok_bind]
  constructor
  · split
    · exact ⟨_, rfl⟩
    · split
      · split <;> exact ⟨_, rfl⟩
      · exact ⟨_, rfl⟩
  · split
    · exact ⟨_, rfl⟩
    · split
      · exact ⟨_, rfl⟩
      · next relation target =>
        have inside := Graph.mem_of_target (reaches relation target rfl)
        obtain ⟨fields, -, rules⟩ := filterRules_eq_ok built led inside (by decide : "filters" ≠ "")
        obtain ⟨messages, checked⟩ := errors_total (isLocal_filterEntries 1 "filters") answerNone value
        rw [rules, ok_bind, errorsAt, checked]
        exact ⟨_, rfl⟩

/-- The rules for the aggregates of a resource, wherever they stand in a document and whether they belong to a search or to
an include, have no message about it if and only if every value there is a list of aggregates for the resource; and they
have their messages about any document if every relation has a target. Relations are declared with their targets, as
`ResourceDeclaration.isLed_of_readAll` says of all that are read. -/
theorem accepts_iff_aggregates {path : String} (nonempty : path ≠ "") :
    ∃ rules, aggregateRules graph resource path = .ok rules ∧
      ∀ ask ∈ [answer graph, answerAggregates graph], ∀ data,
        (rules.errors ask data = .ok [] ↔ ∀ place ∈ Attribute.expand data path, ∀ value, place.value = some value →
          ∃ items, value = .list items ∧ ∀ item ∈ items, item.IsAggregate graph resource) ∧
        ((∀ owner ∈ graph.resources, ∀ relation ∈ owner.relations, relation.targets ≠ []) →
          ∃ messages, rules.errors ask data = .ok messages) := by
  have computed := Graph.aggregatePaths_eq (Graph.sound_of_build built) (Graph.led_of_build built led) member plain
  refine ⟨_, aggregateRules_eq_ok computed path, fun ask asks data => ?_⟩
  have same : ask (.aggregateField resource) = answerAggregates graph (.aggregateField resource) ∧
      ask (.aggregateFilterable resource) = answerAggregates graph (.aggregateFilterable resource) := by
    simp only [List.mem_cons, List.not_mem_nil, or_false] at asks
    rcases asks with rfl | rfl <;> exact ⟨rfl, rfl⟩
  constructor
  · exact errors_ofList_eq_nil nonempty plain_aggregateKeys fun trail item =>
      isAggregate_iff built led plain worded member computed same.1 same.2
  · intro targeted
    refine errors_answered (fun entry rule constraint listed place => ?_) data
    obtain ⟨trail, parent, value⟩ := place
    rcases asked_aggregateEntries entry rule constraint listed with isLocal | rfl | rfl
    · exact constraintErrors_total isLocal ask _
    · cases value with
      | none => exact ⟨[], rfl⟩
      | some value =>
        simp only [constraintErrors, same.1]
        exact (answerAggregates_total built led plain member targeted value _).1
    · cases value with
      | none => exact ⟨[], rfl⟩
      | some value =>
        simp only [constraintErrors, same.2]
        exact (answerAggregates_total built led plain member targeted value _).2

end Accepts

namespace Notes

open Graph.Notes

/-- Aggregates for notes are measures over the notes above them. -/
theorem accepts_of_notes :
    notes.PlainRelations ∧ notes.Worded ∧ ∃ rules, aggregateRules notes note "aggregates" = .ok rules ∧
      ∀ ask ∈ [answer notes, answerAggregates notes], ∀ data,
        (rules.errors ask data = .ok [] ↔ ∀ place ∈ Attribute.expand data "aggregates", ∀ value,
          place.value = some value → ∃ items, value = .list items ∧ ∀ item ∈ items, item.IsAggregate notes note) ∧
        ((∀ owner ∈ notes.resources, ∀ relation ∈ owner.relations, relation.targets ≠ []) →
          ∃ messages, rules.errors ask data = .ok messages) := by
  have built : Graph.build Graph.Notes.schema [declaration] = .ok notes := rfl
  have led : ∀ declared ∈ [declaration], ∀ relation ∈ declared.relations, relation.IsLed := by
    simp [declaration, RelationDeclaration.IsLed]
  have plain : notes.PlainRelations := by decide
  have worded : notes.Worded := by decide
  exact ⟨plain, worded, accepts_iff_aggregates built led plain worded List.mem_cons_self (by decide)⟩

end Notes

end Search

end ResourceApi
