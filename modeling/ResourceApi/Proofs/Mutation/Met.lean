import ResourceApi.Proofs.Mutation.Rules
import ResourceApi.Proofs.Mutation.Obeyed
import ResourceApi.Proofs.Rule.Met

/-!
What the rules of nodes ask, in full. A node has no messages if and only if its own members are those that its resource
allows and each entry below it is as its relation demands; where the node stands in a document makes no difference.
-/

namespace ResourceApi

open Outcome RuleSet

/-- What the rules of a relation ask of a node that is written through it. -/
structure Relation.ItemMet (relation : Relation) (answer : GraphRule.Answer) (item : Json) : Prop where
  object : item.isObject
  node : answer (.relatedNode relation) item "" = .ok []
  pivot : ∀ value, item.get? "pivot" = some value → relation.kind.linkPlace = .pivot ∧
    ∃ members, value = .object members ∧ ∀ key ∈ Members.keys members, key ∈ relation.pivotFields
  tag : if relation.kind = .morphTo then
      ∃ name ∈ relation.targets, item.get? "resource" = some (.text name) ∧ ¬Text.isBlank name
    else item.get? "resource" = none

/-- What the rules of a relation ask of the entry of it. -/
structure Relation.EntryMet (relation : Relation) (answer : GraphRule.Answer) (entry : Json) : Prop where
  writable : relation.isMutable
  keys : answer (.operationKeys relation) entry "" = .ok []
  operation : ∀ value, entry.get? "operation" = some value →
    ∃ operation ∈ relation.kind.operations, value = .text operation.name
  items : ∃ items, entry.get? "operations" = some (.list items) ∧ items ≠ [] ∧
    (relation.kind.cardinality = .one → items.length ≤ 1) ∧ ∀ item ∈ items, relation.ItemMet answer item

namespace Relation

/-- The constraints on what is to be done. -/
def operationConstraints (relation : Relation) : List Constraint :=
  [.sometimes, .isString, .oneOf (((relation.kind.operations.map (·.name)).mergeSort fun a b => a ≤ b).map .text)]

/-- The constraints on the list of nodes. -/
def listConstraints (relation : Relation) : List Constraint :=
  [.required, .isList] ++ if relation.kind.cardinality = .one then [.atMostItems (.int 1)] else []

/-- The constraints on the join values of a node. -/
def pivotConstraints (relation : Relation) : List Constraint :=
  if relation.kind.linkPlace = .pivot then [.sometimes, .isObject, .pivotFields (relation.pivotFields.map .text)]
  else [.prohibited]

/-- The constraints on the resource that a node names. -/
def tagConstraints (relation : Relation) : List Constraint :=
  if relation.kind = .morphTo then [.required, .isString, .oneOf (relation.targets.map .text)] else [.prohibited]

end Relation

/-- What the rules of a resource ask of a node. -/
structure Resource.NodeMet (resource : Resource) (answer : GraphRule.Answer) (node : Json) : Prop where
  own : answer (.fillable resource) node "" = .ok []
  known : ∀ value, node.get? "relations" = some value →
    value.isObject ∧ answer (.knownRelations resource) value "" = .ok []
  entries : ∀ relation ∈ resource.relations, ∀ value entry, node.get? "relations" = some value →
    value.get? relation.name = some entry → relation.EntryMet answer entry

/-- Answers that are without messages at one path are so at every path. -/
def GraphRule.Answer.IsFree (answer : GraphRule.Answer) : Prop :=
  ∀ rule value path, answer rule value path = .ok [] ↔ answer rule value "" = .ok []

namespace RuleSet

variable {answer : GraphRule.Answer} {path : String} {data : Json}

/-- What a rule asks behind a path, it asks below the places of the path. -/
theorem forall_expand_append (nonempty : path ≠ "") (rest : String) {good : Attribute → Prop} :
    (∀ place ∈ Attribute.expand data (path ++ "." ++ rest), good place) ↔
      ∀ outer ∈ Attribute.expand data path, ∀ value, outer.value = some value →
        ∀ place ∈ Attribute.below outer.steps value ((Path.names rest).map Segment.ofText), good place := by
  simp only [Attribute.mem_expand_append nonempty]
  exact ⟨fun each outer reached value present place inside => each place ⟨outer, reached, value, present, inside⟩,
    fun each place found => by
      obtain ⟨outer, reached, value, present, inside⟩ := found
      exact each outer reached value present place inside⟩

end RuleSet

namespace Attribute

/-- What is reached below all that a value holds. -/
theorem mem_below_any {trail : List Step} {data : Json} {rest : List Segment} {place : Attribute} :
    place ∈ below trail data (.any :: rest) ↔
      ∃ child ∈ data.children, place ∈ below (trail ++ [child.1]) child.2 rest := by
  cases rest with
  | nil => simp [below, eq_comm]
  | cons segment rest => simp [below]

end Attribute

namespace RuleSet

variable {answer : GraphRule.Answer} {place : Attribute}

/-- A place that may be absent, and is an object of certain members if it is not. -/
theorem placeErrors_pivot {names : List String} :
    placeErrors answer [.sometimes, .isObject, .pivotFields (names.map .text)] place = .ok [] ↔
      ∀ value, place.value = some value →
        ∃ members, value = .object members ∧ ∀ key ∈ Members.keys members, key ∈ names := by
  rw [placeErrors_eq_nil, List.forall_mem_cons, List.forall_mem_cons, List.forall_mem_singleton]
  simp only [Constraint.Met, Json.text_isIn]
  constructor
  · rintro (⟨absent, -⟩ | ⟨-, object, inside⟩) value present
    · rw [absent] at present
      cases present
    · obtain ⟨members, rfl⟩ := Json.isObject_iff.1 (object value present)
      exact ⟨members, rfl, inside members present⟩
  · intro kept
    refine .inr ⟨trivial, fun value present => ?_, fun members present => ?_⟩
    · obtain ⟨members, rfl, -⟩ := kept value present
      rfl
    · obtain ⟨_, same, inside⟩ := kept _ present
      cases same
      exact inside

theorem placeErrors_prohibited : placeErrors answer [.prohibited] place = .ok [] ↔ place.value = none := by
  rw [placeErrors_eq_nil, or_iff_right (by simp), List.forall_mem_singleton]
  rfl

theorem placeErrors_pivotConstraints {relation : Relation} :
    placeErrors answer relation.pivotConstraints place = .ok [] ↔
      ∀ value, place.value = some value → relation.kind.linkPlace = .pivot ∧
        ∃ members, value = .object members ∧ ∀ key ∈ Members.keys members, key ∈ relation.pivotFields := by
  unfold Relation.pivotConstraints
  split
  · next joins => simp [placeErrors_pivot, joins]
  · next apart => simp [placeErrors_prohibited, apart, Option.eq_none_iff_forall_ne_some]

theorem placeErrors_tagConstraints {relation : Relation} :
    placeErrors answer relation.tagConstraints place = .ok [] ↔
      if relation.kind = .morphTo then ∃ name ∈ relation.targets, place.value = some (.text name) ∧ ¬Text.isBlank name
      else place.value = none := by
  unfold Relation.tagConstraints
  split
  · exact placeErrors_required_text
  · exact placeErrors_prohibited

/-- A place that has to be a list with something in it, and with one item at most where there may not be more. -/
theorem placeErrors_required_list {single : Prop} [Decidable single] :
    placeErrors answer ([.required, .isList] ++ if single then [.atMostItems (.int 1)] else []) place = .ok [] ↔
      ∃ items, place.value = some (.list items) ∧ items ≠ [] ∧ (single → items.length ≤ 1) := by
  rw [placeErrors_eq_nil, or_iff_right (by split <;> simp)]
  cases present : place.value with
  | none => simp [Constraint.Met, present, Json.isFilled]
  | some value =>
    cases value with
    | list items =>
      by_cases one : single
      · rw [if_pos one]
        have bound : (items.length : Int) ≤ 1 ↔ items.length ≤ 1 := by omega
        simp only [List.cons_append, List.nil_append, List.forall_mem_cons]
        simp [Constraint.Met, present, Json.isFilled, Json.isList, Json.isLess, Json.integer?, one, bound]
      · rw [if_neg one]
        simp [Constraint.Met, present, Json.isFilled, Json.isList, one]
    | _ => simp [Constraint.Met, present, Json.isList]

end RuleSet

namespace Mutation

variable {answer : GraphRule.Answer} {path : String} {data : Json} {relation : Relation}

/-- The places of an entry. -/
theorem mem_expand_entryPlace (plain : Path.IsPlain relation.name) (named : relation.name ≠ "*") {place : Attribute} :
    place ∈ Attribute.expand data (entryPlace path relation) ↔
      ∃ outer ∈ Attribute.expand data path, ∃ value, outer.value = some value ∧
        ∃ entries, value.get? "relations" = some (.object entries) ∧
          place = ⟨outer.steps ++ [.member "relations"] ++ [.member relation.name], some entries,
            Members.get? entries relation.name⟩ := by
  have name : Segment.ofText relation.name = .name relation.name := if_neg named
  have below (trail : List Step) (value : Json) :
      place ∈ Attribute.below trail value [.name "relations", .name relation.name] ↔
        ∃ entries, value.get? "relations" = some (.object entries) ∧
          place = ⟨trail ++ [.member "relations"] ++ [.member relation.name], some entries,
            Members.get? entries relation.name⟩ := by
    cases found : value.get? "relations" with
    | none => simp [Attribute.below, found]
    | some inner =>
      rw [Attribute.below_member found]
      cases inner with
      | object entries => simp [Attribute.below_last]
      | _ => simp [Attribute.below]
  rw [Attribute.expand, segments_entryPlace path plain, List.map_append, List.map_cons, List.map_singleton, name,
    show Segment.ofText "relations" = .name "relations" from rfl, Attribute.below_append]
  simp [below, Attribute.expand]

section Entry

variable (free : answer.IsFree)
include free

/-- A node below an entry has no messages if and only if it is what the relation asks, wherever the node stands. -/
private theorem itemMet_iff {item : Json} (trail : List Step) :
    placeErrors answer [.isObject, .graph (.relatedNode relation)] ⟨trail, none, some item⟩ = .ok [] ∧
      (∀ place ∈ Attribute.below trail item [.name "pivot"],
        placeErrors answer relation.pivotConstraints place = .ok []) ∧
      (∀ place ∈ Attribute.below trail item [.name "resource"],
        placeErrors answer relation.tagConstraints place = .ok []) ↔
      relation.ItemMet answer item := by
  rw [placeErrors_eq_nil_of_present rfl, List.forall_mem_cons, List.forall_mem_singleton]
  have reached (members : Members) (key : String) {good : Attribute → Prop} :
      (∀ place ∈ Attribute.below trail (.object members) [.name key], good place) ↔
        good ⟨trail ++ [.member key], some members, members.get? key⟩ := by
    rw [Attribute.below_last, List.forall_mem_singleton]
  constructor
  · rintro ⟨⟨object, node⟩, pivot, tag⟩
    obtain ⟨members, rfl⟩ := Json.isObject_iff.1 (object item rfl)
    rw [reached] at pivot tag
    exact ⟨rfl, (free _ _ _).1 (node _ rfl), placeErrors_pivotConstraints.1 pivot, placeErrors_tagConstraints.1 tag⟩
  · rintro ⟨object, node, pivot, tag⟩
    obtain ⟨members, rfl⟩ := Json.isObject_iff.1 object
    rw [reached, reached]
    refine ⟨⟨?_, ?_⟩, placeErrors_pivotConstraints.2 pivot, placeErrors_tagConstraints.2 tag⟩
    · rintro _ ⟨⟩
      rfl
    · rintro _ ⟨⟩
      exact (free _ _ _).2 node

/-- An entry has no messages if and only if it is what the relation asks, wherever the entry stands. -/
private theorem entryMet_iff (writable : relation.isMutable) {entry : Json} (trail : List Step)
    (parent : Option Members) :
    placeErrors answer [.sometimes, .isObject, .graph (.operationKeys relation)] ⟨trail, parent, some entry⟩ = .ok [] ∧
      (∀ place ∈ Attribute.below trail entry [.name "operation"], placeErrors answer
        relation.operationConstraints place = .ok []) ∧
      (∀ place ∈ Attribute.below trail entry [.name "operations"], placeErrors answer
        relation.listConstraints place = .ok []) ∧
      (∀ place ∈ Attribute.below trail entry [.name "operations", .any],
        placeErrors answer [.isObject, .graph (.relatedNode relation)] place = .ok []) ∧
      (∀ place ∈ Attribute.below trail entry [.name "operations", .any, .name "pivot"],
        placeErrors answer relation.pivotConstraints place = .ok []) ∧
      (∀ place ∈ Attribute.below trail entry [.name "operations", .any, .name "resource"],
        placeErrors answer relation.tagConstraints place = .ok []) ↔
      relation.EntryMet answer entry := by
  have perItem {items : List Json} (trail : List Step) :
      (∀ place ∈ Attribute.below trail (.list items) [.any],
        placeErrors answer [.isObject, .graph (.relatedNode relation)] place = .ok []) ∧
      (∀ place ∈ Attribute.below trail (.list items) [.any, .name "pivot"],
        placeErrors answer relation.pivotConstraints place = .ok []) ∧
      (∀ place ∈ Attribute.below trail (.list items) [.any, .name "resource"],
        placeErrors answer relation.tagConstraints place = .ok []) ↔
      ∀ item ∈ items, relation.ItemMet answer item := by
    constructor
    · rintro ⟨node, pivot, tag⟩ item member
      obtain ⟨step, child⟩ := Json.child_of_mem member
      have inside {rest : List Segment} {place : Attribute}
          (reached : place ∈ Attribute.below (trail ++ [step]) item rest) :
          place ∈ Attribute.below trail (.list items) (.any :: rest) :=
        Attribute.mem_below_any.2 ⟨_, child, reached⟩
      exact (itemMet_iff free (trail ++ [step])).1 ⟨node _ (inside (List.mem_singleton.2 rfl)),
        fun place reached => pivot place (inside reached), fun place reached => tag place (inside reached)⟩
    · intro each
      have met {child : Step × Json} (inside : child ∈ (Json.list items).children) :=
        (itemMet_iff free (trail ++ [child.1])).2 (each child.2 (Json.mem_of_child inside))
      refine ⟨fun place reached => ?_, fun place reached => ?_, fun place reached => ?_⟩
      all_goals obtain ⟨child, inside, reached⟩ := Attribute.mem_below_any.1 reached
      · obtain rfl := List.mem_singleton.1 reached
        exact (met inside).1
      · exact (met inside).2.1 place reached
      · exact (met inside).2.2 place reached
  have operations (value : Json) : (∃ name ∈ (relation.kind.operations.map (·.name)).mergeSort fun a b => a ≤ b,
      value = .text name) ↔ ∃ operation ∈ relation.kind.operations, value = .text operation.name := by
    simp [List.mem_mergeSort]
  rw [placeErrors_eq_nil_of_present rfl, List.forall_mem_cons, List.forall_mem_cons, List.forall_mem_singleton]
  constructor
  · rintro ⟨⟨-, object, keys⟩, operation, list, node, pivot, tag⟩
    obtain ⟨fields, rfl⟩ := Json.isObject_iff.1 (object entry rfl)
    rw [Attribute.below_last, List.forall_mem_singleton] at operation list
    obtain ⟨items, listed, nonempty, single⟩ := placeErrors_required_list.1 list
    have entered : (Json.object fields).get? "operations" = some (.list items) := listed
    rw [Attribute.below_member entered] at node pivot tag
    refine ⟨writable, (free _ _ _).1 (keys _ rfl), fun value stated => ?_, items, listed, nonempty, single,
      (perItem _).1 ⟨node, pivot, tag⟩⟩
    exact (operations value).1 (placeErrors_optional_text.1 operation value stated)
  · rintro ⟨-, keys, operation, items, listed, nonempty, single, each⟩
    obtain ⟨fields, rfl⟩ : ∃ fields : Members, entry = .object fields := by
      cases entry with
      | object fields => exact ⟨fields, rfl⟩
      | _ => cases listed
    rw [Attribute.below_last, Attribute.below_last, List.forall_mem_singleton, List.forall_mem_singleton,
      Attribute.below_member listed, Attribute.below_member listed, Attribute.below_member listed]
    refine ⟨⟨trivial, ?_, ?_⟩, ?_, placeErrors_required_list.2 ⟨items, listed, nonempty, single⟩, (perItem _).2 each⟩
    · rintro _ ⟨⟩
      rfl
    · rintro _ ⟨⟩
      exact (free _ _ _).2 keys
    · exact placeErrors_optional_text.2 fun value stated => (operations value).2 (operation value stated)

/-- The rules for an entry have no message if and only if every entry there is as its relation asks. -/
theorem errors_entryRules (plain : Path.IsPlain relation.name) (named : relation.name ≠ "*") :
    (relation.entryRules (entryPlace path relation)).errors answer data = .ok [] ↔
      ∀ outer ∈ Attribute.expand data path, ∀ node, outer.value = some node →
        ∀ value entry, node.get? "relations" = some value → value.get? relation.name = some entry →
          relation.EntryMet answer entry := by
  have ofPlaces : (relation.entryRules (entryPlace path relation)).errors answer data = .ok [] ↔
      ∀ place ∈ Attribute.expand data (entryPlace path relation), ∀ entry, place.value = some entry →
        relation.EntryMet answer entry := by
    -- The suffixes are given, not found by unification: that would take the texts of the rules apart letter by letter.
    have below (suffix rest : String) (joined : suffix = "." ++ rest) {segments : List Segment}
        (taken : (Path.names rest).map Segment.ofText = segments) {good : Attribute → Prop} :
        (∀ place ∈ Attribute.expand data (entryPlace path relation ++ suffix), good place) ↔
          ∀ outer ∈ Attribute.expand data (entryPlace path relation), ∀ value, outer.value = some value →
            ∀ place ∈ Attribute.below outer.steps value segments, good place := by
      rw [joined, ← String.append_assoc, forall_expand_append (entryPlace_ne path), taken]
    by_cases writable : relation.isMutable
    · simp only [Relation.entryRules, writable, if_true, errors_cons_eq_nil]
      rw [below ".operation" "operation" rfl rfl, below ".operations" "operations" rfl rfl,
        below ".operations.*" "operations.*" rfl rfl, below ".operations.*.pivot" "operations.*.pivot" rfl rfl,
        below ".operations.*.resource" "operations.*.resource" rfl rfl]
      constructor
      · rintro ⟨whole, operation, list, node, pivot, tag, -⟩ ⟨trail, parent, _⟩ reached entry rfl
        exact (entryMet_iff free writable trail parent).1 ⟨whole _ reached, operation _ reached entry rfl,
          list _ reached entry rfl, node _ reached entry rfl, pivot _ reached entry rfl, tag _ reached entry rfl⟩
      · intro each
        have met {place : Attribute} (reached : place ∈ Attribute.expand data (entryPlace path relation)) {entry : Json}
            (present : place.value = some entry) :=
          (entryMet_iff free writable place.steps place.parent).2 (each place reached entry present)
        refine ⟨fun place reached => ?_, fun place reached entry present => (met reached present).2.1,
          fun place reached entry present => (met reached present).2.2.1,
          fun place reached entry present => (met reached present).2.2.2.1,
          fun place reached entry present => (met reached present).2.2.2.2.1,
          fun place reached entry present => (met reached present).2.2.2.2.2, rfl⟩
        cases present : place.value with
        | none => exact placeErrors_eq_nil.2 (.inl ⟨present, by simp⟩)
        | some entry =>
          have here := (met reached present).1
          rwa [← present] at here
    · simp only [Relation.entryRules, if_neg writable, errors_cons_eq_nil]
      constructor
      · rintro ⟨whole, -⟩ place reached entry present
        have absent := (placeErrors_eq_nil.1 (whole place reached)).resolve_left (by simp) _ List.mem_cons_self
        cases absent.symm.trans present
      · intro each
        refine ⟨fun place reached => placeErrors_eq_nil.2 (.inr (List.forall_mem_singleton.2 ?_)), rfl⟩
        refine Option.eq_none_iff_forall_ne_some.2 fun entry present => ?_
        exact writable (each place reached entry present).writable
  rw [ofPlaces]
  simp only [mem_expand_entryPlace plain named]
  constructor
  · intro each outer reached node present value entry relations found
    cases value with
    | object entries => exact each _ ⟨outer, reached, node, present, entries, relations, rfl⟩ entry found
    | _ => cases found
  · rintro each _ ⟨outer, reached, node, present, entries, relations, rfl⟩ entry found
    exact each outer reached node present _ entry relations found

end Entry

section Node

variable {resource : Resource} (free : answer.IsFree)
include free

/-- The rule for the relations of a node has no message if and only if they are an object of known names. -/
private theorem known_iff :
    (∀ place ∈ Attribute.expand data (Path.under path "relations"),
      placeErrors answer [.sometimes, .isObject, .graph (.knownRelations resource)] place = .ok []) ↔
      ∀ outer ∈ Attribute.expand data path, ∀ node, outer.value = some node →
        ∀ value, node.get? "relations" = some value →
          value.isObject ∧ answer (.knownRelations resource) value "" = .ok [] := by
  have met (place : Attribute) :
      placeErrors answer [.sometimes, .isObject, .graph (.knownRelations resource)] place = .ok [] ↔
        ∀ value, place.value = some value → value.isObject ∧ answer (.knownRelations resource) value "" = .ok [] := by
    rw [placeErrors_eq_nil, List.forall_mem_cons, List.forall_mem_cons, List.forall_mem_singleton]
    constructor
    · rintro (⟨absent, -⟩ | ⟨-, object, known⟩) value present
      · cases absent.symm.trans present
      · exact ⟨object value present, (free _ _ _).1 (known value present)⟩
    · exact fun each => .inr ⟨trivial, fun value present => (each value present).1,
        fun value present => (free _ _ _).2 (each value present).2⟩
  have below (trail : List Step) (node : Json) {good : Json → Prop} :
      (∀ place ∈ Attribute.below trail node [.name "relations"], ∀ value, place.value = some value → good value) ↔
        ∀ value, node.get? "relations" = some value → good value := by
    cases node with
    | object members =>
      rw [Attribute.below_last, List.forall_mem_singleton]
      rfl
    | _ => simp [Attribute.below, Json.get?]
  simp only [met]
  rw [Attribute.expand, Path.segments_under path (by decide), List.map_append,
    show (Path.names "relations").map Segment.ofText = [.name "relations"] from rfl, Attribute.below_append]
  simp only [List.mem_flatMap, Option.mem_toList]
  constructor
  · intro each outer reached node present
    exact (below outer.steps node).1 fun place inside => each place ⟨outer, reached, node, present, inside⟩
  · rintro each place ⟨outer, reached, node, present, inside⟩
    exact (below outer.steps node).2 (each outer reached node present) place inside

/-- A node that stands for itself has no messages if and only if it is what its resource asks, wherever it stands. -/
private theorem standsAlone_iff {item : Json} (trail : List Step) :
    (placeErrors answer [.isObject, .graph (.fillable resource)] ⟨trail, none, some item⟩ = .ok [] ∧
        ∀ members, item = .object members → ∀ entry ∈ [("pivot", [Constraint.prohibited]), ("resource", [.prohibited])],
          placeErrors answer entry.2 ⟨trail ++ [.member entry.1], some members, Members.get? members entry.1⟩ =
            .ok []) ∧
      (∀ value, item.get? "relations" = some value →
        value.isObject ∧ answer (.knownRelations resource) value "" = .ok []) ∧
      (∀ relation ∈ resource.relations, ∀ value entry, item.get? "relations" = some value →
        value.get? relation.name = some entry → relation.EntryMet answer entry) ↔
      item.isObject ∧ item.get? "pivot" = none ∧ item.get? "resource" = none ∧ resource.NodeMet answer item := by
  rw [placeErrors_eq_nil_of_present rfl, List.forall_mem_cons, List.forall_mem_singleton]
  simp only [List.forall_mem_cons, List.not_mem_nil, false_imp_iff, implies_true, and_true, placeErrors_prohibited]
  constructor
  · rintro ⟨⟨⟨object, own⟩, apart⟩, known, entries⟩
    obtain ⟨members, rfl⟩ := Json.isObject_iff.1 (object item rfl)
    exact ⟨rfl, (apart members rfl).1, (apart members rfl).2, (free _ _ _).1 (own _ rfl), known, entries⟩
  · rintro ⟨object, pivot, tag, own, known, entries⟩
    refine ⟨⟨⟨?_, ?_⟩, ?_⟩, known, entries⟩
    · rintro _ ⟨⟩
      exact object
    · rintro _ ⟨⟩
      exact (free _ _ _).2 own
    · rintro members rfl
      exact ⟨pivot, tag⟩

variable (named : resource.Addressable)
include named

/-- The rules below a node have no message if and only if every entry of it is as its relation asks. -/
private theorem errors_nodeEntries :
    (nodeEntries resource path).errors answer data = .ok [] ↔
      ∀ outer ∈ Attribute.expand data path, ∀ node, outer.value = some node →
        ∀ relation ∈ resource.relations, ∀ value entry, node.get? "relations" = some value →
          value.get? relation.name = some entry → relation.EntryMet answer entry := by
  have perRelation : (nodeEntries resource path).errors answer data = .ok [] ↔ ∀ relation ∈ resource.relations,
      (relation.entryRules (entryPlace path relation)).errors answer data = .ok [] := by
    simp only [errors_eq_nil, nodeEntries, List.mem_flatMap]
    exact ⟨fun each relation declared pattern constraints rule => each pattern constraints ⟨relation, declared, rule⟩,
      fun each pattern constraints found => by
        obtain ⟨relation, declared, rule⟩ := found
        exact each relation declared pattern constraints rule⟩
  rw [perRelation]
  constructor
  · intro each outer reached node present relation declared
    obtain ⟨plain, noStar⟩ := named relation declared
    exact (errors_entryRules free plain noStar).1 (each relation declared) outer reached node present
  · intro each relation declared
    obtain ⟨plain, noStar⟩ := named relation declared
    exact (errors_entryRules free plain noStar).2 fun outer reached node present =>
      each outer reached node present relation declared

/-- The rules for a node have no message if and only if it is what its resource asks. -/
theorem errors_nodeRules (distinct : (resource.relations.map (·.name)).Nodup) {node : Json} :
    (nodeRules resource "").errors answer node = .ok [] ↔ resource.NodeMet answer node := by
  have whole : Attribute.expand node "" = [⟨[], none, some node⟩] := rfl
  rw [nodeRules_eq (fun relation declared => (named relation declared).1) distinct, errors_cons_eq_nil,
    errors_cons_eq_nil, known_iff free, errors_nodeEntries free named, whole]
  simp only [List.forall_mem_singleton, Option.some.injEq, forall_eq']
  rw [placeErrors_eq_nil_of_present rfl, List.forall_mem_singleton]
  constructor
  · rintro ⟨own, known, entries⟩
    exact ⟨(free _ _ _).1 (own node rfl), known, entries⟩
  · rintro ⟨own, known, entries⟩
    refine ⟨?_, known, entries⟩
    rintro _ ⟨⟩
    exact (free _ _ _).2 own

/-- The rules for a list of nodes have no message if and only if it is one, and all that is in it stands for itself and is
what the resource asks. -/
theorem errors_rules (distinct : (resource.relations.map (·.name)).Nodup) {nodes : Json} :
    (rules resource "mutate").errors answer (.object [("mutate", nodes)]) = .ok [] ↔
      ∃ items, nodes = .list items ∧ items ≠ [] ∧ ∀ item ∈ items, item.isObject ∧
        item.get? "pivot" = none ∧ item.get? "resource" = none ∧ resource.NodeMet answer item := by
  have split : rules resource "mutate" = ofItems "mutate" [.required, .isList] [.isObject, .graph (.fillable resource)]
      [("pivot", [.prohibited]), ("resource", [.prohibited])] ++
        (Path.under "mutate.*" "relations", [.sometimes, .isObject, .graph (.knownRelations resource)]) ::
          nodeEntries resource "mutate.*" :=
    rules_eq (fun relation declared => (named relation declared).1) distinct
  have whole : Attribute.expand (.object [("mutate", nodes)]) "mutate" =
      [⟨[.member "mutate"], some [("mutate", nodes)], some nodes⟩] := rfl
  have each {good : Json → Prop} : (∀ outer ∈ Attribute.expand (.object [("mutate", nodes)]) "mutate.*",
      ∀ node, outer.value = some node → good node) ↔ ∀ child ∈ nodes.children, good child.2 := by
    rw [show "mutate.*" = "mutate" ++ ".*" from rfl]
    simp only [Attribute.mem_expand_items (by decide : "mutate" ≠ ""), whole, List.mem_singleton, exists_eq_left,
      Option.some.injEq, exists_eq_left']
    exact ⟨fun all child inside => all _ ⟨child, inside, rfl⟩ _ rfl,
      fun all _ found node present => by
        obtain ⟨child, inside, rfl⟩ := found
        cases present
        exact all child inside⟩
  have list : placeErrors answer [.required, .isList] ⟨[.member "mutate"], some [("mutate", nodes)], some nodes⟩ =
      .ok [] ↔ ∃ items, nodes = .list items ∧ items ≠ [] := by
    have asked := @placeErrors_required_list answer ⟨[.member "mutate"], some [("mutate", nodes)], some nodes⟩ False _
    simpa using asked
  rw [split, errors_append_eq_nil, errors_cons_eq_nil, errors_ofItems_eq_nil (by decide) (by decide), known_iff free,
    errors_nodeEntries free named, each, each, whole, List.forall_mem_singleton, list]
  simp only [Option.some.injEq, forall_eq']
  constructor
  · rintro ⟨⟨⟨items, rfl, nonempty⟩, own⟩, known, entries⟩
    refine ⟨items, rfl, nonempty, fun item member => ?_⟩
    obtain ⟨step, inside⟩ := Json.child_of_mem member
    exact (standsAlone_iff free _).1 ⟨own _ inside, known _ inside, entries _ inside⟩
  · rintro ⟨items, rfl, nonempty, met⟩
    have back (child) (inside : child ∈ (Json.list items).children) :=
      (standsAlone_iff free ([.member "mutate"] ++ [child.1])).2 (met child.2 (Json.mem_of_child inside))
    exact ⟨⟨⟨items, rfl, nonempty⟩, fun child inside => (back child inside).1⟩,
      fun child inside => (back child inside).2.1, fun child inside => (back child inside).2.2⟩

end Node

end Mutation

end ResourceApi
