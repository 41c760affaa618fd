import ResourceApi.Proofs.Mutation.Rules
import ResourceApi.Proofs.Resource.Built

/-!
Nodes without messages. The rules for what is written through a relation are met at the entry of the relation, whatever
path led to the node.
-/

namespace ResourceApi

open Outcome RuleSet

/-- Paths to what is written through a relation lead there: no relation has a point in its name, and none is a `*`. -/
def Resource.Addressable (resource : Resource) : Prop :=
  ∀ relation ∈ resource.relations, Path.IsPlain relation.name ∧ relation.name ≠ "*"

def Graph.Addressable (graph : Graph) : Prop := ∀ resource ∈ graph.resources, resource.Addressable

instance (graph : Graph) : Decidable graph.Addressable :=
  inferInstanceAs (Decidable (∀ resource ∈ graph.resources, ∀ relation ∈ resource.relations, _ ∧ _))

namespace Attribute

/-- A path into a document ends at a value, so that other paths go on from there. -/
def Reaches (data : Json) (path : String) (value : Json) : Prop :=
  ∃ trail, ∀ rest, ∀ place ∈ below trail value rest,
    place ∈ below [] data ((Path.segments path).map Segment.ofText ++ rest)

theorem reaches_whole (data : Json) : Reaches data "" data := ⟨[], fun _ _ reached => reached⟩

/-- A path to the items of a list ends at each of them. -/
theorem reaches_item {key path : String} (names : (Path.segments path).map Segment.ofText = [.name key, .any])
    {items : List Json} {item : Json} (member : item ∈ items) : Reaches (.object [(key, .list items)]) path item := by
  have found : (Json.object [(key, .list items)]).get? key = some (.list items) := by
    simp [Json.get?, Members.get?]
  obtain ⟨inner, reaches⟩ := below_item member ([] ++ [.member key])
  refine ⟨inner, fun rest place reached => ?_⟩
  rw [names, List.cons_append, List.singleton_append, below_member found]
  exact reaches rest place reached

end Attribute

/-- What an entry that keeps to the rules of its relation is made of. -/
structure Relation.Obeyed (relation : Relation) (answer : GraphRule.Answer) (entry : Json) : Prop where
  writable : relation.isMutable
  operation : ∀ value, entry.get? "operation" = some value →
    ∃ operation ∈ relation.kind.operations, value = .text operation.name
  items : ∃ items, entry.get? "operations" = some (.list items) ∧ ∀ item ∈ items,
    item.isObject ∧ (∃ place, answer (.relatedNode relation) item place = .ok []) ∧
      (relation.kind = .morphTo → ∃ name ∈ relation.targets, item.get? "resource" = some (.text name))

/-- What a node that keeps to the rules of its resource is made of. -/
structure Resource.Obeyed (resource : Resource) (answer : GraphRule.Answer) (node : Json) : Prop where
  known : ∀ value, node.get? "relations" = some value → ∃ place, answer (.knownRelations resource) value place = .ok []
  entries : ∀ value, node.get? "relations" = some value →
    ∀ relation ∈ resource.relations, ∀ entry, value.get? relation.name = some entry → relation.Obeyed answer entry

section Obeyed

variable {answer : GraphRule.Answer} {set : RuleSet} {data node entry value : Json} {path : String}
  {relation : Relation} {constraints : List Constraint}

/-- A rule for what is below a node is met there. -/
private theorem placeErrors_below (none : set.errors answer data = .ok []) (reaches : Attribute.Reaches data path node)
    {pattern : String} (rule : (pattern, constraints) ∈ set) {rest : List String}
    (names : Path.segments pattern = Path.segments path ++ rest) :
    ∃ trail, ∀ place ∈ Attribute.below trail node (rest.map Segment.ofText),
      placeErrors answer constraints place = .ok [] := by
  obtain ⟨trail, reached⟩ := reaches
  refine ⟨trail, fun place inside => placeErrors_of_errors none rule ?_⟩
  rw [Attribute.expand, names, List.map_append]
  exact reached _ place inside

variable (none : set.errors answer data = .ok []) (reaches : Attribute.Reaches data path node)
  (relations : node.get? "relations" = some value) (plain : Path.IsPlain relation.name) (named : relation.name ≠ "*")
  (found : value.get? relation.name = some entry)
  (inside : ∀ entry ∈ relation.entryRules (Mutation.entryPlace path relation), entry ∈ set)

include named in
private theorem ofText_name : Segment.ofText relation.name = .name relation.name := if_neg named

include none reaches relations plain named found in
/-- A rule for an entry is met by it. -/
private theorem placeErrors_of_entry (rule : (Mutation.entryPlace path relation, constraints) ∈ set) :
    ∃ place : Attribute, place.value = some entry ∧ placeErrors answer constraints place = .ok [] := by
  obtain ⟨trail, kept⟩ := placeErrors_below none reaches rule (Mutation.segments_entryPlace path plain)
  obtain ⟨entries, rfl⟩ : ∃ entries, value = .object entries := by
    cases value with
    | object entries => exact ⟨entries, rfl⟩
    | _ => cases found
  refine ⟨⟨trail ++ [.member "relations"] ++ [.member relation.name], some entries, Members.get? entries relation.name⟩,
    found, kept _ ?_⟩
  rw [List.map_cons, List.map_singleton, ofText_name named]
  change _ ∈ Attribute.below trail node (.name "relations" :: .name relation.name :: [])
  rw [Attribute.below_member relations, Attribute.below_last]
  exact List.mem_singleton.2 rfl

include none reaches relations named found in
/-- A rule for what is below an entry is met there. -/
private theorem placeErrors_below_entry {pattern key : String} (rule : (pattern, constraints) ∈ set) {rest : List String}
    (names : Path.segments pattern = Path.segments path ++ ["relations", relation.name] ++ key :: rest) :
    ∃ trail, ∀ place ∈ Attribute.below trail entry (Segment.ofText key :: rest.map Segment.ofText),
      placeErrors answer constraints place = .ok [] := by
  rw [List.append_assoc] at names
  obtain ⟨trail, kept⟩ := placeErrors_below none reaches rule names
  refine ⟨trail ++ [.member "relations"] ++ [.member relation.name], fun place placed => kept place ?_⟩
  have sameSegments : (["relations", relation.name] ++ key :: rest).map Segment.ofText =
      .name "relations" :: .name relation.name :: Segment.ofText key :: rest.map Segment.ofText := by
    rw [List.map_append, List.map_cons, List.map_singleton, ofText_name named]
    rfl
  rw [sameSegments, Attribute.below_member relations, Attribute.below_member found]
  exact placed

include none reaches relations named in
/-- A rule for a member of an entry is met by it, whether it is there or not. -/
private theorem placeErrors_of_field {fields : Members} (found : value.get? relation.name = some (.object fields))
    {pattern key : String} (rule : (pattern, constraints) ∈ set) (isName : key ≠ "*")
    (names : Path.segments pattern = Path.segments path ++ ["relations", relation.name] ++ [key]) :
    ∃ place : Attribute, place.value = fields.get? key ∧ placeErrors answer constraints place = .ok [] := by
  obtain ⟨trail, kept⟩ := placeErrors_below_entry none reaches relations named found rule names
  refine ⟨⟨trail ++ [.member key], some fields, fields.get? key⟩, rfl, kept _ ?_⟩
  rw [List.map_nil, Segment.ofText, if_neg isName, Attribute.below_last]
  exact List.mem_singleton.2 rfl

include none reaches relations named in
/-- A rule for what is below the nodes of an entry is met there. -/
private theorem placeErrors_of_items {fields : Members} (found : value.get? relation.name = some (.object fields))
    {items : List Json} (listed : fields.get? "operations" = some (.list items)) {item : Json} (member : item ∈ items)
    {pattern : String} (rule : (pattern, constraints) ∈ set) {rest : List String}
    (names : Path.segments pattern = Path.segments path ++ ["relations", relation.name] ++ "operations" :: "*" :: rest) :
    ∃ trail, ∀ place ∈ Attribute.below trail item (rest.map Segment.ofText),
      placeErrors answer constraints place = .ok [] := by
  obtain ⟨trail, kept⟩ := placeErrors_below_entry none reaches relations named found rule names
  have entered : (Json.object fields).get? "operations" = some (.list items) := listed
  obtain ⟨inner, reached⟩ := Attribute.below_item member (trail ++ [.member "operations"])
  refine ⟨inner, fun place placed => kept place ?_⟩
  change place ∈ Attribute.below trail (.object fields) (.name "operations" :: .any :: rest.map Segment.ofText)
  rw [Attribute.below_member entered]
  exact reached _ place placed

/-- A text that has to be there is one of those that are allowed. -/
private theorem text_of_needed {place : Attribute} {names : List String}
    (kept : placeErrors answer [.required, .isString, .oneOf (names.map .text)] place = .ok []) :
    ∃ name ∈ names, place.value = some (.text name) := by
  have filled := isFilled_of_required (constraintErrors_of_needed kept (by simp) List.mem_cons_self)
  cases present : place.value with
  | none =>
    rw [present] at filled
    cases filled
  | some value =>
    have listed := isIn_of_met present (constraintErrors_of_present kept present
      (List.mem_cons_of_mem _ (List.mem_cons_of_mem _ List.mem_cons_self)))
    obtain ⟨name, among, rfl⟩ := Json.isIn_texts listed
    exact ⟨name, among, rfl⟩

include none reaches relations plain named found inside in
/-- An entry for which no rule has a message is as its relation allows. -/
theorem Relation.obeyed_of_errors : relation.Obeyed answer entry := by
  -- The suffixes are given, not found by unification: that would take the texts of the rules apart letter by letter.
  have below (suffix rest : String) {names : List String} (joined : suffix = "." ++ rest)
      (taken : Path.names rest = names) :
      Path.segments (Mutation.entryPlace path relation ++ suffix) =
        Path.segments path ++ ["relations", relation.name] ++ names := by
    rw [joined, ← String.append_assoc, Path.segments_append (Mutation.entryPlace_ne path),
      Mutation.segments_entryPlace path plain, taken]
  have operationName : Path.names "operation" = ["operation"] := by decide
  have operationsName : Path.names "operations" = ["operations"] := by decide
  have nodesName : Path.names "operations.*" = ["operations", "*"] := by decide
  have targetName : Path.names "operations.*.resource" = ["operations", "*", "resource"] := by decide
  by_cases writable : relation.isMutable
  · simp only [Relation.entryRules, writable, if_true, List.forall_mem_cons] at inside
    obtain ⟨whole, operation, operations, nodes, -, target, -⟩ := inside
    obtain ⟨_, present, kept⟩ := placeErrors_of_entry none reaches relations plain named found whole
    obtain ⟨fields, rfl⟩ := isObject_of_met present
      (constraintErrors_of_present kept present (List.mem_cons_of_mem _ List.mem_cons_self))
    have fieldMet {pattern key : String} {constraints : List Constraint} (rule : (pattern, constraints) ∈ set)
        (isName : key ≠ "*")
        (names : Path.segments pattern = Path.segments path ++ ["relations", relation.name] ++ [key]) :=
      placeErrors_of_field none reaches relations named found rule isName names
    refine ⟨writable, fun given stated => ?_, ?_⟩
    · obtain ⟨place, same, kept⟩ := fieldMet operation (by decide) (below ".operation" "operation" rfl operationName)
      have listed := isIn_of_met (same.trans stated) (constraintErrors_of_present kept (same.trans stated)
        (List.mem_cons_of_mem _ (List.mem_cons_of_mem _ List.mem_cons_self)))
      obtain ⟨_, among, rfl⟩ := Json.isIn_texts listed
      obtain ⟨operation, allowed, rfl⟩ := List.mem_map.1 (List.mem_mergeSort.1 among)
      exact ⟨operation, allowed, rfl⟩
    · obtain ⟨place, same, kept⟩ := fieldMet operations (by decide)
        (below ".operations" "operations" rfl operationsName)
      have required := isFilled_of_required (constraintErrors_of_needed kept (by split <;> simp) List.mem_cons_self)
      cases stated : Members.get? fields "operations" with
      | none =>
        rw [same, stated] at required
        cases required
      | some given =>
        rw [stated] at same
        obtain ⟨items, rfl⟩ := isList_of_met same
          (constraintErrors_of_present kept same (List.mem_cons_of_mem _ List.mem_cons_self))
        refine ⟨items, stated, fun item member => ?_⟩
        obtain ⟨inner, kept⟩ := placeErrors_of_items none reaches relations named found stated member nodes
          (below ".operations.*" "operations.*" rfl nodesName)
        have here := kept ⟨inner, Option.none, some item⟩ (List.mem_singleton.2 rfl)
        obtain ⟨members, rfl⟩ := isObject_of_met rfl (constraintErrors_of_present here rfl List.mem_cons_self)
        refine ⟨rfl, ⟨_, answer_of_met rfl (constraintErrors_of_present here rfl
          (List.mem_cons_of_mem _ List.mem_cons_self))⟩, fun polymorphic => ?_⟩
        rw [if_pos polymorphic] at target
        obtain ⟨inner, kept⟩ := placeErrors_of_items none reaches relations named found stated member target
          (below ".operations.*.resource" "operations.*.resource" rfl targetName)
        have here := kept ⟨inner ++ [.member "resource"], some members, Members.get? members "resource"⟩
          (by rw [show (["resource"].map Segment.ofText) = [.name "resource"] from rfl, Attribute.below_last]
              exact List.mem_singleton.2 rfl)
        exact text_of_needed here
  · simp only [Relation.entryRules, if_neg writable, List.forall_mem_cons] at inside
    obtain ⟨place, present, kept⟩ := placeErrors_of_entry none reaches relations plain named found inside.1
    have absent := absent_of_immutable (constraintErrors_of_present kept present List.mem_cons_self)
    rw [present] at absent
    cases absent

include none reaches in
/-- A node for which no rule has a message is as its resource allows. -/
theorem Resource.obeyed_of_errors {resource : Resource} (named : resource.Addressable)
    (known : (Path.under path "relations", [.sometimes, .isObject, .graph (.knownRelations resource)]) ∈ set)
    (inside : ∀ entry ∈ Mutation.nodeEntries resource path, entry ∈ set) : resource.Obeyed answer node := by
  have names : Path.segments (Path.under path "relations") = Path.segments path ++ ["relations"] :=
    Path.segments_under path (by decide)
  refine ⟨fun value stated => ?_, fun value stated relation declared entry found => ?_⟩
  · obtain ⟨trail, kept⟩ := placeErrors_below none reaches known names
    obtain ⟨members, rfl⟩ : ∃ members, node = .object members := by
      cases node with
      | object members => exact ⟨members, rfl⟩
      | _ => cases stated
    have here := kept ⟨trail ++ [.member "relations"], some members, Members.get? members "relations"⟩
      (by rw [show (["relations"].map Segment.ofText) = [.name "relations"] from rfl, Attribute.below_last]
          exact List.mem_singleton.2 rfl)
    exact ⟨_, answer_of_met stated (constraintErrors_of_present here stated (by simp))⟩
  · obtain ⟨plain, noStar⟩ := named relation declared
    exact Relation.obeyed_of_errors none reaches stated plain noStar found fun entry member =>
      inside entry (List.mem_flatMap.2 ⟨relation, declared, member⟩)

end Obeyed

end ResourceApi
