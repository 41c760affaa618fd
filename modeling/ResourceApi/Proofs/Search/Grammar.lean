import Mathlib.Data.List.Nodup
import ResourceApi.Proofs.Resource.Complete
import ResourceApi.Proofs.Rule.Met
import ResourceApi.Search.Rules

/-!
The grammar of filters. The rules for filters accept a value if and only if it is a list of leaves, which compare one
field, and of groups of filters, down to as many levels as the rules are made for.
-/

namespace ResourceApi

open Outcome RuleSet

/-- A value that says something: it is neither null nor blank nor empty. -/
def Json.Tells (value : Json) : Prop :=
  value ≠ .null ∧ (∀ text, value = .text text → ¬Text.isBlank text) ∧ value ≠ .list [] ∧ value ≠ .object []

/-- An item that says how it is joined, if at all, by one of the two words for it. -/
def Json.Joins (item : Json) : Prop :=
  ∀ value, item.get? "type" = some value → value = .text "and" ∨ value = .text "or"

/-- A filter that compares one of the fields of a search with a value. -/
structure Json.IsLeaf (searched : String → Prop) (item : Json) : Prop where
  object : item.isObject
  single : item.get? "nested" = none
  field : ∃ name, item.get? "field" = some (.text name) ∧ searched name
  value : ∃ value, item.get? "value" = some value ∧ value.Tells
  operator : ∀ value, item.get? "operator" = some value → ∃ comparison : Comparison, value = .text comparison.symbol
  several : item.get? "operator" = some (.text "in") ∨ item.get? "operator" = some (.text "not in") →
    ∃ values, item.get? "value" = some (.list values)
  type : item.Joins

/-- A filter that groups others, which are of some form. -/
structure Json.IsGroup (inner : Json → Prop) (item : Json) : Prop where
  object : item.isObject
  nested : ∃ items, item.get? "nested" = some (.list items) ∧ items ≠ [] ∧ ∀ filter ∈ items, inner filter
  bare : item.get? "field" = none ∧ item.get? "operator" = none ∧ item.get? "value" = none
  type : item.Joins

/-- A filter with so many levels of groups at most. -/
def Json.IsFilter (searched : String → Prop) : Nat → Json → Prop
  | 0, item => item.IsLeaf searched
  | levels + 1, item => item.IsLeaf searched ∨ item.IsGroup (Json.IsFilter searched levels)

theorem Json.isFilled_iff {value : Json} : Json.isFilled (some value) ↔ value.Tells := by
  cases value <;> simp [isFilled, Tells]

namespace Search

variable {fields : List String} {answer : GraphRule.Answer}

/-- The members that every filter may have, with what is asked of them. -/
def leafKeys (fields : List String) : List (String × List Constraint) := [
  ("field", [.requiredWithout "nested", .isString, .oneOf (textsOf fields)]),
  ("operator", [.sometimes, .isString, .oneOf (textsOf (Comparison.all.map (·.symbol)))]),
  ("value", [.requiredWithout "nested"]),
  ("type", [.sometimes, .isString, .oneOf (textsOf ["and", "or"])])]

/-- Rules for one level of filters, with what is asked of a group. -/
def levelRules (fields : List String) (group : List Constraint) (path : String) : RuleSet :=
  ofItems path [.sometimes, .isList] [.isObject, .filterValue] (leafKeys fields ++ [("nested", group)])

/-- Rules for filters, with those of the groups inside them put behind. -/
def filterEntries (fields : List String) : Nat → String → RuleSet
  | 0, path => levelRules fields [.prohibited] path
  | levels + 1, path =>
    levelRules fields [.sometimes, .isList, .prohibits ["field", "operator", "value"]] path ++
      (filterEntries fields levels (path ++ ".*.nested")).tail

/-- What is asked of the members of a filter, groups left aside. -/
structure LeafKeysMet (fields : List String) (members : Members) : Prop where
  named : Json.isFilled (members.get? "nested") ∨ Json.isFilled (members.get? "field")
  field : ∀ value, members.get? "field" = some value → ∃ name ∈ fields, value = .text name
  operator : ∀ value, members.get? "operator" = some value → ∃ comparison : Comparison, value = .text comparison.symbol
  valued : Json.isFilled (members.get? "nested") ∨ Json.isFilled (members.get? "value")
  type : (Json.object members).Joins

theorem leafKeys_iff {members : Members} {trail : List Step} :
    (∀ entry ∈ leafKeys fields, placeErrors answer entry.2
        ⟨trail ++ [.member entry.1], some members, members.get? entry.1⟩ = .ok []) ↔ LeafKeysMet fields members := by
  have symbols (value : Json) : (∃ name ∈ Comparison.all.map (·.symbol), value = .text name) ↔
      ∃ comparison : Comparison, value = .text comparison.symbol := by
    constructor
    · rintro ⟨_, listed, rfl⟩
      obtain ⟨comparison, -, rfl⟩ := List.mem_map.1 listed
      exact ⟨comparison, rfl⟩
    · rintro ⟨comparison, rfl⟩
      exact ⟨_, List.mem_map_of_mem (by cases comparison <;> decide), rfl⟩
  simp only [leafKeys, textsOf, List.forall_mem_cons, placeErrors_optional_text, symbols]
  constructor
  · rintro ⟨field, operator, value, type, -⟩
    obtain ⟨named, text⟩ := List.forall_mem_cons.1 ((placeErrors_eq_nil.1 field).resolve_left (by simp))
    have valued := (placeErrors_eq_nil.1 value).resolve_left (by simp)
    refine ⟨named, ?_, operator, valued _ List.mem_cons_self, fun value present => by simpa using type value present⟩
    rw [List.forall_mem_cons, List.forall_mem_singleton, text_met] at text
    exact text
  · rintro ⟨named, field, operator, valued, type⟩
    refine ⟨placeErrors_eq_nil.2 (.inr ?_), operator, placeErrors_eq_nil.2 (.inr ?_), ?_, by simp⟩
    · rw [List.forall_mem_cons, List.forall_mem_cons, List.forall_mem_singleton, text_met]
      exact ⟨named, field⟩
    · exact List.forall_mem_singleton.2 valued
    · exact fun value present => by simpa using type value present

/-- What is asked of a filter, groups left aside. -/
structure ItemMet (fields : List String) (item : Json) : Prop where
  several : ∀ operand, item.get? "value" = some operand →
    item.get? "operator" = some (.text "in") ∨ item.get? "operator" = some (.text "not in") → operand.isList
  object : ∃ members : Members, item = .object members ∧ LeafKeysMet fields members

/-- Without a group, what is asked of a filter is that it is a leaf. -/
theorem isLeaf_iff (worded : ∀ name ∈ fields, ¬Text.isBlank name) {item : Json} :
    item.IsLeaf (· ∈ fields) ↔ ItemMet fields item ∧ item.get? "nested" = none := by
  constructor
  · rintro ⟨object, single, ⟨name, field, searched⟩, ⟨value, given, tells⟩, operator, several, type⟩
    obtain ⟨members, rfl⟩ := Json.isObject_iff.1 object
    have filled : Json.isFilled (members.get? "field") := by
      have found : members.get? "field" = some (.text name) := field
      simpa [found, Json.isFilled] using worded name searched
    have valued : Json.isFilled (members.get? "value") := by
      have found : members.get? "value" = some value := given
      rw [found]
      exact Json.isFilled_iff.2 tells
    refine ⟨⟨fun operand present isSeveral => ?_, members, rfl, .inr filled, ?_, operator, .inr valued, type⟩, single⟩
    · obtain ⟨values, list⟩ := several isSeveral
      obtain rfl := Option.some.inj (present.symm.trans list)
      rfl
    · intro value present
      exact ⟨name, searched, Option.some.inj (present.symm.trans field)⟩
  · rintro ⟨⟨several, members, rfl, named, field, operator, valued, type⟩, single⟩
    have single : members.get? "nested" = none := single
    rw [single] at named valued
    have named := named.resolve_left (by simp [Json.isFilled])
    have valued := valued.resolve_left (by simp [Json.isFilled])
    obtain ⟨value, given⟩ : ∃ value, members.get? "value" = some value := by
      cases given : members.get? "value" with
      | none => simp [given, Json.isFilled] at valued
      | some value => exact ⟨value, rfl⟩
    obtain ⟨name, listed, text⟩ : ∃ name ∈ fields, members.get? "field" = some (.text name) := by
      cases present : members.get? "field" with
      | none => simp [present, Json.isFilled] at named
      | some value =>
        obtain ⟨name, listed, rfl⟩ := field value present
        exact ⟨name, listed, rfl⟩
    refine ⟨rfl, single, ⟨name, text, listed⟩, ⟨value, given, ?_⟩, operator, fun isSeveral => ?_, type⟩
    · exact Json.isFilled_iff.1 (given ▸ valued)
    · obtain ⟨values, rfl⟩ := Json.isList_iff.1 (several value given isSeveral)
      exact ⟨values, given⟩

/-- With a group and nothing besides, what is asked of a filter is that the group is not empty. -/
theorem isGroup_iff (fields : List String) {inner : Json → Prop} {item : Json} :
    item.IsGroup inner ↔ ItemMet fields item ∧
      (item.get? "field" = none ∧ item.get? "operator" = none ∧ item.get? "value" = none) ∧
        ∃ items, item.get? "nested" = some (.list items) ∧ ∀ filter ∈ items, inner filter := by
  constructor
  · rintro ⟨object, ⟨items, nested, nonempty, each⟩, ⟨field, operator, value⟩, type⟩
    obtain ⟨members, rfl⟩ := Json.isObject_iff.1 object
    have filled : Json.isFilled (members.get? "nested") := by
      have found : members.get? "nested" = some (.list items) := nested
      simpa [found, Json.isFilled] using nonempty
    refine ⟨⟨fun operand present => ?_, members, rfl, .inl filled, fun found present => ?_, fun found present => ?_,
      .inl filled, type⟩, ⟨field, operator, value⟩, items, nested, each⟩
    · rw [value] at present
      cases present
    · cases field.symm.trans present
    · cases operator.symm.trans present
  · rintro ⟨⟨-, members, rfl, named, -, -, -, type⟩, bare, items, nested, each⟩
    refine ⟨rfl, ⟨items, nested, ?_, each⟩, bare, type⟩
    rintro rfl
    have nested : members.get? "nested" = some (.list []) := nested
    have field : members.get? "field" = none := bare.1
    simp [nested, field, Json.isFilled] at named

private theorem plain_keys (group : List Constraint) :
    ∀ entry ∈ leafKeys fields ++ [("nested", group)], Path.IsPlain entry.1 ∧ entry.1 ≠ "*" := by
  simp only [leafKeys, List.cons_append, List.nil_append, List.forall_mem_cons]
  exact ⟨by decide, by decide, by decide, by decide, by decide, List.forall_mem_nil _⟩

/-- One level of filters: every list of them is a list, and its items are what is asked of filters and of their groups. -/
theorem errors_levelRules {path : String} (nonempty : path ≠ "") {data : Json} {group : List Constraint}
    (kept : Members → Prop) (keeps : ∀ trail members,
      placeErrors answer group ⟨trail, some members, Members.get? members "nested"⟩ = .ok [] ↔ kept members) :
    (levelRules fields group path).errors answer data = .ok [] ↔
      ∀ place ∈ Attribute.expand data path, ∀ value, place.value = some value → ∃ items, value = .list items ∧
        ∀ item ∈ items, ItemMet fields item ∧ ∀ members, item = .object members → kept members := by
  refine errors_ofList_eq_nil nonempty (plain_keys group) fun trail item => ?_
  simp only [List.forall_mem_append, List.forall_mem_singleton, leafKeys_iff, keeps]
  rw [placeErrors_eq_nil_of_present rfl, List.forall_mem_cons, List.forall_mem_singleton]
  constructor
  · rintro ⟨⟨object, several⟩, each⟩
    obtain ⟨members, rfl⟩ := Json.isObject_iff.1 (object item rfl)
    exact ⟨⟨several _ rfl, members, rfl, (each members rfl).1⟩, fun _ same => (each _ same).2⟩
  · rintro ⟨⟨several, members, rfl, leaf⟩, holds⟩
    refine ⟨⟨?_, ?_⟩, ?_⟩
    · rintro _ ⟨⟩
      rfl
    · rintro _ ⟨⟩
      exact several
    · rintro _ ⟨⟩
      exact ⟨leaf, holds members rfl⟩

/-- The rules for filters come first to the list of them. -/
theorem filterEntries_eq_cons (fields : List String) (levels : Nat) (path : String) :
    filterEntries fields levels path = (path, [.sometimes, .isList]) :: (filterEntries fields levels path).tail := by
  cases levels <;> rfl

private theorem nestedPath_eq (path : String) : path ++ ".*.nested" = path ++ ".*" ++ ("." ++ "nested") := by
  rw [String.append_assoc]
  rfl

/-- The places of the groups inside the filters of a list. -/
private theorem mem_expand_nested {path : String} (nonempty : path ≠ "") {data : Json} {place : Attribute} :
    place ∈ Attribute.expand data (path ++ ".*.nested") ↔
      ∃ outer ∈ Attribute.expand data path, ∃ value, outer.value = some value ∧ ∃ child ∈ value.children,
        ∃ members, child.2 = .object members ∧ place =
          ⟨outer.steps ++ [child.1] ++ [.member "nested"], some members, Members.get? members "nested"⟩ := by
  rw [nestedPath_eq]
  exact Attribute.mem_expand_key nonempty (by decide) (by decide)

/-- A group that an object holds is a list, and no member that compares stands beside it. -/
def HoldsGroup (members : Members) : Prop :=
  ∀ value, members.get? "nested" = some value → value.isList ∧
    members.get? "field" = none ∧ members.get? "operator" = none ∧ members.get? "value" = none

private theorem placeErrors_nested {members : Members} {trail : List Step} :
    placeErrors answer [.sometimes, .isList, .prohibits ["field", "operator", "value"]]
      ⟨trail, some members, members.get? "nested"⟩ = .ok [] ↔ HoldsGroup members := by
  rw [placeErrors_eq_nil, HoldsGroup]
  cases members.get? "nested" <;> simp [Constraint.Met, Attribute.sibling?]

private theorem exists_nested {path : String} (nonempty : path ≠ "") {data : Json} {place : Attribute}
    (reached : place ∈ Attribute.expand data path) {items : List Json} (present : place.value = some (.list items))
    {members : Members} (member : .object members ∈ items) :
    ∃ trail, ⟨trail, some members, members.get? "nested"⟩ ∈ Attribute.expand data (path ++ ".*.nested") := by
  obtain ⟨step, child⟩ := Json.child_of_mem member
  exact ⟨_, (mem_expand_nested nonempty).2 ⟨place, reached, _, present, _, child, members, rfl, rfl⟩⟩

/-- Rules for filters accept lists of filters with so many levels of groups. -/
theorem errors_filterEntries (worded : ∀ name ∈ fields, ¬Text.isBlank name) (answer : GraphRule.Answer) (data : Json)
    (levels : Nat) {path : String} (nonempty : path ≠ "") :
    (filterEntries fields levels path).errors answer data = .ok [] ↔
      ∀ place ∈ Attribute.expand data path, ∀ value, place.value = some value →
        ∃ items, value = .list items ∧ ∀ item ∈ items, item.IsFilter (· ∈ fields) levels := by
  induction levels generalizing path with
  | zero =>
    rw [filterEntries, errors_levelRules nonempty fun members => members.get? "nested" = none]
    · refine forall₂_congr fun place _ => forall₂_congr fun value _ => exists_congr fun items =>
        and_congr_right fun _ => forall₂_congr fun item _ => ?_
      rw [Json.IsFilter, isLeaf_iff worded]
      refine and_congr_right fun met => ?_
      obtain ⟨members, rfl, -⟩ := met.object
      exact ⟨fun alone => alone members rfl, fun alone _ same => Json.object.inj same ▸ alone⟩
    · intro trail members
      rw [placeErrors_eq_nil, List.forall_mem_singleton]
      exact or_iff_right (by simp)
  | succ levels ih =>
    have inside := filterEntries_eq_cons fields levels (path ++ ".*.nested") ▸ @ih (path ++ ".*.nested") (by simp)
    rw [errors_cons_eq_nil] at inside
    rw [filterEntries, errors_append_eq_nil, errors_levelRules nonempty HoldsGroup fun _ _ => placeErrors_nested]
    constructor
    · rintro ⟨outside, tail⟩
      have lists : ∀ place ∈ Attribute.expand data (path ++ ".*.nested"),
          placeErrors answer [.sometimes, .isList] place = .ok [] := by
        intro place reached
        obtain ⟨outer, start, value, present, child, within, members, object, rfl⟩ :=
          (mem_expand_nested nonempty).1 reached
        obtain ⟨items, rfl, each⟩ := outside outer start value present
        exact placeErrors_optional_list.2 fun value found =>
          ((each child.2 (Json.mem_of_child within)).2 members object value found).1
      intro place reached value present
      obtain ⟨items, rfl, each⟩ := outside place reached value present
      refine ⟨items, rfl, fun item member => ?_⟩
      obtain ⟨met, group⟩ := each item member
      obtain ⟨members, rfl, -⟩ := met.object
      cases nested : members.get? "nested" with
      | none => exact .inl ((isLeaf_iff worded).2 ⟨met, nested⟩)
      | some value =>
        obtain ⟨list, bare⟩ := group members rfl value nested
        obtain ⟨filters, rfl⟩ := Json.isList_iff.1 list
        refine .inr ((isGroup_iff fields).2 ⟨met, bare, filters, nested, ?_⟩)
        obtain ⟨trail, there⟩ := exists_nested nonempty reached present member
        obtain ⟨_, same, filtered⟩ := inside.1 ⟨lists, tail⟩ _ there _ nested
        cases same
        exact filtered
    · intro accepted
      have kept (item : Json) (filter : item.IsFilter (· ∈ fields) (levels + 1)) :
          ItemMet fields item ∧ ∀ members, item = .object members → HoldsGroup members := by
        rcases filter with leaf | group
        · obtain ⟨met, single⟩ := (isLeaf_iff worded).1 leaf
          refine ⟨met, ?_⟩
          rintro members rfl value nested
          cases single.symm.trans nested
        · obtain ⟨met, bare, items, nested, -⟩ := (isGroup_iff fields).1 group
          refine ⟨met, ?_⟩
          rintro members rfl value found
          cases nested.symm.trans found
          exact ⟨rfl, bare⟩
      refine ⟨fun place reached value present => ?_, (inside.2 fun place reached value present => ?_).2⟩
      · obtain ⟨items, rfl, each⟩ := accepted place reached value present
        exact ⟨items, rfl, fun item member => kept item (each item member)⟩
      · obtain ⟨outer, start, whole, there, child, within, members, object, rfl⟩ :=
          (mem_expand_nested nonempty).1 reached
        obtain ⟨items, rfl, each⟩ := accepted outer start whole there
        rcases each child.2 (Json.mem_of_child within) with leaf | group
        · rw [object] at leaf
          cases leaf.single.symm.trans present
        · obtain ⟨filters, nested, -, filtered⟩ := group.nested
          rw [object] at nested
          cases nested.symm.trans present
          exact ⟨filters, rfl, filtered⟩

/-! ## The rules written out -/

section Paths

variable {path : String} (nonempty : path ≠ "")
include nonempty

private theorem segments_nested : Path.segments (path ++ ".*.nested") = Path.segments path ++ ["*", "nested"] := by
  rw [show path ++ ".*.nested" = path ++ "." ++ "*.nested" by rw [String.append_assoc]; rfl,
    Path.segments_append nonempty]
  rfl

/-- The places of the rules for one level. -/
private theorem segments_levelRules (group : List Constraint) :
    (levelRules fields group path).map (fun entry => Path.segments entry.1) =
      [[], ["*"], ["*", "field"], ["*", "operator"], ["*", "value"], ["*", "type"], ["*", "nested"]].map
        (Path.segments path ++ ·) := by
  have items : Path.segments (path ++ ".*") = Path.segments path ++ ["*"] := by
    rw [show path ++ ".*" = path ++ "." ++ "*" by rw [String.append_assoc]; rfl, Path.segments_append nonempty]
    rfl
  have key {name : String} (plain : Path.IsPlain name) :
      Path.segments (path ++ ".*" ++ ("." ++ name)) = Path.segments path ++ ["*", name] := by
    rw [← String.append_assoc, Path.segments_append (by simp), items, Path.names_of_isPlain plain, List.append_assoc]
    rfl
  simp only [levelRules, ofItems, leafKeys, List.cons_append, List.nil_append, List.map_cons, List.map_nil, items,
    List.append_nil]
  rw [key (by decide), key (by decide), key (by decide), key (by decide), key (by decide)]

private theorem nodup_levelRules (group : List Constraint) : ((levelRules fields group path).map (·.1)).Nodup := by
  refine List.Nodup.of_map Path.segments ?_
  rw [List.map_map]
  change ((levelRules fields group path).map fun entry => Path.segments entry.1).Nodup
  rw [segments_levelRules nonempty]
  exact List.Nodup.map (fun a b same => List.append_cancel_left same) (by decide)

private theorem length_of_mem_levelRules {group : List Constraint} {place : String}
    (listed : place ∈ (levelRules fields group path).map (·.1)) :
    (Path.segments place).length ≤ (Path.segments path).length + 2 := by
  have short := List.mem_map_of_mem (f := Path.segments) listed
  rw [List.map_map] at short
  change Path.segments place ∈ (levelRules fields group path).map fun entry => Path.segments entry.1 at short
  rw [segments_levelRules nonempty] at short
  obtain ⟨rest, among, same⟩ := List.mem_map.1 short
  have bound : ∀ rest ∈ [[], ["*"], ["*", "field"], ["*", "operator"], ["*", "value"], ["*", "type"], ["*", "nested"]],
      rest.length ≤ 2 := by decide
  have := bound rest among
  rw [← same, List.length_append]
  omega

/-- What is about filters but not about the list of them lies below it. -/
private theorem length_of_mem_tail {levels : Nat} {place : String}
    (later : place ∈ (filterEntries fields levels path).tail.map (·.1)) :
    (Path.segments path).length < (Path.segments place).length := by
  have below (group : List Constraint) (path : String) (nonempty : path ≠ "")
      (later : place ∈ (levelRules fields group path).tail.map (·.1)) :
      (Path.segments path).length < (Path.segments place).length := by
    have long := List.mem_map_of_mem (f := Path.segments) later
    rw [List.map_map, List.map_tail] at long
    change Path.segments place ∈ ((levelRules fields group path).map fun entry => Path.segments entry.1).tail at long
    rw [segments_levelRules nonempty] at long
    obtain ⟨rest, among, same⟩ := List.mem_map.1 long
    have bound : ∀ rest ∈ [["*"], ["*", "field"], ["*", "operator"], ["*", "value"], ["*", "type"], ["*", "nested"]],
        0 < rest.length := by decide
    have := bound rest among
    rw [← same, List.length_append]
    omega
  induction levels generalizing path with
  | zero => exact below _ path nonempty later
  | succ levels ih =>
    have joined : place ∈ ((levelRules fields [.sometimes, .isList, .prohibits ["field", "operator", "value"]] path).tail ++
        (filterEntries fields levels (path ++ ".*.nested")).tail).map (·.1) := later
    rw [List.map_append, List.mem_append] at joined
    rcases joined with here | deeper
    · exact below _ path nonempty here
    · have further := ih (by simp) deeper
      rw [segments_nested nonempty, List.length_append] at further
      exact Nat.lt_of_add_right_lt further

private theorem nodup_filterEntries (fields : List String) (levels : Nat) :
    ((filterEntries fields levels path).map (·.1)).Nodup := by
  induction levels generalizing path with
  | zero => exact nodup_levelRules nonempty _
  | succ levels ih =>
    have inside := @ih (path ++ ".*.nested") (by simp)
    rw [filterEntries_eq_cons, List.map_cons] at inside
    rw [filterEntries, List.map_append, List.nodup_append]
    refine ⟨nodup_levelRules nonempty _, (List.nodup_cons.1 inside).2, ?_⟩
    rintro place outer _ deeper rfl
    have near := length_of_mem_levelRules nonempty outer
    have far := length_of_mem_tail (by simp) deeper
    rw [segments_nested nonempty, List.length_append] at far
    exact absurd near (Nat.not_le.2 far)

end Paths

private theorem tidy_filterEntries (fields : List String) (levels : Nat) (path : String) :
    ∀ entry ∈ filterEntries fields levels path, Tidy entry.2 := by
  have here (group : List Constraint) (tidy : Tidy group) (path : String) :
      ∀ entry ∈ levelRules fields group path, Tidy entry.2 := by
    simp only [levelRules, ofItems, leafKeys, List.cons_append, List.nil_append, List.map_cons, List.map_nil,
      List.forall_mem_cons]
    simpa [Tidy, Constraint.same] using tidy
  induction levels generalizing path with
  | zero => exact here _ (by simp [Tidy]) path
  | succ levels ih =>
    intro entry listed
    rcases List.mem_append.1 listed with outside | inside
    · exact here _ (by simp [Tidy, Constraint.same]) path entry outside
    · exact ih _ entry (List.mem_of_mem_tail inside)

/-- The rules for filters, joined level by level, are those of one level behind those of the other. -/
theorem filterRulesFrom_eq (levels : Nat) {path : String} (nonempty : path ≠ "") :
    filterRulesFrom (textsOf fields) levels path = filterEntries fields levels path := by
  have leaves (group : List Constraint) (path : String) :
      leafRules (textsOf fields) path ++ [(path ++ ".*.nested", group)] = levelRules fields group path := by
    simp [leafRules, levelRules, ofItems, leafKeys, String.append_assoc]
  induction levels generalizing path with
  | zero => exact leaves _ path
  | succ levels ih =>
    have distinct := nodup_filterEntries nonempty fields (levels + 1)
    have tidy := tidy_filterEntries fields levels (path ++ ".*.nested")
    let group : List Constraint := [.sometimes, .isList, .prohibits ["field", "operator", "value"]]
    have held : extend (leafRules (textsOf fields) path ++ [(path ++ ".*.nested", group)]) (path ++ ".*.nested")
        [.sometimes, .isList] = leafRules (textsOf fields) path ++ [(path ++ ".*.nested", group)] := by
      refine (extend_there ?_).trans rfl
      rw [leaves]
      exact nodup_levelRules nonempty _
    rw [filterRulesFrom, ih (by simp), filterEntries_eq_cons, merge, List.foldl_cons, held, leaves]
    exact merge_fresh distinct fun entry listed => tidy entry (List.mem_of_mem_tail listed)

end Search

/-! ## The fields of a search -/

namespace Graph

/-- A name by which records of a resource are searched: an own field, or one behind a relation with one target. -/
def Searches (graph : Graph) (resource : Resource) (name : String) : Prop :=
  name ∈ resource.fields ∨ ∃ relation ∈ resource.relations, relation.isNestable ∧
    ∃ target, graph.target relation = .ok target ∧ ∃ field ∈ target.fields, name = relation.name ++ "." ++ field

variable {graph : Graph} {resource : Resource}

theorem mem_filterFields {fields : List String} (listed : graph.filterFields resource = .ok fields) (name : String) :
    name ∈ fields ↔ graph.Searches resource name := by
  simp only [filterFields, bind_eq_ok, pure_eq_ok] at listed
  obtain ⟨perRelation, found, rfl⟩ := listed
  rw [List.mem_append, Searches]
  refine or_congr_right ?_
  rw [List.mem_flatten]
  constructor
  · rintro ⟨names, given, inside⟩
    obtain ⟨relation, declared, made⟩ := mapM_mem found given
    simp only [bind_eq_ok, pure_eq_ok] at made
    obtain ⟨target, leads, rfl⟩ := made
    obtain ⟨field, exposed, rfl⟩ := List.mem_map.1 inside
    obtain ⟨present, nestable⟩ := List.mem_filter.1 declared
    exact ⟨relation, present, nestable, target, leads, field, exposed, rfl⟩
  · rintro ⟨relation, declared, nestable, target, leads, field, exposed, rfl⟩
    obtain ⟨names, given, made⟩ := mapM_image found (List.mem_filter.2 ⟨declared, nestable⟩)
    simp only [bind_eq_ok, pure_eq_ok] at made
    obtain ⟨behind, same, rfl⟩ := made
    cases leads.symm.trans same
    exact ⟨_, given, List.mem_map_of_mem exposed⟩

/-- A name with a point in it is no blank text. -/
theorem not_isBlank_of_point (before after : String) : ¬Text.isBlank (before ++ "." ++ after) := by
  intro blank
  have point : '.' ∈ (before ++ "." ++ after).toList := by simp
  have blankPoint : Text.isBlankChar '.' = true := List.all_eq_true.1 blank '.' point
  exact absurd blankPoint (by decide)

theorem not_isBlank_of_searches (worded : ∀ name ∈ resource.fields, ¬Text.isBlank name) {name : String}
    (searched : graph.Searches resource name) : ¬Text.isBlank name := by
  rcases searched with own | ⟨relation, -, -, target, -, field, -, rfl⟩
  · exact worded name own
  · exact not_isBlank_of_point relation.name field

end Graph

namespace Search

section Accepts

variable {schema : Schema} {declarations : List ResourceDeclaration} {graph : Graph} {resource : Resource}

theorem filterRules_eq_ok (built : Graph.build schema declarations = .ok graph)
    (led : ∀ declaration ∈ declarations, ∀ relation ∈ declaration.relations, relation.IsLed)
    (member : resource ∈ graph.resources) {path : String} (nonempty : path ≠ "") :
    ∃ fields, graph.filterFields resource = .ok fields ∧
      filterRules graph resource path 1 = .ok (filterEntries fields 1 path) := by
  have each (relation) (listed : relation ∈ resource.relations.filter (·.isNestable)) :
      ∃ names, (do
        let target ← graph.target relation
        return target.fields.map fun field => relation.name ++ "." ++ field) = (.ok names : Except Failure _) := by
    obtain ⟨present, nestable⟩ := List.mem_filter.1 listed
    obtain ⟨target, -, leads⟩ := Graph.target_of_build built led member present nestable
    exact ⟨_, bind_eq_ok.2 ⟨target, leads, rfl⟩⟩
  obtain ⟨perRelation, found⟩ := exists_forall₂ each
  have fields : graph.filterFields resource = .ok (resource.fields ++ perRelation.flatten) :=
    bind_eq_ok.2 ⟨perRelation, mapM_eq_ok.2 found, rfl⟩
  refine ⟨_, fields, ?_⟩
  rw [filterRules, fields, ok_bind, ← filterRulesFrom_eq 1 nonempty]
  rfl

theorem isLocal_filterEntries {fields : List String} (levels : Nat) (path : String) :
    ∀ entry ∈ filterEntries fields levels path, ∀ constraint ∈ entry.2, constraint.IsLocal := by
  have here (group : List Constraint) (locals : ∀ constraint ∈ group, constraint.IsLocal) (path : String) :
      ∀ entry ∈ levelRules fields group path, ∀ constraint ∈ entry.2, constraint.IsLocal := by
    simp only [levelRules, ofItems, leafKeys, List.cons_append, List.nil_append, List.map_cons, List.map_nil,
      List.forall_mem_cons]
    simpa [Constraint.IsLocal] using locals
  induction levels generalizing path with
  | zero => exact here _ (by simp [Constraint.IsLocal]) path
  | succ levels ih =>
    intro entry listed
    rcases List.mem_append.1 listed with outside | inside
    · exact here _ (by simp [Constraint.IsLocal]) path entry outside
    · exact ih _ entry (List.mem_of_mem_tail inside)

/-- The rules for the filters of a resource, wherever they stand in a document, have no message about it if and only if
every value there is a list of leaves over the fields of the resource, and of groups that are not empty and hold such leaves.
Relations are declared with their targets, as `ResourceDeclaration.isLed_of_readAll` says of all that are read. -/
theorem accepts_iff_filters (built : Graph.build schema declarations = .ok graph)
    (led : ∀ declaration ∈ declarations, ∀ relation ∈ declaration.relations, relation.IsLed)
    (member : resource ∈ graph.resources) (worded : ∀ name ∈ resource.fields, ¬Text.isBlank name) {path : String}
    (nonempty : path ≠ "") :
    ∃ rules, filterRules graph resource path 1 = .ok rules ∧ ∀ answer data,
      ∃ messages, rules.errors answer data = .ok messages ∧
        (messages = [] ↔ ∀ place ∈ Attribute.expand data path, ∀ value, place.value = some value →
          ∃ items, value = .list items ∧ ∀ item ∈ items,
            item.IsLeaf (graph.Searches resource) ∨ item.IsGroup (Json.IsLeaf (graph.Searches resource))) := by
  obtain ⟨fields, listed, rules⟩ := filterRules_eq_ok built led member nonempty
  have searched : (· ∈ fields) = graph.Searches resource := funext fun name => propext (Graph.mem_filterFields listed name)
  have wordedAll : ∀ name ∈ fields, ¬Text.isBlank name := fun name among =>
    Graph.not_isBlank_of_searches worded ((Graph.mem_filterFields listed name).1 among)
  refine ⟨_, rules, fun answer data => ?_⟩
  obtain ⟨messages, checked⟩ := errors_total (isLocal_filterEntries 1 path) answer data
  have accepted := errors_filterEntries wordedAll answer data 1 nonempty
  rw [checked, Except.ok.injEq, searched] at accepted
  exact ⟨messages, checked, accepted⟩

end Accepts

namespace Memos

def table : Table where
  name := "memos"
  columns := [⟨"id", .integer, true, false, .null⟩, ⟨"above_id", .integer, false, true, .null⟩]

def schema : Schema := { tables := [table] }

/-- Memos, each below another one. -/
def declaration : ResourceDeclaration where
  name := "Memo"
  table := table
  options := [("fields", .list [.text "id"])]
  scopes := []
  relations := [{ name := "above", kind := .belongsTo, targets := [.text "Memo"], foreignKey := .text "above_id" }]

def memo : Resource where
  name := "Memo"
  table := table
  key := "id"
  fields := ["id"]
  scopes := []
  limits := [.int 10, .int 25, .int 50]
  defaultLimit := .int 50
  defaultOrder := [("id", .desc)]
  relations := [⟨"above", .belongsTo, ["Memo"], .parent ⟨"above_id", "id", none⟩⟩]
  fillable := []
  softDeletes := .bool false
  deletedAt := none
  morphAlias := .text "memos"
  gates := true

/-- Filters for memos are lists of leaves and groups. -/
theorem accepts_of_memos :
    ∃ rules, filterRules ⟨[memo]⟩ memo "filters" 1 = .ok rules ∧ ∀ answer data,
      ∃ messages, rules.errors answer data = .ok messages ∧
        (messages = [] ↔ ∀ place ∈ Attribute.expand data "filters", ∀ value, place.value = some value →
          ∃ items, value = .list items ∧ ∀ item ∈ items,
            item.IsLeaf (Graph.Searches ⟨[memo]⟩ memo) ∨ item.IsGroup (Json.IsLeaf (Graph.Searches ⟨[memo]⟩ memo))) := by
  have built : Graph.build schema [declaration] = .ok ⟨[memo]⟩ := rfl
  have led : ∀ declared ∈ [declaration], ∀ relation ∈ declared.relations, relation.IsLed := by
    simp [declaration, RelationDeclaration.IsLed]
  exact accepts_iff_filters built led List.mem_cons_self (by decide) (by decide)

end Memos

end Search

end ResourceApi
