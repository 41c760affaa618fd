import ResourceApi.Proofs.Json.Members
import ResourceApi.Proofs.Search.Accepted
import ResourceApi.Search.Reader

/-!
Specifications written out. A specification is read again from its own description, whatever forms its integers had when
it was read first; and the description keeps of the first document all that it has a field for.
-/

namespace ResourceApi

open Reading

/-- Whether a document that was written out keeps what an earlier one says: the members that both have are the same, but
for integers, which may have been given in other forms. Members that the later document has no place for are left out. -/
inductive Json.Keeps : Json → Json → Prop where
  | same (value : Json) : Keeps value value
  | integer {given : Json} {n : Int} (read : Reading.integer given = done n) : Keeps given (.int n)
  | list {given written : List Json} (each : List.Forall₂ Keeps given written) : Keeps (.list given) (.list written)
  | object {given written : Members}
      (each : ∀ key before after, given.get? key = some before → written.get? key = some after → Keeps before after) :
      Keeps (.object given) (.object written)

namespace Json

/-- Objects are compared member by member. -/
theorem keeps_object {given written : Members}
    (each : ∀ entry ∈ written, ∀ before, given.get? entry.1 = some before → Keeps before entry.2) :
    Keeps (.object given) (.object written) :=
  .object fun _ before _ present found => each _ (Members.mem_of_get? found) before present

end Json

/-! ## Names -/

theorem Joining.ofName?_name (joining : Joining) : ofName? joining.name = some joining := by
  cases joining <;> decide

theorem Direction.ofName?_name (direction : Direction) : ofName? direction.name = some direction := by
  cases direction <;> decide

theorem Measure.ofName?_name (measure : Measure) : ofName? measure.name = some measure := by
  cases measure <;> decide

theorem Joining.name_of_ofName? {text : String} {joining : Joining} (found : ofName? text = some joining) :
    joining.name = text := by
  simpa using List.find?_some found

theorem Direction.name_of_ofName? {text : String} {direction : Direction} (found : ofName? text = some direction) :
    direction.name = text := by
  simpa using List.find?_some found

theorem Measure.name_of_ofName? {text : String} {measure : Measure} (found : ofName? text = some measure) :
    measure.name = text := by
  simpa using List.find?_some found

namespace Reading

variable {α : Type} {members : Members} {name : String}

/-! ## Reading what was written out -/

theorem optional_ofText? (given : Option String) : optional text (Json.ofText? given) = done given := by
  cases given <;> rfl

theorem optional_describeLimit (limit : Option Int) :
    optional integer (Specification.describeLimit limit) = done limit := by
  cases limit <;> rfl

theorem choice_name {ofName? : String → Option α} {nameOf : α → String}
    (back : ∀ a, ofName? (nameOf a) = some a) (listed : String) (a : α) :
    choice ofName? listed (.text (nameOf a)) = done a :=
  choice_eq_done.2 ⟨_, rfl, back a⟩

theorem itemsFrom_map {read : Json → Reading α} {write : α → Json} (back : ∀ a, read (write a) = done a)
    (values : List α) (position : Nat) : itemsFrom read position (values.map write) = done values := by
  induction values generalizing position with
  | nil => rfl
  | cons value rest ih =>
    rw [List.map_cons, itemsFrom, back, ih]
    rfl

theorem list_map {read : Json → Reading α} {write : α → Json} (back : ∀ a, read (write a) = done a)
    (values : List α) : list read (.list (values.map write)) = done values :=
  itemsFrom_map back values 0

theorem list_any (values : List Json) : list any (.list values) = done values := by
  have back (value : Json) : any (id value) = done value := rfl
  simpa using list_map back values

/-! ## What was given is kept -/

/-- A member that was read is kept if what it was read from is. -/
theorem keeps_of_member {default a : α} {read : Json → Reading α} {write : Json}
    (success : member members name default read = done a) (each : ∀ value, read value = done a → value.Keeps write)
    (before : Json) (present : members.get? name = some before) : before.Keeps write := by
  rcases member_eq_done.1 success with ⟨value, given, here⟩ | ⟨absent, -⟩
  · obtain rfl := Option.some.inj (given.symm.trans present)
    exact each value here
  · cases absent.symm.trans present

theorem keeps_of_required {a : α} {read : Json → Reading α} {write : Json}
    (success : required members name read = done a) (each : ∀ value, read value = done a → value.Keeps write)
    (before : Json) (present : members.get? name = some before) : before.Keeps write := by
  obtain ⟨value, given, here⟩ := required_eq_done.1 success
  obtain rfl := Option.some.inj (given.symm.trans present)
  exact each value here

theorem keeps_of_text {s : String} (value : Json) (success : text value = done s) : value.Keeps (.text s) := by
  obtain rfl := text_eq_done.1 success
  exact .same _

theorem keeps_of_any {found : Json} (value : Json) (success : any value = done found) : value.Keeps found := by
  obtain rfl := any_eq_done.1 success
  exact .same _

theorem keeps_of_optional_text {given : Option String} (value : Json) (success : optional text value = done given) :
    value.Keeps (Json.ofText? given) := by
  rcases optional_eq_done success with ⟨rfl, rfl⟩ | ⟨s, read, rfl⟩
  · exact .same .null
  · exact keeps_of_text value read

theorem keeps_of_optional_integer {limit : Option Int} (value : Json) (success : optional integer value = done limit) :
    value.Keeps (Specification.describeLimit limit) := by
  rcases optional_eq_done success with ⟨rfl, rfl⟩ | ⟨n, read, rfl⟩
  · exact .same .null
  · exact .integer read

theorem keeps_of_choice {ofName? : String → Option α} {nameOf : α → String} {listed : String} {a : α}
    (named : ∀ {text a}, ofName? text = some a → nameOf a = text) (value : Json)
    (success : choice ofName? listed value = done a) : value.Keeps (.text (nameOf a)) := by
  obtain ⟨s, rfl, found⟩ := choice_eq_done.1 success
  rw [named found]
  exact .same _

theorem keeps_of_list {read : Json → Reading α} {write : α → Json} {values : List α}
    (each : ∀ value a, read value = done a → value.Keeps (write a)) (value : Json)
    (success : list read value = done values) : value.Keeps (.list (values.map write)) := by
  obtain ⟨items, rfl, pointwise⟩ := list_eq_done success
  refine .list (List.forall₂_map_right_iff.2 (pointwise.imp fun item a => each item a))

theorem keeps_of_any_list {values : List Json} (value : Json) (success : list any value = done values) :
    value.Keeps (.list values) := by
  obtain ⟨items, rfl, pointwise⟩ := list_eq_done success
  have same : items = values := by
    simpa [List.forall₂_eq_eq_eq] using pointwise.imp fun item a => any_eq_done.1
  rw [same]
  exact .same _

end Reading

/-! ## Filters -/

mutual
theorem Filter.read_describe : ∀ filter : Filter, Filter.read filter.describe = done filter
  | ⟨field, operator, value, joining, none⟩ => by
    simp only [Filter.describe, Filter.read, Filter.readNested_eq, member, Members.get?, List.lookup_cons,
      String.reduceBEq, optional_ofText?, Joining.read, choice_name Joining.ofName?_name, Filter.readGroup]
    rfl
  | ⟨field, operator, value, joining, some filters⟩ => by
    simp only [Filter.describe, Filter.read, Filter.readNested_eq, member, Members.get?, List.lookup_cons,
      String.reduceBEq, optional_ofText?, Joining.read, choice_name Joining.ofName?_name, Filter.readGroup,
      Filter.readFrom_describeAll filters 0]
    rfl
termination_by structural filter => filter

theorem Filter.readFrom_describeAll :
    ∀ (filters : List Filter) (position : Nat), Filter.readFrom position (Filter.describeAll filters) = done filters
  | [], _ => rfl
  | filter :: rest, position => by
    rw [Filter.describeAll, Filter.readFrom, Filter.read_describe filter,
      Filter.readFrom_describeAll rest (position + 1)]
    rfl
termination_by structural filters => filters
end

theorem Filter.describeAll_eq_map (filters : List Filter) : Filter.describeAll filters = filters.map Filter.describe := by
  induction filters with
  | nil => rfl
  | cons filter rest ih => rw [Filter.describeAll, ih, List.map_cons]

theorem Filter.readAll_describeAll (filters : List Filter) :
    Filter.readAll (.list (Filter.describeAll filters)) = done filters := by
  rw [Filter.describeAll_eq_map]
  exact list_map Filter.read_describe filters

/-! ## The parts of a search -/

theorem ScopeCall.read_describe (call : ScopeCall) : ScopeCall.read call.describe = done call := by
  simp only [ScopeCall.describe, ScopeCall.read, object, required, member, Members.get?, List.lookup_cons, String.reduceBEq,
    list_any]
  rfl

theorem SortKey.read_describe (sort : SortKey) : SortKey.read sort.describe = done sort := by
  simp only [SortKey.describe, SortKey.read, object, required, member, Members.get?, List.lookup_cons, String.reduceBEq,
    choice_name Direction.ofName?_name]
  rfl

theorem Specification.readSelect_describeSelect (field : String) : readSelect (describeSelect field) = done field := rfl

theorem Aggregate.read_describe (aggregate : Aggregate) : Aggregate.read aggregate.describe = done aggregate := by
  simp only [Aggregate.describe, Aggregate.read, object, required, member, Members.get?, List.lookup_cons, String.reduceBEq,
    choice_name Measure.ofName?_name, optional_ofText?, Filter.readAll_describeAll]
  rfl

theorem Include.read_describe (item : Include) : Include.read item.describe = done item := by
  simp only [Include.describe, Include.read, object, required, member, Members.get?, List.lookup_cons, String.reduceBEq,
    Filter.readAll_describeAll, list_map ScopeCall.read_describe, list_map SortKey.read_describe,
    list_map Specification.readSelect_describeSelect, list_map Aggregate.read_describe, optional_describeLimit]
  rfl

/-- A specification is read again from its description. -/
theorem Specification.read_describe (spec : Specification) : read spec.describe = done spec := by
  simp only [describe, read, object, member, Members.get?, List.lookup_cons, String.reduceBEq, Filter.readAll_describeAll,
    list_map ScopeCall.read_describe, list_map SortKey.read_describe, list_map readSelect_describeSelect,
    list_map Aggregate.read_describe, list_map Include.read_describe, optional_describeLimit, integer]
  rfl

/-! ## What a description keeps -/

mutual
theorem Filter.keeps_of_read :
    ∀ (filter : Filter) {value : Json}, Filter.read value = done filter → value.Keeps filter.describe
  | ⟨field, operator, operand, joining, nested⟩, _, success => by
    obtain ⟨members, rfl, fieldRead, operatorRead, operandRead, joiningRead, nestedRead⟩ := Filter.read_eq_done success
    have ofField := keeps_of_member fieldRead keeps_of_optional_text
    have ofOperator := keeps_of_member operatorRead keeps_of_text
    have ofOperand := keeps_of_member operandRead keeps_of_any
    have ofJoining := keeps_of_member joiningRead (keeps_of_choice Joining.name_of_ofName?)
    rw [Filter.readNested_eq] at nestedRead
    cases nested with
    | none =>
      have ofNested (before : Json) (present : Members.get? members "nested" = some before) : before.Keeps .null := by
        rw [present] at nestedRead
        rcases Filter.readGroup_eq_done (below_eq_done.1 nestedRead) with ⟨rfl, -⟩ | ⟨_, _, -, grouped, -⟩
        · exact .same .null
        · cases grouped
      rw [Filter.describe]
      refine Json.keeps_object ?_
      simpa using ⟨ofField, ofOperator, ofOperand, ofJoining, ofNested⟩
    | some filters =>
      have ofNested (before : Json) (present : Members.get? members "nested" = some before) :
          before.Keeps (.list (Filter.describeAll filters)) := by
        rw [present] at nestedRead
        rcases Filter.readGroup_eq_done (below_eq_done.1 nestedRead) with ⟨-, grouped⟩ | ⟨_, _, rfl, grouped, each⟩
        · cases grouped
        · cases grouped
          exact .list (Filter.keepAll_of_read filters each)
      rw [Filter.describe]
      refine Json.keeps_object ?_
      simpa using ⟨ofField, ofOperator, ofOperand, ofJoining, ofNested⟩
termination_by structural filter => filter

theorem Filter.keepAll_of_read : ∀ (filters : List Filter) {items : List Json},
    List.Forall₂ (fun item filter => Filter.read item = done filter) items filters →
      List.Forall₂ Json.Keeps items (Filter.describeAll filters)
  | [], _, each => by
    cases each
    exact .nil
  | filter :: rest, _, each => by
    cases each with
    | cons here later => exact .cons (Filter.keeps_of_read filter here) (Filter.keepAll_of_read rest later)
termination_by structural filters => filters
end

theorem Filter.keeps_of_readAll {filters : List Filter} (value : Json) (success : Filter.readAll value = done filters) :
    value.Keeps (.list (Filter.describeAll filters)) := by
  obtain ⟨items, rfl, each⟩ := list_eq_done success
  exact .list (Filter.keepAll_of_read filters each)

theorem ScopeCall.keeps_of_read (value : Json) (call : ScopeCall) (success : ScopeCall.read value = done call) :
    value.Keeps call.describe := by
  obtain ⟨members, rfl, parts⟩ := object_eq_done.1 success
  simp only [seq_eq_done, map_eq_done] at parts
  obtain ⟨_, ⟨name, nameRead, rfl⟩, parameters, parametersRead, rfl⟩ := parts
  refine Json.keeps_object ?_
  simpa using ⟨keeps_of_required nameRead keeps_of_text, keeps_of_member parametersRead keeps_of_any_list⟩

theorem SortKey.keeps_of_read (value : Json) (sort : SortKey) (success : SortKey.read value = done sort) :
    value.Keeps sort.describe := by
  obtain ⟨members, rfl, parts⟩ := object_eq_done.1 success
  simp only [seq_eq_done, map_eq_done] at parts
  obtain ⟨_, ⟨field, fieldRead, rfl⟩, direction, directionRead, rfl⟩ := parts
  refine Json.keeps_object ?_
  simpa using ⟨keeps_of_required fieldRead keeps_of_text,
    keeps_of_member directionRead (keeps_of_choice Direction.name_of_ofName?)⟩

theorem Specification.keeps_of_readSelect (value : Json) (field : String) (success : readSelect value = done field) :
    value.Keeps (describeSelect field) := by
  obtain ⟨members, rfl, fieldRead⟩ := object_eq_done.1 success
  refine Json.keeps_object ?_
  simpa using keeps_of_required fieldRead keeps_of_text

theorem Aggregate.keeps_of_read (value : Json) (aggregate : Aggregate) (success : Aggregate.read value = done aggregate) :
    value.Keeps aggregate.describe := by
  obtain ⟨members, rfl, parts⟩ := object_eq_done.1 success
  simp only [seq_eq_done, map_eq_done] at parts
  obtain ⟨_, ⟨_, ⟨_, ⟨relation, relationRead, rfl⟩, measure, measureRead, rfl⟩, field, fieldRead, rfl⟩, filters,
    filtersRead, rfl⟩ := parts
  refine Json.keeps_object ?_
  simpa using ⟨keeps_of_required relationRead keeps_of_text,
    keeps_of_required measureRead (keeps_of_choice Measure.name_of_ofName?),
    keeps_of_member fieldRead keeps_of_optional_text, keeps_of_member filtersRead Filter.keeps_of_readAll⟩

theorem Include.keeps_of_read (value : Json) (item : Include) (success : Include.read value = done item) :
    value.Keeps item.describe := by
  obtain ⟨members, rfl, parts⟩ := object_eq_done.1 success
  simp only [seq_eq_done, map_eq_done] at parts
  obtain ⟨_, ⟨_, ⟨_, ⟨_, ⟨_, ⟨_, ⟨relation, relationRead, rfl⟩, filters, filtersRead, rfl⟩, scopes, scopesRead, rfl⟩,
    sorts, sortsRead, rfl⟩, selects, selectsRead, rfl⟩, aggregates, aggregatesRead, rfl⟩, limit, limitRead, rfl⟩ := parts
  refine Json.keeps_object ?_
  simpa using ⟨keeps_of_required relationRead keeps_of_text, keeps_of_member filtersRead Filter.keeps_of_readAll,
    keeps_of_member scopesRead (keeps_of_list ScopeCall.keeps_of_read),
    keeps_of_member sortsRead (keeps_of_list SortKey.keeps_of_read),
    keeps_of_member selectsRead (keeps_of_list Specification.keeps_of_readSelect),
    keeps_of_member aggregatesRead (keeps_of_list Aggregate.keeps_of_read),
    keeps_of_member limitRead keeps_of_optional_integer⟩

theorem Specification.keeps_of_read {value : Json} {spec : Specification} (success : read value = done spec) :
    value.Keeps spec.describe := by
  obtain ⟨members, rfl, parts⟩ := object_eq_done.1 success
  simp only [seq_eq_done, map_eq_done] at parts
  obtain ⟨_, ⟨_, ⟨_, ⟨_, ⟨_, ⟨_, ⟨_, ⟨filters, filtersRead, rfl⟩, scopes, scopesRead, rfl⟩, sorts, sortsRead, rfl⟩,
    selects, selectsRead, rfl⟩, aggregates, aggregatesRead, rfl⟩, includes, includesRead, rfl⟩, limit, limitRead, rfl⟩,
    page, pageRead, rfl⟩ := parts
  refine Json.keeps_object ?_
  simpa using ⟨keeps_of_member filtersRead Filter.keeps_of_readAll,
    keeps_of_member scopesRead (keeps_of_list ScopeCall.keeps_of_read),
    keeps_of_member sortsRead (keeps_of_list SortKey.keeps_of_read),
    keeps_of_member selectsRead (keeps_of_list keeps_of_readSelect),
    keeps_of_member aggregatesRead (keeps_of_list Aggregate.keeps_of_read),
    keeps_of_member includesRead (keeps_of_list Include.keeps_of_read),
    keeps_of_member limitRead keeps_of_optional_integer, keeps_of_member pageRead fun value given => .integer given⟩

/-! ## Reading again -/

/-- Writing out a specification that was read loses nothing: the description, which has every field, is read as the very
same specification, and it says all that the first document says where this has a meaning. -/
theorem Specification.reads_again {value : Json} {spec : Specification} (accepted : read value = done spec) :
    read spec.describe = done spec ∧ value.Keeps spec.describe :=
  ⟨read_describe spec, keeps_of_read accepted⟩

namespace Search.Lenient

/-- A group of filters, an include with filters and an aggregate of its own, and integers in three forms. -/
def body : Json := .object [
  ("filters", .list [.object [("type", .text "or"), ("nested", .list [
    .object [("field", .text "number"), ("operator", .text ">"), ("value", .double (.ofInt 2))],
    .object [("field", .text "name"), ("value", .list [.null]), ("nested", .null), ("type", .text "or")]])]]),
  ("scopes", .list [.object [("name", .text "popular"), ("parameters", .list [.int 1])]]),
  ("includes", .list [.object [("relation", .text "comments"), ("limit", .text " +1_0.0 "),
    ("filters", .list [.object [("field", .text "id"), ("value", .int 1)]]),
    ("aggregates", .list [.object [("relation", .text "author"), ("type", .text "count"), ("field", .null)]]),
    ("includes", .null)]]),
  ("limit", .double (.ofInt 25)), ("page", .bool true), ("colour", .text "red")]

def spec : Specification where
  filters := [
    { joining := .or, nested := some [
        { field := some "number", operator := ">", value := .double (.ofInt 2) },
        { field := some "name", value := .list [.null], joining := .or }] }]
  scopes := [⟨"popular", [.int 1]⟩]
  includes := [
    { relation := "comments", filters := [{ field := some "id", value := .int 1 }],
      aggregates := [{ relation := "author", measure := .count }], limit := some 10 }]
  limit := some 25

theorem reads_again_lenient :
    Specification.read body = done spec ∧ Specification.read spec.describe = done spec ∧ body.Keeps spec.describe := by
  have accepted : Specification.read body = done spec := rfl
  exact ⟨accepted, Specification.reads_again accepted⟩

end Search.Lenient

end ResourceApi
