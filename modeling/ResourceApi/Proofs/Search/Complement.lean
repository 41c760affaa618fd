import ResourceApi.Proofs.Search.Carried
import ResourceApi.Proofs.Search.Measured

/-!
Comparisons that part the records between them. Each comparison has one that is met exactly where it is not, as far as
what is compared is known; so the records of two searches by such filters are the visible ones, each found once.
-/

namespace ResourceApi

open Outcome Query

/-! ## Comparisons -/

theorem Truth.negate_negate (truth : Truth) : truth.negate.negate = truth := by
  rcases truth with _ | _ | _ <;> rfl

/-- What is known not to be met is met the other way round. -/
theorem Truth.holds_negate {truth : Truth} (known : truth ≠ none) : holds truth.negate = !holds truth := by
  rcases truth with _ | _ | _
  · exact absurd rfl known
  · rfl
  · rfl

theorem Truth.either_ne_none {first second : Truth} (known : first ≠ none) (knownToo : second ≠ none) :
    first.either second ≠ none := by
  rcases first with _ | _ | _ <;> rcases second with _ | _ | _ <;> simp_all [either]

namespace Comparison

/-- The comparison that is met where another one is not. -/
def complement : Comparison → Comparison
  | equal => notEqual
  | notEqual => equal
  | greater => atMost
  | atMost => greater
  | atLeast => less
  | less => atLeast
  | like => notLike
  | notLike => like
  | isIn => notIn
  | notIn => isIn

/-- The cells that the cell of a column is compared with, none where it is asked whether that is null. -/
def operands (comparison : Comparison) (type : ColumnType) (value : Json) : List Cell :=
  match comparison, value with
  | .equal, .null | .notEqual, .null => []
  | .isIn, value | .notIn, value => candidates type value
  | _, value => [Bound.cell ⟨BindType.compared type value, value⟩]

variable {comparison : Comparison} {affinity : Affinity} {cell : Cell} (present : cell ≠ .null)
include present

/-- The comparison of two cells that are not null has an outcome. -/
theorem compare_ne_none {operand : Cell} (known : operand ≠ .null) :
    Query.compare comparison affinity cell operand ≠ none := by
  have likened : cell.like? operand ≠ none := by
    cases cell <;> cases operand <;> simp_all [Cell.like?, Cell.text?]
  cases comparison with
  | like => exact likened
  | notLike => simpa [Query.compare, Truth.negate] using likened
  | _ => simp [Query.compare, present, known]

/-- Cells that are not null compare in one of two ways. -/
theorem compare_complement {operand : Cell} (known : operand ≠ .null) (single : comparison ∉ [isIn, notIn]) :
    Query.compare comparison.complement affinity cell operand =
      Truth.negate (Query.compare comparison affinity cell operand) := by
  cases comparison with
  | like => rfl
  | notLike => exact (Truth.negate_negate _).symm
  | isIn | notIn => simp at single
  | _ =>
    simp only [complement, Query.compare, present, known, Truth.negate]
    cases Cell.orderFor affinity cell operand <;> rfl

/-- Whether a cell is among others is known where none is null. -/
theorem among_ne_none {operands : List Cell} (known : ∀ operand ∈ operands, operand ≠ .null) :
    among affinity cell operands ≠ none := by
  unfold among
  induction operands with
  | nil => exact Option.some_ne_none false
  | cons operand rest ih =>
    obtain ⟨here, later⟩ := List.forall_mem_cons.1 known
    rw [List.map_cons, Truth.any_cons]
    exact Truth.either_ne_none (compare_ne_none present here) (ih later)

variable {type : ColumnType} {value : Json} (known : ∀ operand ∈ comparison.operands type value, operand ≠ .null)
include known

theorem outcome_ne_none : comparison.outcome type cell value ≠ none := by
  have compared (operand : Cell) := @compare_ne_none comparison type.affinity cell present operand
  cases comparison with
  | isIn => exact among_ne_none present known
  | notIn => exact mt Option.map_eq_none_iff.1 (among_ne_none present known)
  | equal | notEqual =>
    cases value with
    | null => exact Option.some_ne_none _
    | _ => exact compared _ (known _ List.mem_cons_self)
  | _ => exact compared _ (known _ List.mem_cons_self)

theorem outcome_complement :
    comparison.complement.outcome type cell value = Truth.negate (comparison.outcome type cell value) := by
  have compared (operand : Cell) := @compare_complement comparison type.affinity cell present operand
  cases comparison with
  | isIn => rfl
  | notIn => exact (Truth.negate_negate _).symm
  | equal | notEqual =>
    cases value with
    | null => cases cell <;> rfl
    | _ => exact compared _ (known _ List.mem_cons_self) (by decide)
  | _ => exact compared _ (known _ List.mem_cons_self) (by decide)

/-- Of a comparison and its complement one is met, and not the other. -/
theorem holds_complement :
    Truth.holds (comparison.complement.outcome type cell value) = !Truth.holds (comparison.outcome type cell value) := by
  rw [outcome_complement present known, Truth.holds_negate (outcome_ne_none present known)]

end Comparison

/-! ## Filters -/

section Filters

variable {graph : Graph} {resource : Resource} {rows : String → List Row} {field : String} (own : Path.IsPlain field)
  {comparison : Comparison} {value : Json}
  (known : ∀ operand ∈ comparison.operands (resource.table.ref 0 0 field).type value, operand ≠ .null)
  (joining joiningToo : Joining)
include own

theorem Graph.admits_own (record : Row) :
    graph.admits rows resource [⟨some field, comparison.symbol, value, joining, none⟩] record =
      Truth.holds (comparison.outcome (resource.table.ref 0 0 field).type (record.cell field) value) := by
  simp only [admits_leaf, compares, Comparison.ofSymbol?_symbol, Path.points_of_isPlain own, if_true]

include known

/-- A record with a value in a field is admitted by one of two complementary filters. -/
theorem Graph.admits_complement {record : Row} (present : record.cell field ≠ .null) :
    graph.admits rows resource [⟨some field, comparison.complement.symbol, value, joiningToo, none⟩] record =
      !graph.admits rows resource [⟨some field, comparison.symbol, value, joining, none⟩] record := by
  rw [admits_own own, admits_own own, Comparison.holds_complement present known]

end Filters

/-- A result whose total counts the records that a search finds, and whose rows show some of them. -/
structure Graph.Answers (graph : Graph) (rows : String → List Row) (resource : Resource) (spec : Specification)
    (result : SearchResult) : Prop where
  total : result.total = (graph.found rows resource spec.filters spec.sorts).length
  rows : ∀ fields, spec.Shows resource fields → ∀ row ∈ result.rows,
    ∃ record ∈ graph.found rows resource spec.filters spec.sorts, resource.table.Shows fields record row

namespace Search

variable {graph : Graph} {resource : Resource} {database : Database}

/-- A search without scopes that returned answers with what it finds. -/
theorem Returned.answers (sound : graph.Sound) {spec : Specification}
    (noScopes : spec.scopes = []) {result : SearchResult} (returned : Returned graph resource database spec result) :
    graph.Answers database.rows resource spec result := by
  obtain ⟨plan, started, finished, made, executed, rfl⟩ := returned.planned
  have member := returned.member
  have compiled := Plan.compiled_of_eq_ok made
  refine ⟨Plan.total_of_execute sound member compiled noScopes executed, fun fields shows row listed => ?_⟩
  obtain ⟨record, inside, shown⟩ := forall₂_mem_right (Plan.shows_of_execute compiled executed shows) listed
  obtain ⟨frame, among, rfl⟩ := List.mem_map.1 inside
  have isFound := Plan.mem_found_of_frames sound member compiled noScopes among
  exact ⟨_, isFound, shown⟩

/-- Two searches by complementary filters on a field part the visible records with a value in it between them, each record
being found by one, as long as no value that they compare with is null. -/
theorem parts_of_complement {schema : Schema} {declarations : List ResourceDeclaration}
    (built : Graph.build schema declarations = .ok graph) {field : String} (own : Path.IsPlain field)
    {comparison : Comparison} {value : Json}
    (known : ∀ operand ∈ comparison.operands (resource.table.ref 0 0 field).type value, operand ≠ .null)
    {first second : Specification} {joining joiningToo : Joining}
    (filtered : first.filters = [⟨some field, comparison.symbol, value, joining, none⟩])
    (filteredToo : second.filters = [⟨some field, comparison.complement.symbol, value, joiningToo, none⟩])
    (noScopes : first.scopes = []) (noScopesToo : second.scopes = []) {result resultToo : SearchResult}
    (returned : Returned graph resource database first result)
    (returnedToo : Returned graph resource database second resultToo) :
    let visible := (database.rows resource.table.name).filter fun record =>
      resource.isLive record && record.cell field != .null
    let found (spec : Specification) := graph.found database.rows resource spec.filters spec.sorts
    (∀ record ∈ visible, record ∈ found first ↔ record ∉ found second) ∧
      ((found first ++ found second).filter fun record => record.cell field != .null).Perm visible ∧
      graph.Answers database.rows resource first result ∧ graph.Answers database.rows resource second resultToo := by
  intro visible found
  have sound := Graph.sound_of_build built
  have parts (record : Row) (present : record.cell field ≠ .null) :
      graph.admits database.rows resource second.filters record =
        !graph.admits database.rows resource first.filters record := by
    rw [filtered, filteredToo, Graph.admits_complement own known joining joiningToo present]
  refine ⟨fun record inside => ?_, ?_, returned.answers sound noScopes, returnedToo.answers sound noScopesToo⟩
  · obtain ⟨listed, both⟩ := List.mem_filter.1 inside
    simp only [Bool.and_eq_true, bne_iff_ne] at both
    simp only [found, Graph.mem_found, listed, both.1, parts record both.2, true_and, Bool.not_eq_true', Bool.not_eq_false]
  · have within (spec : Specification) : ((found spec).filter fun record => record.cell field != .null).Perm
        (visible.filter (graph.admits database.rows resource spec.filters)) := by
      refine ((inOrder_perm _ _).filter _).trans (List.Perm.of_eq ?_)
      rw [List.filter_filter, List.filter_filter]
      exact List.filter_congr fun record _ => by
        cases resource.isLive record <;> cases record.cell field != .null <;> simp
    have others : visible.filter (graph.admits database.rows resource second.filters) =
        visible.filter fun record => !graph.admits database.rows resource first.filters record :=
      List.filter_congr fun record inside => parts record <| by
        simpa using (Bool.and_eq_true_iff.1 (List.mem_filter.1 inside).2).2
    rw [List.filter_append]
    refine ((within first).append (within second)).trans ?_
    rw [others]
    exact List.filter_append_perm _ _

/-! ### One of two people -/

namespace Parted

/-- A body that asks for people whose number stands in a relation to a value. -/
def body (operator : String) (value : Json) : Json :=
  .object [("filters", .list [.object [("field", .text "id"), ("operator", .text operator), ("value", value)]])]

def spec (operator : String) (value : Json) : Specification := { filters := [⟨some "id", operator, value, .and, none⟩] }

def plan (condition : Cond) : Plan where
  resource := Family.person
  page := {
    outputs := [.column Family.id none]
    source := .table "people"
    aliased := false
    conditions := Cond.conjuncts [condition]
    order := [(Family.id, .desc)]
    page := some (50, 0) }
  counted := Cond.conjuncts [condition]
  key := Family.id
  limit := 50
  pageNumber := 1
  offset := 0
  includes := []

def result (ids : List Int) : SearchResult where
  rows := ids.map fun id => [("id", .int id)]
  total := ids.length
  limit := 50
  page := 1
  offset := 0

private theorem returned {operator : String} {value : Json} (condition : Cond) {ids : List Int}
    (accepted : validate Family.graph Family.person (body operator value) = .ok (spec operator value))
    (filtered : Plan.filtersCondition Family.graph Family.person 0 (spec operator value).filters = .ok [condition])
    (executed : ((plan condition).execute.runOn {
      database := Family.database, events := [.compiled "Person" 50 1 []] }).1 = .ok (result ids)) :
    Returned Family.graph Family.person Family.database (spec operator value) (result ids) := by
  have none : Plan.includePaths (spec operator value).includes = [] := by cbv
  have made : Plan.compile Family.graph Family.person (spec operator value) = .ok (plan condition) := by
    rw [Plan.compile, none, filtered]
    rfl
  exact .of_execute rfl accepted made executed

def first : Bound := ⟨.integer, .int 1⟩

def null : Bound := ⟨.integer, .null⟩

/-- The first of two people is found by one search, and the second by the other. -/
theorem parts_of_first :
    ((Family.graph.found Family.database.rows Family.person (spec "in" (.list [.int 1])).filters [] ++
      Family.graph.found Family.database.rows Family.person (spec "not in" (.list [.int 1])).filters []).filter
        fun record => record.cell "id" != .null).Perm
      ((Family.database.rows "people").filter fun record => Family.person.isLive record && record.cell "id" != .null) := by
  have among : Returned Family.graph Family.person Family.database (spec "in" (.list [.int 1])) (result [1]) :=
    returned (.among Family.id [first]) rfl rfl (by cbv)
  have notAmong : Returned Family.graph Family.person Family.database (spec "not in" (.list [.int 1])) (result [2]) :=
    returned (.notAmong Family.id [first]) rfl rfl (by cbv)
  have known : ∀ operand ∈ Comparison.operands .isIn (Family.table.ref 0 0 "id").type (.list [.int 1]), operand ≠ .null :=
    List.forall_mem_singleton.2 (by decide)
  exact (parts_of_complement Family.graph_of_declaration (by decide) known rfl rfl rfl rfl among notAmong).2.1

/-- Values among which there is null. -/
def firstOrNull : Json := .list [.int 1, .null]

/-- With null among the values the second of two people is found by neither search. -/
theorem found_by_neither :
    Graph.build Family.schema [Family.declaration] = .ok Family.graph ∧
      Returned Family.graph Family.person Family.database (spec "in" firstOrNull) (result [1]) ∧
      Returned Family.graph Family.person Family.database (spec "not in" firstOrNull) (result []) ∧
      ∃ record ∈ Family.database.rows "people", Family.person.isLive record ∧ record.cell "id" ≠ .null ∧
        record ∉ Family.graph.found Family.database.rows Family.person (spec "in" firstOrNull).filters [] ∧
        record ∉ Family.graph.found Family.database.rows Family.person (spec "not in" firstOrNull).filters [] := by
  refine ⟨Family.graph_of_declaration, returned (.among Family.id [first, null]) rfl rfl (by cbv),
    returned (.notAmong Family.id [first, null]) rfl rfl (by cbv), Family.row 2 (.int 1), ?_, ?_⟩
  · exact List.mem_cons_of_mem _ List.mem_cons_self
  · simp only [Graph.mem_found]
    decide

end Parted

end Search

end ResourceApi
