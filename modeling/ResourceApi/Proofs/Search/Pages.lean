import Mathlib
import ResourceApi.Proofs.Search.Returned

/-!
The pages of a search. Every page holds the records that stand at its places among all that the search finds, the total
is their number, and the pages one after the other list each of them once.
-/

namespace ResourceApi

open Outcome

/-- Fields that a search shows in the records of its page: they are asked for, and no include puts records under them. -/
def Specification.Shows (resource : Resource) (spec : Specification) (fields : List String) : Prop :=
  ∀ name ∈ fields, name ∈ Plan.askedFields resource spec.selects ∧
    ∀ path ∈ Plan.includePaths spec.includes, Path.splitLast path ≠ ("", name)

/-- A search without scopes that asks for pages of a size, by the limit or by the default one where there is no limit. -/
structure Specification.Asks (resource : Resource) (filters : List Filter) (sorts : List SortKey) (size : Int)
    (spec : Specification) : Prop where
  scopes : spec.scopes = []
  filters : spec.filters = filters
  sorts : spec.sorts = sorts
  size : spec.limit = some size ∨ spec.limit = none ∧ resource.defaultLimit.integer? = some size

namespace Search

/-- A search that was accepted, and the result that it brought from a database. -/
inductive Returned (graph : Graph) (resource : Resource) (database : Database) : Specification → SearchResult → Prop
  | intro {context : Context} {name : String} {body : Json} {spec : Specification} {work after : Work}
      {result : SearchResult} (known : context.graph = graph) (named : graph.get? name = some resource)
      (accepted : validate graph resource body = .ok spec) (stored : work.database = database)
      (ran : (Operations.search context name body).runOn work = (.ok result, after)) :
      Returned graph resource database spec result

section Executed

variable {graph : Graph} {resource : Resource} (named : graph.get? resource.name = some resource) {body : Json}
  {spec : Specification} (accepted : validate graph resource body = .ok spec) {plan : Plan}
  (compiled : Plan.compile graph resource spec = .ok plan) {database : Database}
include named accepted compiled

/-- Without policies, a search comes to what its plan comes to. -/
theorem search_of_execute {outcome : Except Failure SearchResult} (executed : (plan.execute.runOn {
      database
      events := [.compiled resource.name plan.limit plan.pageNumber (plan.includes.map (·.path))] }).1 = outcome) :
    ((Operations.search { graph } resource.name body).runOn { database }).1 = outcome := by
  have known (work : Work) : (Job.resource { graph } resource.name).runOn work = (.ok resource, work) := by
    simp [Job.resource, named]
  rcases executing : plan.execute.runOn {
    database, events := [.compiled resource.name plan.limit plan.pageNumber (plan.includes.map (·.path))] } with
    ⟨given, after⟩
  rw [executing] at executed
  subst executed
  simp only [Operations.search, Job.bind_runOn, known, Job.authorize_open, Job.of_runOn, accepted, compiled,
    Job.tell_runOn, List.nil_append, executing]
  cases given <;> rfl

/-- A search whose plan, once executed on a database, gives a result. -/
theorem Returned.of_execute {result : SearchResult} (executed : (plan.execute.runOn {
      database
      events := [.compiled resource.name plan.limit plan.pageNumber (plan.includes.map (·.path))] }).1 = .ok result) :
    Returned graph resource database spec result :=
  .intro rfl named accepted rfl (Prod.ext (search_of_execute named accepted compiled executed) rfl)

end Executed

theorem Returned.member {graph : Graph} {resource : Resource} {database : Database} {spec : Specification}
    {result : SearchResult} (returned : Returned graph resource database spec result) : resource ∈ graph.resources := by
  obtain ⟨-, named, -⟩ := returned
  exact List.mem_of_find?_eq_some named

/-- A search that returned was compiled, and its plan executed. -/
theorem Returned.planned {graph : Graph} {resource : Resource} {database : Database} {spec : Specification}
    {result : SearchResult} (returned : Returned graph resource database spec result) :
    ∃ plan started finished, Plan.compile graph resource spec = .ok plan ∧
      plan.execute.runOn started = (.ok result, finished) ∧ started.database = database := by
  obtain ⟨rfl, named, accepted, stored, ran⟩ := returned
  obtain ⟨plan, started, finished, made, executed, same⟩ := Operations.search_eq_ok ran named accepted
  exact ⟨plan, started, finished, made, executed, same.trans stored⟩

end Search

namespace Plan

variable {graph : Graph} {resource : Resource} {spec : Specification} {plan : Plan}

theorem limit_of_asks (compiled : Compiled graph resource spec plan) {filters : List Filter} {sorts : List SortKey}
    {size : Int} (asks : spec.Asks resource filters sorts size) (positive : 0 < size) : plan.limit = size := by
  have sized := compiled.limit
  rcases asks.size with asked | ⟨absent, default⟩
  · rw [asked] at sized
    unfold pageLimit at sized
    split at sized
    · next zero =>
      cases zero
      exact absurd positive (lt_irrefl _)
    · next none => cases none
    · next limit _ same =>
      cases same
      cases sized
      rfl
  · rw [absent] at sized
    simp only [pageLimit, default] at sized
    exact (Except.ok.inj sized).symm

/-- No step of a plan puts anything under a name that no include of the root ends in. -/
theorem not_puts (compiled : Compiled graph resource spec plan) {name : String}
    (unput : ∀ path ∈ includePaths spec.includes, Path.splitLast path ≠ ("", name)) : ¬Puts plan.includes "" name := by
  rintro ⟨step, inside, starts, rfl⟩
  obtain ⟨hops, shown, aggregates, walked, loaded, -⟩ := compiled.hops
  obtain ⟨hop, among, made⟩ := forall₂_mem_right loaded inside
  obtain ⟨-, sameParent, sameName, -⟩ := step_of_loadHop made
  obtain ⟨present, cut⟩ := start_of_includeHops walked hop among
  have root : start hop.step = "" := by
    rw [← starts, start, start, sameParent]
  rw [root, ← sameName] at cut
  exact unput _ present cut

/-- No step of a plan puts anything under a field that the search shows. -/
theorem not_puts_of_shows (compiled : Compiled graph resource spec plan) {fields : List String}
    (shows : spec.Shows resource fields) {name : String} (listed : name ∈ fields) : ¬Puts plan.includes "" name :=
  not_puts compiled (shows name listed).2

theorem shows_of_kept {table : Table} {fields : List String} {record : Row} {changed : String → Prop} {old new : Loaded}
    (shows : table.Shows fields record old.row) (kept : old.Kept changed new)
    (unchanged : ∀ name ∈ fields, ¬changed name) : table.Shows fields record new.row := by
  intro name listed
  obtain ⟨value, shown, found⟩ := shows name listed
  exact ⟨value, shown, (kept.2 name (unchanged name listed)).trans found⟩

/-- The rows of a query that shows columns of its first table show the records that its frames hold. -/
theorem shows_of_columns {query : Query} {selects required : List String} {shown aggregates : List Output}
    (made : columns resource 0 selects required = .ok shown) (outputs : query.outputs = shown ++ aggregates)
    {ground : Ground} {rows : List Members} (results : query.results ground = .ok rows) {fields : List String}
    (asked : ∀ name ∈ fields, name ∈ askedFields resource selects ∨ name ∈ required) :
    List.Forall₂ (resource.table.Shows fields) ((query.frames ground).map (·.getD 0 [])) rows := by
  obtain ⟨given, nodup⟩ := Query.gives_of_results results
  rw [List.forall₂_map_left_iff]
  cases rows with
  | nil =>
    rw [List.forall₂_nil_right_iff.1 given]
    exact .nil
  | cons first rest =>
    refine given.imp fun frame row gives => shows_of_gives gives (nodup (List.cons_ne_nil first rest)) ?_
    intro name listed
    rw [outputs]
    exact List.mem_append_left _ (mem_columns made (asked name listed))

/-- The rows of the query of a plan show the records that its frames hold. -/
theorem shows_of_results (compiled : Compiled graph resource spec plan) {ground : Ground} {rows : List Members}
    (results : plan.page.results ground = .ok rows) {fields : List String}
    (asked : ∀ name ∈ fields, name ∈ askedFields resource spec.selects) :
    List.Forall₂ (resource.table.Shows fields) ((plan.page.frames ground).map (·.getD 0 [])) rows := by
  obtain ⟨hops, shown, aggregates, -, -, made, outputs⟩ := compiled.hops
  exact shows_of_columns made outputs results fun name listed => .inl (asked name listed)

/-- The records of the page, once everything is loaded, still show what their query gave. -/
theorem shows_of_execute (compiled : Compiled graph resource spec plan) {work after : Work} {result : SearchResult}
    (ran : plan.execute.runOn work = (.ok result, after)) {fields : List String} (shows : spec.Shows resource fields) :
    List.Forall₂ (resource.table.Shows fields)
      ((plan.page.frames (ground work.database [])).map (·.getD 0 [])) result.rows := by
  obtain ⟨rows, shelf, results, loaded, rfl⟩ := execute_eq_ok ran
  have given := shows_of_results compiled results fun name listed => (shows name listed).1
  rw [List.forall₂_map_right_iff]
  have kept : List.Forall₂ (Loaded.Kept (Puts plan.includes "")) (rows.map (⟨·, 0⟩)) (rowsAt shelf "") :=
    kept_of_grown (loadAll_grown loaded) ""
  refine forall₂_trans given (List.forall₂_map_left_iff.1 kept) fun record row loaded shown same => ?_
  exact shows_of_kept shown same fun name listed => not_puts_of_shows compiled shows listed

end Plan

namespace Search

section Pages

variable {graph : Graph} {resource : Resource} {database : Database} {filters : List Filter} {sorts : List SortKey}
  {size : Int}

private theorem length_page {count page size : Int} (atLeast : 1 ≤ page) (positive : 0 < size) {found : List Row}
    (counted : count = ((found.drop ((page - 1) * size).toNat).take size.toNat).length) :
    (page - 1) * size + count < found.length ↔ page * size < found.length := by
  have before : 0 ≤ (page - 1) * size := Int.mul_nonneg (by omega) (by omega)
  have upTo : page * size = (page - 1) * size + size := by rw [Int.sub_mul, Int.one_mul, Int.sub_add_cancel]
  rw [List.length_take, List.length_drop] at counted
  omega

/-- The result of a search is the page of the records found that it asks for. -/
theorem page_of_returned (sound : graph.Sound) (positive : 0 < size) {spec : Specification} {result : SearchResult}
    (returned : Returned graph resource database spec result) (asks : spec.Asks resource filters sorts size) :
    result.total = (graph.found database.rows resource filters sorts).length ∧
      (∀ fields, spec.Shows resource fields →
        List.Forall₂ (resource.table.Shows fields)
          (((graph.found database.rows resource filters sorts).drop ((max spec.page 1 - 1) * size).toNat).take size.toNat)
          result.rows) ∧
      (result.hasNext = true ↔ max spec.page 1 * size < (graph.found database.rows resource filters sorts).length) := by
  have member := returned.member
  obtain ⟨plan, started, finished, made, executed, rfl⟩ := returned.planned
  have compiled := Plan.compiled_of_eq_ok made
  obtain rfl := Plan.limit_of_asks compiled asks positive
  obtain ⟨rfl, rfl⟩ : filters = spec.filters ∧ sorts = spec.sorts := ⟨asks.filters.symm, asks.sorts.symm⟩
  have counted := Plan.total_of_execute sound member compiled asks.scopes executed
  have shown (fields : List String) (shows : spec.Shows resource fields) := Plan.shows_of_execute compiled executed shows
  have frames : (plan.page.frames (Plan.ground started.database [])).map (·.getD 0 []) =
      ((graph.found started.database.rows resource spec.filters spec.sorts).drop plan.offset.toNat).take plan.limit.toNat :=
    Plan.page_frames sound member compiled asks.scopes positive
  rw [frames, compiled.offset, compiled.pageNumber] at shown
  have length := congrArg Int.ofNat (shown [] (List.forall_mem_nil _)).length_eq
  obtain ⟨rows, shelf, -, -, rfl⟩ := Plan.execute_eq_ok executed
  refine ⟨counted, shown, ?_⟩
  dsimp only at counted
  rw [SearchResult.hasNext, decide_eq_true_iff, compiled.offset, compiled.pageNumber, counted]
  exact length_page (le_max_right _ _) positive length.symm

end Pages

/-! ### Records with one title -/

namespace Tied

def table : Table := ⟨"tasks", [
  { name := "id", type := .integer, isKey := true, isNullable := false }, { name := "title", type := .string }]⟩

def schema : Schema := { tables := [table] }

def declaration : ResourceDeclaration where
  name := "Task"
  table := table
  options := [("fields", .list [.text "id", .text "title"]), ("limits", .list [.int 2])]
  scopes := []
  relations := []

def task : Resource where
  name := "Task"
  table := table
  key := "id"
  fields := ["id", "title"]
  scopes := []
  limits := [.int 2]
  defaultLimit := .int 50
  defaultOrder := [("id", .desc)]
  relations := []
  fillable := ["title"]
  softDeletes := .bool false
  deletedAt := none
  morphAlias := .text "tasks"
  gates := true

def graph : Graph := ⟨[task]⟩

theorem graph_of_declaration : Graph.build schema [declaration] = .ok graph := rfl

def row (id : Int) (title : String) : Row := [("id", .int id), ("title", .text title)]

def shown (id : Int) (title : String) : Members := [("id", .int id), ("title", .text title)]

/-- Three records, two of which have one title. -/
def database : Database := ⟨[⟨table, [row 1 "b", row 2 "a", row 3 "a"]⟩]⟩

def byTitle : List SortKey := [{ field := "title" }]

/-- A body that asks for a page of two records by their titles. -/
def body (page : Int) : Json :=
  .object [("sorts", .list [.object [("field", .text "title")]]), ("limit", .int 2), ("page", .int page)]

def spec (page : Int) : Specification := { sorts := byTitle, limit := some 2, page }

def plan (page : Int) : Plan where
  resource := task
  page := {
    outputs := [.column ⟨0, 0, "id", .integer⟩ none, .column ⟨0, 0, "title", .string⟩ none]
    source := .table "tasks"
    aliased := false
    conditions := []
    order := [(⟨0, 0, "title", .string⟩, .asc), (⟨0, 0, "id", .integer⟩, .asc)]
    page := some (2, (max page 1 - 1) * 2) }
  counted := []
  key := ⟨0, 0, "id", .integer⟩
  limit := 2
  pageNumber := max page 1
  offset := (max page 1 - 1) * 2
  includes := []

private theorem plan_of_spec (page : Int) : Plan.compile graph task (spec page) = .ok (plan page) := by
  have none : Plan.includePaths (spec page).includes = [] := by cbv
  rw [Plan.compile, none]
  rfl

end Tied

end Search

end ResourceApi
