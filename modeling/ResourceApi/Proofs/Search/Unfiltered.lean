import ResourceApi.Proofs.Search.Pages
import ResourceApi.Proofs.Session.Authorized

/-!
Searches that ask for a page and for nothing else. They see the records that are not deleted, and where these can be read
and shown they do return.
-/

namespace ResourceApi

open Outcome

/-- A search without scopes, filters, aggregates and includes. -/
structure Specification.IsPlain (spec : Specification) : Prop where
  scopes : spec.scopes = []
  filters : spec.filters = []
  aggregates : spec.aggregates = []
  includes : spec.includes = []

/-- Without filters all records are found that are not deleted. -/
theorem Graph.found_nil (graph : Graph) (rows : String → List Row) (resource : Resource) (sorts : List SortKey) :
    graph.found rows resource [] sorts =
      Query.inOrder (Plan.fullOrder resource sorts) ((rows resource.table.name).filter resource.isLive) := by
  have admits (record : Row) : graph.admits rows resource [] record = true := rfl
  simp only [Graph.found, admits, Bool.and_true]

/-- A list of which every item is taken well is taken as a whole. -/
theorem Outcome.exists_mapM {α β : Type} {f : α → Except Failure β} {items : List α}
    (each : ∀ item ∈ items, ∃ result, f item = .ok result) : ∃ results, items.mapM f = .ok results := by
  obtain ⟨results, taken⟩ := exists_forall₂ each
  exact ⟨results, mapM_eq_ok.2 taken⟩

/-- A query whose outputs have values, and bear different names, has a result. -/
theorem Query.exists_results {query : Query} {ground : Ground}
    (valued : ∀ frame ∈ query.frames ground, ∀ output ∈ query.outputs, ∃ value, outputValue ground frame output = .ok value)
    (distinct : (query.outputs.map Output.key).Nodup) : ∃ rows, query.results ground = .ok rows := by
  have none : repeatedKey? query.outputs = none := by
    refine List.find?_eq_none.2 fun key _ => ?_
    have once := List.nodup_iff_count_le_one.1 distinct key
    simpa using once
  obtain ⟨rows, found⟩ := exists_mapM
    (f := fun frame => query.outputs.mapM fun output => do return (output.key, ← outputValue ground frame output))
    fun frame inside => exists_mapM fun output listed => by
      obtain ⟨value, is⟩ := valued frame inside output listed
      exact ⟨(output.key, value), by rw [is]; rfl⟩
  refine ⟨rows, ?_⟩
  rw [results, found, ok_bind]
  split
  · next some => cases none.symm.trans some
  · rfl

namespace Plan

/-! ## Compiling -/

/-- The names under which a search shows the fields that it asks for. -/
def labels (resource : Resource) (selects : List String) : List String :=
  (labelled [] (askedFields resource selects)).map fun entry => entry.2.getD entry.1

/-- The columns of a search that needs no others than those it asks for. -/
def shownColumns (resource : Resource) (selects : List String) : List Output :=
  (labelled [] (askedFields resource selects)).map fun entry => .column (resource.table.ref 0 0 entry.1) entry.2

section Compile

variable {graph : Graph} {resource : Resource} (sound : resource.Sound graph)
include sound

theorem hasColumn_of_asked {selects : List String} (exposed : ∀ name ∈ selects, name ∈ resource.fields) :
    ∀ name ∈ askedFields resource selects, resource.table.hasColumn name := by
  intro name asked
  unfold askedFields at asked
  split at asked
  · exact sound.fields name asked
  · exact sound.fields name (exposed name asked)

theorem columns_eq {selects : List String} (exposed : ∀ name ∈ selects, name ∈ resource.fields) :
    columns resource 0 selects [] = .ok (shownColumns resource selects) := by
  refine mapM_eq_ok.2 (List.forall₂_map_right_iff.2 (List.forall₂_same.2 fun entry listed => ?_))
  have there := hasColumn_of_asked sound exposed entry.1 (mem_labelled listed)
  dsimp only
  rw [ownColumn_eq there]
  rfl

omit sound in
private theorem exists_listed {asked : List (String × Direction)}
    (present : ∀ entry ∈ asked, resource.table.hasColumn entry.1) : ∃ listed, asked.mapM (fun (name, direction) => do
      return (← ownColumn resource 0 name, direction)) = .ok listed := by
  refine exists_mapM fun entry listed => ?_
  dsimp only
  rw [ownColumn_eq (present entry listed)]
  exact ⟨_, rfl⟩

theorem exists_order (keyed : resource.table.hasColumn resource.key) {sorts : List SortKey}
    (exposed : ∀ sort ∈ sorts, sort.field ∈ resource.fields) : ∃ compiled, order resource 0 sorts = .ok compiled := by
  have asked (entry : String × Direction) (listed : entry ∈ askedOrder resource sorts) : resource.table.hasColumn entry.1 := by
    unfold askedOrder at listed
    split at listed
    · exact sound.ordered entry listed
    · obtain ⟨sort, given, rfl⟩ := List.mem_map.1 listed
      exact sound.fields _ (exposed sort given)
  obtain ⟨listed, made⟩ := exists_listed asked
  obtain ⟨key, found⟩ := Option.isSome_iff_exists.1 keyed
  have last : keyColumn resource 0 = .ok ⟨0, 0, resource.key, key.type⟩ := by rw [keyColumn, found]
  unfold order
  dsimp only
  rw [made, ok_bind, last]
  split <;> exact ⟨_, rfl⟩

/-- A search without scopes, filters, aggregates and includes is compiled to a page of the columns that it asks for. -/
theorem compile_of_isPlain (keyed : resource.table.hasColumn resource.key) {spec : Specification}
    (fits : spec.Fits graph resource) (plain : spec.IsPlain) {limit : Int} (sized : pageLimit resource spec.limit = .ok limit) :
    ∃ plan, compile graph resource spec = .ok plan ∧ plan.limit = limit ∧ plan.offset = (max spec.page 1 - 1) * limit ∧
      plan.includes = [] ∧ plan.page.outputs = shownColumns resource spec.selects ∧
      plan.counted = Cond.conjuncts (Related.alive resource 0) := by
  obtain ⟨key, found⟩ := Option.isSome_iff_exists.1 keyed
  obtain ⟨order, ordered⟩ := exists_order sound keyed fits.parts.sorts
  have last : keyColumn resource 0 = .ok ⟨0, 0, resource.key, key.type⟩ := by rw [keyColumn, found]
  have walked : includeHops graph resource (includePaths []) = .ok [] := by
    simp [includePaths, includeHops, pure_eq_ok]
  have shown : columns resource 0 spec.selects (requiredColumns [] none) = .ok (shownColumns resource spec.selects) :=
    columns_eq sound fits.parts.selects
  have scopes : scopeConditions resource 0 [] = .ok [] := rfl
  have filters : filtersCondition graph resource 0 [] = .ok [] := rfl
  unfold compile
  rw [plain.scopes, plain.filters, plain.aggregates, plain.includes, sized, ordered, last, scopes, filters, walked]
  simp only [ok_bind, shown, List.mapM_nil]
  refine ⟨_, rfl, rfl, rfl, rfl, List.append_nil _, ?_⟩
  simp only [List.nil_append, List.append_nil]

end Compile

/-! ## Running -/

/-- A page of columns whose cells can be shown, under different names, is taken. -/
theorem run_of_columns {query : Query} {limit offset : Int}
    (columns : ∀ output ∈ query.outputs, ∃ ref label, output = .column ref label) (some : query.outputs ≠ [])
    (source : ∃ name, query.source = .table name) (bounds : Query.allBounds query.conditions = [])
    (paged : query.page = .some (limit, offset)) (limited : Word.holds limit = true) (begun : Word.holds offset = true)
    {work : Work} {rows : List Members} (results : query.results (ground work.database []) = .ok rows) :
    (run query []).runOn work = (.ok rows, work) := by
  obtain ⟨name, source⟩ := source
  have ofOutputs : query.outputs.flatMap Query.outputBounds = [] := by
    refine List.flatMap_eq_nil_iff.2 fun output listed => ?_
    obtain ⟨ref, label, rfl⟩ := columns output listed
    rfl
  have all : query.bounds ++ [] = [⟨.integer, .int limit⟩, ⟨.integer, .int offset⟩] := by
    rw [Query.bounds, ofOutputs, source, bounds, paged]
    rfl
  have sound : isSound query = true := by
    obtain ⟨first, rest, outputs⟩ := List.exists_cons_of_ne_nil some
    obtain ⟨ref, label, rfl⟩ := columns first (outputs ▸ List.mem_cons_self)
    simp [isSound, Query.showsSource, outputs]
  have formed : [(⟨.integer, .int limit⟩ : Bound), ⟨.integer, .int offset⟩].mapM Bound.formed =
      .ok [.int limit, .int offset] := rfl
  have accepted : Bound.acceptAll [⟨.integer, .int limit⟩, ⟨.integer, .int offset⟩] = .ok () := by
    simp only [Bound.acceptAll, formed, ok_bind, List.forIn_cons, Cell.ofJson, limited, begun, if_true]
    rfl
  unfold run
  dsimp only
  rw [all, formed, accepted, sound]
  change (query.results (ground work.database []), work) = _
  rw [results]

theorem allBounds_alive (resource : Resource) : Query.allBounds (Cond.conjuncts (Related.alive resource 0)) = [] := by
  unfold Related.alive
  cases resource.deletedAt <;> rfl

theorem key_shownColumns (resource : Resource) (selects : List String) :
    (shownColumns resource selects).map Output.key = labels resource selects := by
  rw [shownColumns, labels, List.map_map]
  rfl

/-- A plan without includes is executed if its page is taken. -/
theorem execute_of_run {plan : Plan} (counted : Bound.acceptAll (Query.allBounds plan.counted) = .ok ())
    (includes : plan.includes = []) {work : Work} {rows : List Members}
    (ran : (run plan.page []).runOn work.start = (.ok rows, work.start)) :
    ∃ result, plan.execute.runOn work = (.ok result, work.start) := by
  have total : ∃ count, plan.total.runOn work.start = (.ok count, work.start) := by
    unfold Plan.total
    rw [counted]
    exact ⟨_, rfl⟩
  obtain ⟨count, total⟩ := total
  unfold execute
  rw [Job.bind_runOn, Job.modify_runOn]
  dsimp only
  rw [Job.bind_runOn, total]
  dsimp only
  rw [Job.bind_runOn, ran, includes]
  exact ⟨_, rfl⟩

end Plan

namespace Search

/-- A body that is accepted as a search for one page of all records, of a size and with a start that the storage takes, and
that shows its fields under different names. -/
structure AsksForPage (graph : Graph) (resource : Resource) (body : Json) (spec : Specification) (size : Int) : Prop where
  accepted : validate graph resource body = .ok spec
  plain : spec.IsPlain
  apart : (Plan.labels resource spec.selects).Nodup
  sized : spec.limit = some size ∨ spec.limit = none ∧ resource.defaultLimit.integer? = some size
  positive : 0 < size
  limited : Word.holds size = true
  begun : Word.holds ((max spec.page 1 - 1) * size) = true

/-- A search without filters and scopes that returns sees the live records of its page, and counts all of them. -/
theorem sees_live_of_returned {graph : Graph} (sound : graph.Sound) {resource : Resource} {database : Database}
    {spec : Specification} {result : SearchResult} (returned : Returned graph resource database spec result)
    {sorts : List SortKey} {size : Int} (positive : 0 < size) (asks : spec.Asks resource [] sorts size) :
    let live := Query.inOrder (Plan.fullOrder resource sorts) ((database.rows resource.table.name).filter resource.isLive)
    result.total = live.length ∧ ∀ fields, spec.Shows resource fields → List.Forall₂ (resource.table.Shows fields)
      ((live.drop ((max spec.page 1 - 1) * size).toNat).take size.toNat) result.rows := by
  have page := page_of_returned sound positive returned asks
  rw [Graph.found_nil] at page
  exact ⟨page.1, page.2.1⟩

namespace AsksForPage

variable {resource : Resource} {body : Json} {spec : Specification} {size : Int} {context : Context} {work : Work}
  (asks : AsksForPage context.graph resource body spec size)
include asks

theorem pageLimit_eq : Plan.pageLimit resource spec.limit = .ok size := by
  have positive := asks.positive
  rcases asks.sized with asked | ⟨absent, default⟩
  · rw [asked, Plan.pageLimit]
    rintro rfl
    exact absurd positive (lt_irrefl _)
  · rw [absent, Plan.pageLimit, default]

variable (sound : context.graph.Sound) (named : context.graph.get? resource.name = some resource)
  (allowed : context.allows .viewAny resource none = true) (exposed : resource.key ∈ resource.fields)
  (readable : ∀ row ∈ work.database.rows resource.table.name, ∀ name ∈ Plan.askedFields resource spec.selects,
    ∃ value, (row.cell name).shown (resource.table.ref 0 0 name).type = .ok value)
include sound named allowed exposed readable

/-- Such a search returns, provided that the cells of its fields can be shown. -/
private theorem returns : ∃ result after, (Operations.search context resource.name body).runOn work = (.ok result, after) := by
  have member : resource ∈ context.graph.resources := Graph.mem_of_get? named
  obtain ⟨plan, made, rfl, offset, includes, outputs, counted⟩ := Plan.compile_of_isPlain (sound resource member)
    ((sound resource member).fields _ exposed) (fits_of_validate asks.accepted) asks.plain asks.pageLimit_eq
  have compiled := Plan.compiled_of_eq_ok made
  have ofColumns : ∀ output ∈ plan.page.outputs, ∃ name ∈ Plan.askedFields resource spec.selects, ∃ label,
      output = .column (resource.table.ref 0 0 name) label := by
    intro output listed
    rw [outputs] at listed
    obtain ⟨entry, inside, rfl⟩ := List.mem_map.1 listed
    exact ⟨entry.1, Plan.mem_labelled inside, entry.2, rfl⟩
  have some : plan.page.outputs ≠ [] := by
    have fields : Plan.askedFields resource spec.selects ≠ [] := by
      unfold Plan.askedFields
      split
      · exact List.ne_nil_of_mem exposed
      · next asked => simpa using asked
    obtain ⟨first, rest, asked⟩ := List.exists_cons_of_ne_nil fields
    rw [outputs, Plan.shownColumns, asked]
    exact List.cons_ne_nil _ _
  have bounds : Query.allBounds plan.counted = [] := counted ▸ Plan.allBounds_alive resource
  have results : ∃ rows, plan.page.results (Plan.ground work.database []) = .ok rows := by
    refine Query.exists_results (fun frame inside output listed => ?_) ?_
    · obtain ⟨name, asked, label, rfl⟩ := ofColumns output listed
      have there := Graph.mem_rows_of_found (Plan.mem_found_of_frames sound member compiled asks.plain.scopes inside)
      exact readable (frame.getD 0 []) there name asked
    · rw [outputs, Plan.key_shownColumns]
      exact asks.apart
  obtain ⟨rows, results⟩ := results
  have runs (started : Work) (same : started.database = work.database) :
      (Plan.run plan.page []).runOn started = (.ok rows, started) := by
    refine Plan.run_of_columns (fun output listed => ?_) some ⟨_, compiled.source⟩ (compiled.conditions ▸ bounds)
      compiled.paged asks.limited (offset ▸ asks.begun) (same ▸ results)
    obtain ⟨name, -, label, is⟩ := ofColumns output listed
    exact ⟨_, label, is⟩
  have executes (started : Work) (same : started.database = work.database) :
      ∃ result, plan.execute.runOn started = (.ok result, started.start) :=
    Plan.execute_of_run (by rw [bounds]; rfl) includes (runs started.start (started.start_database.trans same))
  have known : (Job.resource context resource.name).runOn work = (.ok resource, work) := by
    rw [Job.resource, named]
    rfl
  unfold Operations.search
  simp only [Job.bind_runOn, known, Job.of_runOn, asks.accepted, Job.authorize_runOn, if_pos allowed, made, Job.tell_runOn]
  obtain ⟨result, executed⟩ := executes { work with
    calls := work.calls ++ context.questions .viewAny resource none
    events := work.events ++ [.compiled resource.name plan.limit plan.pageNumber (plan.includes.map (·.path))] } rfl
  rw [executed]
  exact ⟨result, _, rfl⟩

/-- Such a search returns the page of the live records that it asks for, and their number. -/
theorem sees_live :
    let live := Query.inOrder (Plan.fullOrder resource spec.sorts)
      ((work.database.rows resource.table.name).filter resource.isLive)
    ∃ result after, (Operations.search context resource.name body).runOn work = (.ok result, after) ∧
      result.total = live.length ∧
      List.Forall₂ (resource.table.Shows (Plan.askedFields resource spec.selects))
        ((live.drop ((max spec.page 1 - 1) * size).toNat).take size.toNat) result.rows := by
  intro live
  obtain ⟨result, after, ran⟩ := asks.returns sound named allowed exposed readable
  obtain ⟨total, rows⟩ := sees_live_of_returned sound (.intro rfl named asks.accepted rfl ran) asks.positive
    ⟨asks.plain.scopes, asks.plain.filters, rfl, asks.sized⟩
  refine ⟨result, after, ran, total, rows _ fun name asked => ⟨asked, ?_⟩⟩
  rw [asks.plain.includes]
  simp [Plan.includePaths]

end AsksForPage

end Search

end ResourceApi
