import ResourceApi.Proofs.Resource.Built
import ResourceApi.Proofs.Search.Loaded
import ResourceApi.Proofs.Search.Paged
import ResourceApi.Session.Operations

/-!
What a search returns. Its total counts the records that are not deleted and that the filters admit, its rows are those
of them that stand on the page, and the pages one after the other list them all.
-/

namespace ResourceApi

open Outcome

@[simp]
theorem Work.start_database (work : Work) : work.start.database = work.database := by
  unfold start
  split <;> rfl

/-! ## Searches that return -/

namespace Plan

variable {graph : Graph} {resource : Resource}

/-- A step goes on from the path before its last name, and puts that name into the records there. -/
theorem start_of_includeHop {hops : List Hop} {path : String} {hop : Hop}
    (made : includeHop graph resource hops path = .ok hop) :
    hop.step.path = path ∧ Path.splitLast path = (start hop.step, hop.step.name) := by
  rcases cut : Path.splitLast path with ⟨parent, name⟩
  rw [includeHop, cut] at made
  obtain ⟨owner, -, made⟩ := bind_eq_ok.1 made
  split at made
  · cases made
  · obtain ⟨target, -, same⟩ := bind_eq_ok.1 made
    obtain rfl := pure_eq_ok.1 same
    refine ⟨rfl, Prod.ext ?_ rfl⟩
    by_cases empty : parent = "" <;> simp [start, empty]

theorem start_of_includeHops {paths : List String} {hops : List Hop}
    (walked : includeHops graph resource paths = .ok hops) :
    ∀ hop ∈ hops, hop.step.path ∈ paths ∧ Path.splitLast hop.step.path = (start hop.step, hop.step.name) := by
  refine @foldlM_invariant _ _ _ _ _ _ walked (fun hops => ∀ hop ∈ hops,
    hop.step.path ∈ paths ∧ Path.splitLast hop.step.path = (start hop.step, hop.step.name)) ?_ ?_
  · intro hop inside
    cases inside
  · intro path listed before after known made
    obtain ⟨hop, stepped, same⟩ := bind_eq_ok.1 made
    obtain rfl := pure_eq_ok.1 same
    obtain ⟨rfl, cut⟩ := start_of_includeHop stepped
    intro other inside
    rcases List.mem_append.1 inside with old | new
    · exact known other old
    · obtain rfl := List.mem_singleton.1 new
      exact ⟨listed, cut⟩

theorem step_of_loadHop {includes : List Include} {hops : List Hop} {hop : Hop} {step : IncludeStep}
    (loaded : loadHop graph includes hops hop = .ok step) :
    step.path = hop.step.path ∧ step.parentPath = hop.step.parentPath ∧ step.name = hop.step.name ∧
      step.relation = hop.step.relation := by
  simp only [loadHop, bind_eq_ok, pure_eq_ok] at loaded
  obtain ⟨_, -, _, -, rfl⟩ := loaded
  exact ⟨rfl, rfl, rfl, rfl⟩

variable {work after : Work}

theorem execute_eq_ok {plan : Plan} {result : SearchResult} (ran : plan.execute.runOn work = (.ok result, after)) :
    ∃ rows shelf, plan.page.results (ground work.database []) = .ok rows ∧
      (loadAll plan.includes [("", rows.map (⟨·, 0⟩))]).runOn work.start = (.ok shelf, after) ∧
      result = {
        rows := (rowsAt shelf "").map (·.row)
        total := (Query.matching (ground work.database []) [] (.table plan.resource.table.name) plan.counted).length
        limit := plan.limit
        page := plan.pageNumber
        offset := plan.offset } := by
  obtain ⟨_, begun, opened, ran⟩ := Job.bind_eq_ok.1 ran
  rw [Job.modify_runOn] at opened
  cases opened
  obtain ⟨total, _, counted, ran⟩ := Job.bind_eq_ok.1 ran
  obtain ⟨rfl, rfl⟩ := total_eq_ok counted
  obtain ⟨rows, _, read, ran⟩ := Job.bind_eq_ok.1 ran
  obtain ⟨rfl, -, results⟩ := run_eq_ok read
  obtain ⟨shelf, _, loaded, ran⟩ := Job.bind_eq_ok.1 ran
  cases ran
  rw [Work.start_database] at results ⊢
  exact ⟨rows, shelf, results, loaded, rfl⟩

/-- The total of a result counts the records that the search finds. -/
theorem total_of_execute (sound : graph.Sound) (member : resource ∈ graph.resources) {spec : Specification} {plan : Plan}
    (compiled : Compiled graph resource spec plan) (noScopes : spec.scopes = []) {result : SearchResult}
    (ran : plan.execute.runOn work = (.ok result, after)) :
    result.total = (graph.found work.database.rows resource spec.filters spec.sorts).length := by
  obtain ⟨rows, shelf, -, -, rfl⟩ := execute_eq_ok ran
  have counted : (Query.matching (ground work.database []) [] (.table plan.resource.table.name) plan.counted).length =
      (graph.found work.database.rows resource spec.filters spec.sorts).length := by
    rw [compiled.isOf]
    exact length_counted sound member compiled noScopes
  exact congrArg _ counted

end Plan

theorem Job.authorize_database {context : Context} {action : Action} {resource : Resource} {key : Option Json}
    {work after : Work} {u : Unit} (ran : (Job.authorize context action resource key).runOn work = (.ok u, after)) :
    after.database = work.database := by
  have decided {allowed : Bool} {middle : Work} (ran : (if !allowed then do
        tell (.denied action.name resource.name)
        fail (.denied action.name resource.name)
      else Pure.pure () : Job Unit).runOn middle = (.ok u, after)) : after = middle := by
    cases allowed
    · obtain ⟨_, _, _, ran⟩ := Job.bind_eq_ok.1 ran
      cases ran
    · cases ran
      rfl
  unfold authorize at ran
  dsimp only at ran
  split at ran
  · cases ran
    rfl
  · split at ran
    · rw [decided ran]
    · obtain ⟨_, middle, asked, ran⟩ := Job.bind_eq_ok.1 ran
      cases asked
      rw [decided ran]

/-- Without policies everything is allowed. -/
theorem Job.authorize_open (graph : Graph) (action : Action) (resource : Resource) (key : Option Json) (work : Work) :
    (Job.authorize { graph } action resource key).runOn work = (.ok (), work) := by
  unfold authorize
  cases resource.gates <;> rfl

namespace Operations

/-- A search that returns was compiled, and its plan executed on the database as it was. -/
theorem search_eq_ok {context : Context} {name : String} {body : Json} {work after : Work} {result : SearchResult}
    (ran : (search context name body).runOn work = (.ok result, after)) {resource : Resource}
    (named : context.graph.get? name = some resource) {spec : Specification}
    (accepted : Search.validate context.graph resource body = .ok spec) :
    ∃ plan started finished, Plan.compile context.graph resource spec = .ok plan ∧
      plan.execute.runOn started = (.ok result, finished) ∧ started.database = work.database := by
  obtain ⟨found, _, looked, ran⟩ := Job.bind_eq_ok.1 ran
  rw [Job.resource, named] at looked
  cases looked
  obtain ⟨validated, same, ran⟩ := Job.of_bind_eq_ok.1 ran
  obtain rfl := Except.ok.inj (accepted.symm.trans same)
  obtain ⟨_, allowed, asked, ran⟩ := Job.bind_eq_ok.1 ran
  obtain ⟨plan, compiled, ran⟩ := Job.of_bind_eq_ok.1 ran
  obtain ⟨_, told, telling, ran⟩ := Job.bind_eq_ok.1 ran
  rw [Job.tell_runOn] at telling
  cases telling
  obtain ⟨_, executed, executing, ran⟩ := Job.bind_eq_ok.1 ran
  obtain ⟨_, _, telling, ran⟩ := Job.bind_eq_ok.1 ran
  cases ran
  have same : allowed.database = work.database := Job.authorize_database asked
  exact ⟨plan, _, executed, compiled, executing, same⟩

end Operations

end ResourceApi
