import ResourceApi.Proofs.Search.Fetched
import ResourceApi.Proofs.Search.Heard
import ResourceApi.Proofs.Search.Modest
import ResourceApi.Proofs.Search.Readable
import ResourceApi.Proofs.Session.Authorized

/-!
How searches fail. In a graph that was built, a search over rows that can be read fails in ways that clients are told
about, unless it compares a truth value otherwise than for equality or takes a sum of moments.
-/

namespace ResourceApi

open Outcome Query

/-- A specification that goes on from no relation without a name, and takes no sums of moments. -/
structure Specification.Adds (graph : Graph) (spec : Specification) : Prop where
  named : "" ∉ Plan.includePaths spec.includes
  here : ∀ item ∈ spec.aggregates, item.AddsNumbers graph
  below : ∀ item ∈ spec.includes, ∀ aggregate ∈ item.aggregates, aggregate.AddsNumbers graph

namespace Plan

variable {work : Work}

/-! ## Queries -/

/-- A query that hands over values which fit a word is run, and gives its rows if they can be read. -/
theorem run_comesTo {query : Query} {parents : List Bound} (fit : Bound.FitAll (query.bounds ++ parents))
    (readable : Tells (query.results (ground work.database (parents.map Bound.cell)))) :
    (run query parents).ComesTo work
      (fun rows after => after = work ∧ query.results (ground work.database (parents.map Bound.cell)) = .ok rows)
      fun failure _ => failure.IsTold := by
  have formed : Tells ((query.bounds ++ parents).mapM Bound.formed) :=
    Delivers.each fun bound listed => (Bound.formed_delivers (fit bound listed)).mono fun _ _ _ => trivial
  refine .bind ((Job.ComesTo.discard formed).mono ?_ fun _ _ => id)
  rintro _ _ rfl
  refine .ite (fun _ => .bind (.fail rfl)) fun _ => .bind ?_
  refine (Job.ComesTo.of_delivers (Bound.acceptAll_told fit)).mono ?_ fun _ _ => id
  rintro _ _ ⟨rfl, -⟩
  refine .bind (.of_ok (Job.database_runOn _) ?_)
  exact .of (fun rows found => ⟨rfl, found⟩) fun _ fails => readable.isTold fails

/-- The values of a column that can be keys of parents are told apart. -/
theorem keysOf_delivers {column : String} {rows : List Members}
    (keys : ∀ row ∈ rows, ((row.get? column).getD .null).CanKey) :
    Delivers (fun keys => ∀ key ∈ keys, key.FitsWord) (keysOf column rows) := by
  refine Delivers.foldlM (List.forall_mem_nil _) fun row listed before kept => ?_
  have isKey := keys row listed
  split
  · exact kept
  · next key _ =>
    rw [if_neg (by simp [isKey.scalar])]
    split
    · exact kept
    · exact List.forall_mem_append.2 ⟨kept, List.forall_mem_singleton.2 isKey.fits⟩

theorem keyBound_fits (query : IncludeQuery) {key : Json} (fits : key.FitsWord) : (keyBound query key).value.FitsWord := by
  unfold keyBound
  split
  · exact Json.text_fitsWord _
  · exact fits

/-- The rows that a query for included records gives, as they are attached to their parents. -/
def Gathers (rows : String → List Row) (query : Query) (loaded : Loaded) : Prop :=
  ∃ (ground : Ground) (found : List Members), ground.rows = rows ∧ query.results ground = .ok found ∧
    ∃ row ∈ found, loaded.row = (gathered row).2

/-- A query for included records is run for the keys of their parents. -/
theorem loadQuery_comesTo {step : IncludeStep} {parents : List Members} {query : IncludeQuery}
    (keys : ∀ row ∈ parents, ((row.get? query.parentColumn).getD .null).CanKey)
    (fit : Bound.FitAll query.query.bounds)
    (readable : ∀ ground : Ground, ground.rows = work.database.rows → Tells (query.query.results ground)) :
    (loadQuery step parents query).ComesTo work
      (fun found after => after.database = work.database ∧
        ∀ loaded ∈ found, Gathers work.database.rows query.query loaded)
      fun failure _ => failure.IsTold := by
  have chosen : ∀ row ∈ (parents.zipIdx.filter (isFor query ·.1)).map (·.1),
      ((row.get? query.parentColumn).getD .null).CanKey := by
    intro row listed
    obtain ⟨entry, kept, rfl⟩ := List.mem_map.1 listed
    exact keys _ (List.fst_mem_of_mem_zipIdx (List.mem_of_mem_filter kept))
  unfold loadQuery
  refine .bind ((Job.ComesTo.of_delivers (keysOf_delivers chosen)).mono ?_ fun _ _ => id)
  rintro keys _ ⟨rfl, fits⟩
  refine .ite (fun _ => .pure ⟨rfl, List.forall_mem_nil _⟩) fun _ => .bind (.of_ok (Job.tell_runOn _ _) ?_)
  have bounds : Bound.FitAll (query.query.bounds ++ keys.map (keyBound query)) :=
    fit.append (List.forall_mem_map.2 fun key listed => keyBound_fits query (fits key listed))
  refine .bind ((run_comesTo bounds (readable _ ?_)).mono ?_ fun _ _ => id)
  · rfl
  rintro found _ ⟨rfl, given⟩
  refine .pure ⟨rfl, fun loaded listed => ⟨_, found, rfl, given, ?_⟩⟩
  obtain ⟨entry, -, further⟩ := List.mem_flatMap.1 listed
  obtain ⟨record, taken, rfl⟩ := List.mem_map.1 further
  obtain ⟨child, kept, rfl⟩ := List.mem_map.1 (mem_of_mem_front taken)
  obtain ⟨row, inside, rfl⟩ := List.mem_map.1 (List.mem_of_mem_filter kept)
  exact ⟨row, inside, rfl⟩

/-! ## Steps -/

/-- A row that carries keys for the steps that go on from its path. -/
def CarriesKeys (hops : List Hop) (path : String) (row : Members) : Prop :=
  ∀ hop ∈ hops, start hop.step = path → ∀ name ∈ hop.step.relation.parentColumns, ((row.get? name).getD .null).CanKey

/-- A step that was made of one of some hops. -/
def IsStepOf (graph : Graph) (includes : List Include) (hops : List Hop) (step : IncludeStep) : Prop :=
  ∃ hop ∈ hops, loadHop graph includes hops hop = .ok step

section Stepping

variable {graph : Graph} {resource : Resource} {includes : List Include} {hops : List Hop}
  (sound : graph.Sound) (apart : graph.NamesApart) (walked : Walked graph resource (includePaths includes) hops)
include sound apart walked

/-- What steps put into a row leaves it the keys that it carries: relations have other names than columns. -/
theorem CarriesKeys.kept {steps : List IncludeStep} (made : ∀ step ∈ steps, IsStepOf graph includes hops step)
    {path : String} {old new : Loaded} (carries : CarriesKeys hops path old.row) (kept : old.Kept (Puts steps path) new) :
    CarriesKeys hops path new.row := by
  intro hop inside starts name needed
  have owned := walked.owned hop inside
  rw [kept.2 name ?_]
  · exact carries hop inside starts name needed
  · rintro ⟨step, listed, startsToo, rfl⟩
    obtain ⟨other, insideToo, loaded⟩ := made step listed
    have ownedToo := walked.owned other insideToo
    obtain ⟨-, sameParent, sameName, -⟩ := step_of_loadHop loaded
    rw [start, sameParent, ← start] at startsToo
    have sameOwner : hop.owner = other.owner := by
      have follows := owned.follows
      rw [starts, ← startsToo, ownedToo.follows] at follows
      exact (Except.ok.inj follows).symm
    have named := apart.relations _ ownedToo.member _ ownedToo.declared
    rw [ownedToo.named, ← sameName, ← sameOwner] at named
    exact named (((sound _ owned.member).relations _ owned.declared).columns _ needed)

variable (named : "" ∉ includePaths includes) (can : ∀ item ∈ includes, item.CanCompare)
  (adds : ∀ item ∈ includes, ∀ aggregate ∈ item.aggregates, aggregate.AddsNumbers graph)
include named can adds

/-- One step is loaded, and its records carry keys for the steps that go on from it. -/
theorem loadStep_comesTo {hop : Hop} (inside : hop ∈ hops) {step : IncludeStep}
    (loaded : loadHop graph includes hops hop = .ok step)
    (fit : ∀ query ∈ step.queries, Bound.FitAll query.query.bounds) (reads : graph.Reads work.database.rows)
    {parents : List Members} (keys : ∀ row ∈ parents, CarriesKeys hops (start step) row) :
    (step.queries.mapM (loadQuery step parents)).ComesTo work
      (fun found after => after.database = work.database ∧
        ∀ children ∈ found, ∀ child ∈ children, CarriesKeys hops step.path child.row)
      fun failure _ => failure.IsTold := by
  obtain ⟨samePath, sameParent, -, -⟩ := step_of_loadHop loaded
  have owned := walked.owned hop inside
  have listed : hop.step.path ∈ includePaths includes := walked.paths ▸ List.mem_map_of_mem inside
  obtain ⟨-, loads⟩ := loads_of_loadHop loaded
  have noScopes := (canCompare_searchOf can hop.step.relation hop.step.path).scopes
  have addsHere : ∀ aggregate ∈ (searchOf hop.step.relation (requested includes hop.step.path)).aggregates,
      aggregate.AddsNumbers graph :=
    forall_searchOf (fun _ _ => List.forall_mem_nil _) adds hop.step.relation hop.step.path
  refine Job.ComesTo.mapM rfl fun query queried before kept => ?_
  obtain ⟨target, leadsTo, member, related, built, made, ofColumn, -⟩ := forall₂_mem_right loads queried
  have found (ground : Ground) (same : ground.rows = work.database.rows) : graph.Reads ground.rows := same ▸ reads
  rw [← kept] at found ⊢
  refine (loadQuery_comesTo (fun row among => ?_) (fit query queried) fun ground same => ?_).mono ?_ fun _ _ => id
  · refine keys row among hop inside (by rw [start, start, sameParent]) _ ?_
    rw [ofColumn, (Related.matching_eq built).2.1]
    exact Relation.ownColumn_mem_parentColumns _
  · exact includeQuery_told sound (found ground same) owned.member owned.declared member built made noScopes addsHere
  · rintro children after ⟨keptToo, gathers⟩
    refine ⟨keptToo, fun child among next insideToo starts name needed => ?_⟩
    obtain ⟨ground, rows, same, results, row, here, isGathered⟩ := gathers child among
    have goesOn : next.step.parentPath = some hop.step.path := by
      rw [start, samePath] at starts
      cases parent : next.step.parentPath with
      | none =>
        rw [parent, Option.getD_none] at starts
        exact absurd (starts ▸ listed) named
      | some path =>
        rw [parent, Option.getD_some] at starts
        exact congrArg some starts
    have required : name ∈ requiredColumns hops (some hop.step.path) :=
      List.mem_flatMap.2 ⟨next, List.mem_filter.2 ⟨insideToo, by simpa using goesOn⟩, needed⟩
    rw [isGathered]
    refine canKey_of_includeQuery (found ground same) member built made noScopes (fun name needed => ?_) results row here
      name required
    obtain ⟨_, shown, _, -, columns, -⟩ := includeQuery_eq_ok made noScopes
    obtain ⟨-, sameTarget, -⟩ := Related.ofTarget_eq_ok built
    exact apart.columns _ member _ (sameTarget ▸ hasColumn_of_columns columns (.inr needed))

/-- All steps are loaded one after the other. -/
theorem loadAll_comesTo {part : List Hop} (among : part ⊆ hops) {steps : List IncludeStep}
    (loaded : List.Forall₂ (fun hop step => loadHop graph includes hops hop = .ok step) part steps)
    (fit : ∀ step ∈ steps, ∀ query ∈ step.queries, Bound.FitAll query.query.bounds)
    (reads : graph.Reads work.database.rows) {shelf : Shelf}
    (keys : ∀ path, ∀ loaded ∈ rowsAt shelf path, CarriesKeys hops path loaded.row) :
    (loadAll steps shelf).ComesTo work (fun _ _ => True) fun failure _ => failure.IsTold := by
  induction loaded generalizing work shelf with
  | nil => exact .pure trivial
  | @cons hop step part steps made _ ih =>
    obtain ⟨inside, amongRest⟩ := List.cons_subset.1 among
    obtain ⟨here, later⟩ := List.forall_mem_cons.1 fit
    rw [loadAll]
    have parents : ∀ row ∈ (rowsAt shelf (start step)).map (·.row), CarriesKeys hops (start step) row :=
      List.forall_mem_map.2 (keys (start step))
    refine .bind ((loadStep_comesTo sound apart walked named can adds inside made here reads parents).mono ?_ fun _ _ => id)
    rintro found middle ⟨kept, carries⟩
    have onward : ∀ path, ∀ loaded ∈ rowsAt ((step.path, found.flatten) :: attachAt step found.flatten shelf) path,
        CarriesKeys hops path loaded.row := by
      intro path loaded listed
      rw [rowsAt, List.lookup_cons] at listed
      split at listed
      · next same =>
        obtain rfl : path = step.path := by simpa using same
        obtain ⟨children, taken, given⟩ := List.mem_flatten.1 listed
        exact carries children taken loaded given
      · obtain ⟨old, standing, changed⟩ :=
          forall₂_mem_right (kept_of_grown (attachAt_grown step found.flatten shelf) path) listed
        have single : ∀ other ∈ [step], IsStepOf graph includes hops other := by simpa using ⟨hop, inside, made⟩
        exact (keys path old standing).kept sound apart walked single changed
    refine .bind ((ih amongRest later (kept ▸ reads) onward).mono ?_ fun _ _ => id)
    intro completed after _
    split
    · exact .pure trivial
    · exact .pure trivial

end Stepping

/-! ## The whole search -/

/-- A plan whose values fit a word is run on rows that can be read. -/
theorem execute_comesTo {schema : Schema} {graph : Graph} {resource : Resource} (sound : graph.Sound)
    (apart : graph.NamesApart) (complete : graph.Complete schema) (member : resource ∈ graph.resources)
    {spec : Specification} (can : spec.CanCompile) (adds : spec.Adds graph) {plan : Plan}
    (made : compile graph resource spec = .ok plan) (fits : plan.Fits) (reads : graph.Reads work.database.rows) :
    plan.execute.ComesTo work (fun _ _ => True) fun failure _ => failure.IsTold := by
  have compiled := compiled_of_eq_ok made
  obtain ⟨hops, _, _, walks, loads, -⟩ := compiled.hops
  have walked := (includeHops_delivers complete member spec.includes).holds walks
  have counts : plan.total.ComesTo work.start (fun _ after => after = work.start) fun failure _ => failure.IsTold := by
    refine .bind ((Job.ComesTo.of_delivers (Bound.acceptAll_told fits.counted)).mono ?_ fun _ _ => id)
    rintro _ _ ⟨rfl, -⟩
    exact .bind_of_ok (Job.database_runOn _) (.pure rfl)
  refine .bind_of_ok (Job.modify_runOn _ _) (.bind (counts.mono ?_ fun _ _ => id))
  rintro total _ rfl
  have bounds : Bound.FitAll (plan.page.bounds ++ []) := fits.page.append Bound.FitAll.nil
  have readsPage : graph.Reads (ground work.start.database []).rows := by
    change graph.Reads work.start.database.rows
    rwa [Work.start_database]
  refine .bind ((run_comesTo bounds (page_told sound readsPage member made adds.here)).mono ?_ fun _ _ => id)
  rintro rows _ ⟨rfl, found⟩
  have keys := canKey_of_page readsPage member made walks found
  refine .bind ((loadAll_comesTo sound apart walked adds.named can.includes adds.below (List.Subset.refl hops) loads
    fits.includes readsPage ?_).mono ?_ fun _ _ => id)
  · intro path loaded listed hop inside starts name needed
    rw [rowsAt, List.lookup_cons] at listed
    split at listed
    · next same =>
      obtain rfl : path = "" := by simpa using same
      obtain ⟨row, among, rfl⟩ := List.mem_map.1 listed
      refine keys row among name (List.mem_flatMap.2 ⟨hop, List.mem_filter.2 ⟨inside, ?_⟩, needed⟩)
      have rooted := (walked.owned hop inside).rooted
      rw [start] at starts
      cases parent : hop.step.parentPath with
      | none => rfl
      | some path =>
        rw [parent, Option.getD_some] at starts
        exact absurd (starts ▸ parent) rooted
    · exact absurd listed List.not_mem_nil
  · exact fun _ _ _ => .pure trivial

end Plan

/-- A graph in which names do not get in each other's way, and in which limits and the values for types are numbers of the
usual size, if they are numbers. -/
structure Graph.IsOrdinary (graph : Graph) : Prop where
  apart : graph.NamesApart
  tagged : graph.Tagged
  limited : ∀ resource ∈ graph.resources, ∃ n, resource.defaultLimit.integer? = some n ∧ Word.IsShort n

namespace Operations

/-- In a graph that was built, a search over rows that can be read either gives a result or fails in a way that clients are
told about, unless it compares a truth value for order or takes a sum of moments. -/
theorem told_of_search {schema : Schema} {declarations : List ResourceDeclaration} {context : Context}
    (built : Graph.build schema declarations = .ok context.graph)
    (settled : ∀ declaration ∈ declarations, declaration.Settled) (ordinary : context.graph.IsOrdinary)
    {work after : Work} (reads : context.graph.Reads work.database.rows) {name : String} {body : Json}
    (modest : ∀ resource spec, context.graph.get? name = some resource →
      Search.validate context.graph resource body = .ok spec → spec.IsModest ∧ spec.Adds context.graph)
    {failure : Failure} (fails : (search context name body).runOn work = (.error failure, after)) : failure.IsTold := by
  have sound := Graph.sound_of_build built
  have complete := Graph.Complete.of_build built settled
  have comes : (search context name body).ComesTo work (fun _ _ => True) fun failure _ => failure.IsTold := by
    unfold search Job.resource
    split
    · next resource found =>
      have member : resource ∈ context.graph.resources := Graph.mem_of_get? found
      have checked := Search.validate_told complete member body
      refine .bind_of_ok rfl (.bind (.of (fun spec accepted => ?_) fun _ refused => checked.isTold refused))
      obtain ⟨isModest, adds⟩ := modest resource spec found accepted
      have can := (Search.fits_of_validate accepted).canCompile complete member isModest
      have compiles := Plan.compile_delivers complete ordinary.tagged member can (ordinary.limited resource member)
      refine .bind ⟨fun _ asked ran => ?_, fun _ _ ran => ?_⟩
      · have same : asked.database = work.database := Job.authorize_database ran
        refine .bind (.of (fun plan made => ?_) fun _ refused => compiles.isTold refused)
        refine .bind_of_ok (Job.tell_runOn _ _) (.bind ?_)
        refine (Plan.execute_comesTo sound ordinary.apart complete member can adds made (compiles.holds made) ?_).mono ?_
          fun _ _ => id
        · exact same ▸ reads
        · exact fun _ _ _ => .bind_of_ok (Job.tell_runOn _ _) (.pure trivial)
      · rw [Job.authorize_runOn] at ran
        split at ran <;> cases ran
        rfl
    · exact .bind (.fail rfl)
  exact comes.2 failure after fails

/-! ### Memos with numbers -/

namespace Numbered

def memos : Table := ⟨"memos", [
  { name := "id", type := .integer, isKey := true, isNullable := false }, { name := "number", type := .integer }]⟩

def declaration : ResourceDeclaration where
  name := "Memo"
  table := memos
  options := [("fields", .list [.text "id", .text "number"])]
  scopes := []
  relations := []

def memo : Resource where
  name := "Memo"
  table := memos
  key := "id"
  fields := ["id", "number"]
  scopes := []
  limits := [.int 10, .int 25, .int 50]
  defaultLimit := .int 50
  defaultOrder := [("id", .desc)]
  relations := []
  fillable := ["number"]
  softDeletes := .bool false
  deletedAt := none
  morphAlias := .text "memos"
  gates := true

def graph : Graph := ⟨[memo]⟩

def database : Database := ⟨[⟨memos, [[("id", .int 1), ("number", .int 3)]]⟩]⟩

/-- A body that compares the number of memos with a value. -/
def body (operator : String) (value : Json) : Json := .object [
  ("filters", .list [.object [("field", .text "number"), ("operator", .text operator), ("value", value)]])]

def spec (operator : String) (value : Json) : Specification where
  filters := [⟨some "number", operator, value, .and, none⟩]

theorem graph_of_declaration : Graph.build { tables := [memos] } [declaration] = .ok graph := rfl

theorem settled_of_memos : declaration.Settled where
  key := by
    rintro _ ⟨⟩
  led := List.forall_mem_nil _

theorem ordinary_of_memos : graph.IsOrdinary where
  apart := {
    relations := by decide
    columns := by
      refine List.forall_mem_singleton.2 fun column present => ?_
      have listed : column = "id" ∨ column = "number" := by
        simpa [memo, memos, Table.columnNames] using Table.mem_of_hasColumn present
      rcases listed with rfl | rfl <;> exact ⟨by decide, by decide, by rw [Bool.not_eq_true]; cbv⟩ }
  tagged := List.forall_mem_singleton.2 (Json.text_fitsWord _)
  limited := List.forall_mem_singleton.2 ⟨50, rfl, by unfold Word.IsShort; decide⟩

theorem reads_of_memos : graph.Reads database.rows where
  resources := by
    refine List.forall_mem_singleton.2 (List.forall_mem_singleton.2 fun name => ?_)
    by_cases first : name = "id"
    · subst first
      exact ⟨⟨.int 1, rfl⟩, fun n same => by cases same; decide⟩
    · by_cases second : name = "number"
      · subst second
        exact ⟨⟨.int 3, rfl⟩, fun n same => by cases same; decide⟩
      · have absent : Row.cell [("id", .int 1), ("number", .int 3)] name = .null := by
          simp [Row.cell, List.lookup_cons, beq_eq_false_iff_ne.2 first, beq_eq_false_iff_ne.2 second]
        rw [absent]
        exact .null _
  between := List.forall_mem_singleton.2 (List.forall_mem_nil _)

private theorem paths : Plan.includePaths (spec "=" (.object [("a", .null)])).includes = [] := List.mergeSort_nil

/-- An object as the value to compare with is modest, though nothing can be compared with it. -/
theorem modest_of_spec :
    (spec "=" (.object [("a", .null)])).IsModest ∧ (spec "=" (.object [("a", .null)])).Adds graph where
  left := {
    scopes := rfl
    scopesBelow := List.forall_mem_nil _
    comparisons := by
      refine List.forall_mem_singleton.2 ⟨⟨fun _ same => ?_, fun _ same => ?_⟩, fun _ same => ?_⟩ <;> cases same
    limit := by
      rintro _ ⟨⟩
    page := by
      unfold Word.IsShort
      decide }
  right := {
    named := by
      rw [paths]
      exact List.not_mem_nil
    here := List.forall_mem_nil _
    below := List.forall_mem_nil _ }

def plan : Plan where
  resource := memo
  page := {
    outputs := [.column ⟨0, 0, "id", .integer⟩ none, .column ⟨0, 0, "number", .integer⟩ none]
    source := .table "memos"
    aliased := false
    conditions := [.compare .equal ⟨0, 0, "number", .integer⟩ ⟨.integer, .object [("a", .null)]⟩]
    order := [(⟨0, 0, "id", .integer⟩, .desc)]
    page := some (50, 0) }
  counted := [.compare .equal ⟨0, 0, "number", .integer⟩ ⟨.integer, .object [("a", .null)]⟩]
  key := ⟨0, 0, "id", .integer⟩
  limit := 50
  pageNumber := 1
  offset := 0
  includes := []

/-- What the storage cannot take for a number, clients are told about. -/
theorem told_of_object : ∃ failure,
    ((search { graph } "Memo" (body "=" (.object [("a", .null)]))).runOn { database }).1 = .error failure ∧
      failure.IsTold := by
  have accepted : Search.validate graph memo (body "=" (.object [("a", .null)])) =
      .ok (spec "=" (.object [("a", .null)])) := by rfl
  have compiled : Plan.compile graph memo (spec "=" (.object [("a", .null)])) = .ok plan := by
    rw [Plan.compile, paths]
    cbv
  have failed : ((search { graph } "Memo" (body "=" (.object [("a", .null)]))).runOn { database }).1 =
      .error (.storage .statement) := by
    exact Search.search_of_execute rfl accepted compiled (by cbv)
  refine ⟨_, failed, ?_⟩
  refine @told_of_search _ _ { graph } graph_of_declaration (List.forall_mem_singleton.2 settled_of_memos)
    ordinary_of_memos { database } _ reads_of_memos "Memo" _ (fun resource spec named same => ?_) _ (Prod.ext failed rfl)
  obtain rfl := Option.some.inj (named.symm.trans (rfl : graph.get? "Memo" = some memo))
  obtain rfl := Except.ok.inj (same.symm.trans accepted)
  exact modest_of_spec

/-- A truth value that is compared for order is let through, and refused where nobody is told. -/
theorem untold_of_truth :
    Graph.build { tables := [memos] } [declaration] = .ok graph ∧
      ∃ failure, ((search { graph } "Memo" (body ">" (.bool true))).runOn { database }).1 = .error failure ∧
        ¬failure.IsTold := by
  refine ⟨graph_of_declaration, .fault .unsuitableArgument, rfl, ?_⟩
  simp [Failure.isTold_iff]

end Numbered

end Operations

end ResourceApi
