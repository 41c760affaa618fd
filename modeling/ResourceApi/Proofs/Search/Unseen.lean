import ResourceApi.Proofs.Search.Answered
import ResourceApi.Proofs.Session.Indifferent

/-!
What searches never see: records that are marked as deleted, and columns that nothing exposes. Whether they are there, and
what they hold, makes no difference to any accepted search.
-/

namespace ResourceApi

open Outcome Query

/-! ## Plans that two databases answer alike -/

/-- A plan whose queries have the same results on two databases. -/
structure Plan.Alike (database other : Database) (plan : Plan) : Prop where
  counted : (matching (Plan.ground database []) [] (.table plan.resource.table.name) plan.counted).length =
    (matching (Plan.ground other []) [] (.table plan.resource.table.name) plan.counted).length
  page : ∀ parents, plan.page.results (Plan.ground database parents) = plan.page.results (Plan.ground other parents)
  included : ∀ step ∈ plan.includes, ∀ query ∈ step.queries, ∀ parents,
    query.query.results (Plan.ground database parents) = query.query.results (Plan.ground other parents)

namespace Plan

variable {database other : Database}

private theorem run_indifferent {query : Query} (same : ∀ parents,
    query.results (ground database parents) = query.results (ground other parents)) (parents : List Bound) :
    Job.Indifferent database other (run query parents) := by
  unfold run
  refine (Job.Indifferent.discard _).bind fun _ => ?_
  have read : Job.Indifferent database other (do
      Job.of (Bound.acceptAll (query.bounds ++ parents))
      Job.of (query.results (ground (← Job.database) (parents.map Bound.cell)))) :=
    (Job.Indifferent.of _).bind fun _ => .database_bind (by rw [same]) (.of _)
  exact .ite (fun _ => (Job.Indifferent.fail _).bind fun _ => read) fun _ => read

private theorem loadQuery_indifferent {query : IncludeQuery} (same : ∀ parents,
    query.query.results (ground database parents) = query.query.results (ground other parents)) (step : IncludeStep)
    (parents : List Members) : Job.Indifferent database other (loadQuery step parents query) := by
  unfold loadQuery
  refine (Job.Indifferent.of _).bind fun keys => ?_
  refine .ite (fun _ => .pure _) fun _ => (Job.Indifferent.tell _).bind fun _ => ?_
  exact (run_indifferent same _).bind fun _ => .pure _

private theorem loadAll_indifferent {steps : List IncludeStep} (same : ∀ step ∈ steps, ∀ query ∈ step.queries, ∀ parents,
    query.query.results (ground database parents) = query.query.results (ground other parents)) (shelf : Shelf) :
    Job.Indifferent database other (loadAll steps shelf) := by
  induction steps generalizing shelf with
  | nil => exact .pure shelf
  | cons step rest ih =>
    obtain ⟨here, later⟩ := List.forall_mem_cons.1 same
    rw [loadAll]
    refine (Job.Indifferent.mapM fun query inside => loadQuery_indifferent (here query inside) _ _).bind fun _ => ?_
    refine (ih later _).bind fun completed => ?_
    split <;> exact .pure _

/-- Executing a plan that two databases answer alike gives one result. -/
theorem Alike.execute {plan : Plan} (alike : plan.Alike database other) :
    Job.Indifferent database other plan.execute := by
  unfold Plan.execute Plan.total
  refine (Job.Indifferent.modify Work.start_database).bind fun _ => ?_
  refine Job.Indifferent.bind ?_ fun _ => (run_indifferent alike.page _).bind fun _ => ?_
  · refine (Job.Indifferent.of _).bind fun _ => .database_bind ?_ (.pure _)
    dsimp only
    rw [alike.counted]
  · exact (loadAll_indifferent alike.included _).bind fun _ => .pure _

end Plan

/-- A search whose plan two databases answer alike gives one result. -/
theorem Operations.search_indifferent {database other : Database} {context : Context} {name : String} {body : Json}
    {resource : Resource} (named : context.graph.get? name = some resource) {spec : Specification}
    (accepted : Search.validate context.graph resource body = .ok spec)
    (alike : ∀ plan, Plan.compile context.graph resource spec = .ok plan → plan.Alike database other) :
    Job.Indifferent database other (search context name body) := by
  have known : Job.resource context name = Pure.pure resource := by
    unfold Job.resource
    rw [named]
  unfold search
  rw [known, pure_bind]
  refine .of_bind fun validated same => ?_
  obtain rfl := Except.ok.inj (accepted.symm.trans same)
  refine (Job.Indifferent.authorize _ _ _ _).bind fun _ => .of_bind fun plan compiled => ?_
  refine (Job.Indifferent.tell _).bind fun _ => (alike plan compiled).execute.bind fun _ => ?_
  exact (Job.Indifferent.tell _).bind fun _ => .pure _

namespace Plan

variable {graph : Graph} {resource : Resource}

/-- Steps are those of relations of resources of the graph. -/
theorem declared_of_includeHops (member : resource ∈ graph.resources) {paths : List String} {hops : List Hop}
    (walked : includeHops graph resource paths = .ok hops) :
    ∀ hop ∈ hops, hop.owner ∈ graph.resources ∧ hop.step.relation ∈ hop.owner.relations ∧
      hop.target ∈ graph.resources := by
  refine @foldlM_invariant _ _ _ _ _ _ walked (fun hops => ∀ hop ∈ hops,
    hop.owner ∈ graph.resources ∧ hop.step.relation ∈ hop.owner.relations ∧ hop.target ∈ graph.resources) ?_ ?_
  · intro hop inside
    cases inside
  intro path _ before after known made
  obtain ⟨hop, stepped, same⟩ := bind_eq_ok.1 made
  obtain rfl := pure_eq_ok.1 same
  rcases cut : Path.splitLast path with ⟨parent, name⟩
  rw [includeHop, cut] at stepped
  obtain ⟨owner, owned, made⟩ := bind_eq_ok.1 stepped
  have ownerMember : owner ∈ graph.resources := by
    unfold ownerAt at owned
    split at owned
    · cases owned
      exact member
    · split at owned
      · next earlier found =>
        cases owned
        exact (known earlier (List.mem_of_find?_eq_some found)).2.2
      · cases owned
  split at made
  · cases made
  · next relation found =>
    obtain ⟨target, leadsTo, same⟩ := bind_eq_ok.1 made
    obtain rfl := pure_eq_ok.1 same
    intro other inside
    rcases List.mem_append.1 inside with old | new
    · exact known other old
    · obtain rfl := List.mem_singleton.1 new
      exact ⟨ownerMember, (Resource.mem_of_relation? found).1, Graph.mem_of_target leadsTo⟩

/-- A plan is answered alike by tables that are alike in the columns that the search and its includes go by. -/
theorem alike_of_compile (sound : graph.Sound) {reads : String → String → Prop} {database other : Database}
    (alike : graph.Alike reads database.rows other.rows) (follows : graph.Follows reads) (member : resource ∈ graph.resources)
    {spec : Specification} (noScopes : spec.scopes = []) (noScopesBelow : ∀ item ∈ spec.includes, item.scopes = [])
    (opens : Search.Opens graph reads resource spec.filters spec.sorts spec.selects spec.aggregates)
    (below : ∀ hops, includeHops graph resource (includePaths spec.includes) = .ok hops →
      (∀ name ∈ requiredColumns hops none, reads resource.table.name name) ∧
        ∀ hop ∈ hops, ∀ target ∈ graph.destinations hop.step.relation,
          let item := searchOf hop.step.relation (requested spec.includes hop.step.path)
          Search.Opens graph reads target item.filters item.sorts item.selects item.aggregates ∧
            ∀ name ∈ requiredColumns hops (some hop.step.path), reads target.table.name name)
    {plan : Plan} (made : compile graph resource spec = .ok plan) : plan.Alike database other := by
  have compiled := compiled_of_eq_ok made
  constructor
  · rw [compiled.isOf]
    exact (forall₂_counted sound alike follows member compiled noScopes opens.filters []).length_eq
  · exact results_page sound alike follows member made noScopes opens fun hops walked => (below hops walked).1
  · intro step inside query listed parents
    obtain ⟨hops, -, -, walked, loaded, -⟩ := compiled.hops
    obtain ⟨hop, among, loads⟩ := forall₂_mem_right loaded inside
    obtain ⟨target, leadsTo, -, related, built, made, -⟩ := forall₂_mem_right (loads_of_loadHop loads).2 listed
    obtain ⟨ownerMember, declared, -⟩ := declared_of_includeHops member walked hop among
    obtain ⟨opensBelow, needed⟩ := (below hops walked).2 hop among target leadsTo
    exact results_included sound alike follows ownerMember declared leadsTo built made
      (noScopes_searchOf noScopesBelow _ _) opensBelow needed parents

end Plan

/-! ## Deleted records -/

namespace Database

end Database

namespace Search

namespace Marked

def table : Table := ⟨"people", [
  { name := "id", type := .integer, isKey := true, isNullable := false }, { name := "parent_id", type := .integer },
  { name := "deleted_at", type := .datetime }]⟩

def declaration : ResourceDeclaration where
  name := "Person"
  table := table
  options := [("fields", .list [.text "id"]), ("soft_deletes", .bool true)]
  scopes := []
  relations := [{ name := "children", kind := .hasMany, targets := [.text "Person"], foreignKey := .text "parent_id" }]

def person : Resource where
  name := "Person"
  table := table
  key := "id"
  fields := ["id"]
  scopes := []
  limits := [.int 10, .int 25, .int 50]
  defaultLimit := .int 50
  defaultOrder := [("id", .desc)]
  relations := [⟨"children", .hasMany, ["Person"], .child { foreignKey := "parent_id", localKey := "id" }⟩]
  fillable := []
  softDeletes := .bool true
  deletedAt := some "deleted_at"
  morphAlias := .text "people"
  gates := true

def graph : Graph := ⟨[person]⟩

theorem graph_of_declaration : Graph.build { tables := [table] } [declaration] = .ok graph := rfl

def row (id : Int) (parent deleted : Cell) : Row := [("id", .int id), ("parent_id", parent), ("deleted_at", deleted)]

/-- Two people, the second below the first and marked as deleted. -/
def database : Database := ⟨[⟨table, [row 1 .null .null, row 2 (.int 1) (.text "2024-01-01 00:00:00.000000")]⟩]⟩

/-- A body that asks for people who have children, with their children. -/
def body : Json := .object [
  ("filters", .list [.object [("field", .text "children.id"), ("operator", .text ">"), ("value", .int 0)]]),
  ("includes", .list [.object [("relation", .text "children")]])]

def spec : Specification where
  filters := [⟨some "children.id", ">", .int 0, .and, none⟩]
  includes := [{ relation := "children" }]

end Marked

end Search

/-! ## Columns that nothing exposes -/

/-- The columns of tables that something exposes: the fields of resources, their keys, marks of deletion and usual orders,
and the columns that their relations go by or show along with related records. -/
inductive Graph.Exposes (graph : Graph) : String → String → Prop where
  | field {resource : Resource} (member : resource ∈ graph.resources) {name : String} (listed : name ∈ resource.fields) :
      Exposes graph resource.table.name name
  | key {resource : Resource} (member : resource ∈ graph.resources) : Exposes graph resource.table.name resource.key
  | mark {resource : Resource} (member : resource ∈ graph.resources) {column : String}
      (marks : resource.deletedAt = some column) : Exposes graph resource.table.name column
  | order {resource : Resource} (member : resource ∈ graph.resources) {key : String × Direction}
      (listed : key ∈ resource.defaultOrder) : Exposes graph resource.table.name key.1
  | link {owner target : Resource} {relation : Relation} (member : owner ∈ graph.resources)
      (declared : relation ∈ owner.relations) (leadsTo : target ∈ graph.destinations relation)
      {place : String × String} (listed : place ∈ relation.link.columns owner target) : Exposes graph place.1 place.2

namespace Graph

variable {graph : Graph}

theorem follows_exposes (graph : Graph) : graph.Follows graph.Exposes :=
  fun _ member _ declared _ leadsTo _ listed => .link member declared leadsTo listed

/-- Tables whose rows agree in all columns that something exposes are alike. -/
theorem alike_of_exposes {rows others : String → List Row}
    (agree : ∀ table, List.Forall₂ (Row.Agrees (graph.Exposes table)) (rows table) (others table)) :
    graph.Alike graph.Exposes rows others where
  live resource member := forall₂_filter (agree resource.table.name) fun row other both => by
    cases marks : resource.deletedAt with
    | none => simp only [Resource.isLive, marks, Option.all_none]
    | some column => simp only [Resource.isLive, marks, Option.all_some, both column (.mark member marks)]
  between _ _ _ _ table _ := agree table.name

/-- The columns that the records of a resource carry for its relations are exposed. -/
theorem exposes_parentColumn {owner : Resource} {relation : Relation} (member : owner ∈ graph.resources)
    (declared : relation ∈ owner.relations) {target : Resource} (leadsTo : graph.target relation = .ok target)
    {name : String} (needed : name ∈ relation.parentColumns) : graph.Exposes owner.table.name name := by
  have listed : (owner.table.name, name) ∈ relation.link.columns owner target := by
    unfold Relation.parentColumns at needed
    cases same : relation.link with
    | child link | pivot link | through link =>
      rw [same] at needed
      obtain rfl := List.mem_singleton.1 needed
      simp [Link.columns]
    | parent link =>
      rw [same] at needed
      rcases List.mem_cons.1 needed with rfl | told
      · simp [Link.columns]
      · exact List.mem_cons_of_mem _ (List.mem_cons_of_mem _ (List.mem_map_of_mem told))
  exact .link member declared (mem_destinations_of_target leadsTo) listed

end Graph

theorem Filter.mem_namesOfAll {filters : List Filter} {name : String} :
    name ∈ Filter.namesOfAll filters ↔ ∃ filter ∈ filters, name ∈ filter.names := by
  induction filters with
  | nil => simp [Filter.namesOfAll]
  | cons filter rest ih => simp [Filter.namesOfAll, ih]

/-- A filter that fits speaks of listed fields. -/
theorem Filter.Fits.listed {fields : List String} {filter : Filter} (fits : filter.Fits fields) :
    ∀ name ∈ filter.names, name ∈ fields := by
  induction fits with
  | @leaf filter name alone named inside known _ _ =>
    obtain ⟨field, operator, value, joining, nested⟩ := filter
    cases alone
    cases named
    simpa [Filter.names] using inside
  | @group filter filters grouped _ ih =>
    obtain ⟨field, operator, value, joining, nested⟩ := filter
    cases grouped
    intro name listed
    rw [Filter.names] at listed
    obtain ⟨inner, inside, named⟩ := Filter.mem_namesOfAll.1 listed
    exact ih inner inside name named

section Exposed

variable {graph : Graph} (sound : graph.Sound) (plain : graph.Plain) {resource : Resource}
  (member : resource ∈ graph.resources)
include sound plain member

/-- Filters that fit go by exposed columns. -/
theorem Graph.FiltersFit.opens {filters : List Filter} (fit : graph.FiltersFit resource filters) :
    ∀ name ∈ Filter.namesOfAll filters, graph.Opens graph.Exposes resource name := by
  intro name listed
  obtain ⟨filter, inside, named⟩ := Filter.mem_namesOfAll.1 listed
  obtain ⟨fields, given, fits⟩ := fit filter inside
  unfold Graph.Opens
  rcases Plan.filterFields_cases plain member given (fits.listed name named) with ⟨alone, exposed⟩ |
    ⟨relation, declared, target, field, nestable, leadsTo, exposed, rfl⟩
  · rw [if_pos (Path.points_eq_zero.2 alone)]
    exact .field member exposed
  · have targetMember := Graph.mem_of_target leadsTo
    have pointed : Path.points (relation.name ++ "." ++ field) ≠ 0 := by
      rw [Path.points_append]
      omega
    rw [if_neg pointed, Path.splitLast_append _ ((plain _ targetMember).2 field exposed)]
    intro hops hop other walked ends leadsToo
    rw [Graph.hops_name (sound _ member) declared nestable leadsTo ((plain _ member).1 relation declared)] at walked
    cases walked
    obtain rfl := Option.some.inj ends
    obtain rfl := Except.ok.inj (leadsTo.symm.trans leadsToo)
    exact .field targetMember exposed

/-- A search that fits goes by exposed columns. -/
theorem Search.Fits.opens {filters : List Filter} {scopes : List ScopeCall} {sorts : List SortKey} {selects : List String}
    {aggregates : List Aggregate} (fits : Search.Fits graph resource filters scopes sorts selects aggregates) :
    Search.Opens graph graph.Exposes resource filters sorts selects aggregates where
  filters := fits.filters.opens sound plain member
  order key listed := by
    rcases List.mem_append.1 listed with asked | last
    · unfold Plan.askedOrder at asked
      split at asked
      · exact .order member asked
      · obtain ⟨sort, given, rfl⟩ := List.mem_map.1 asked
        exact .field member (fits.sorts sort given)
    · obtain rfl := List.mem_singleton.1 last
      exact .key member
  shown name listed := by
    unfold Plan.askedFields at listed
    split at listed
    · exact .field member listed
    · exact .field member (fits.selects name listed)
  aggregates item asked hops hop target walked ends leadsTo := by
    have aggregateFits := fits.aggregates item asked
    obtain ⟨paths, computed, listed⟩ := aggregateFits.path
    obtain ⟨all, entry, _, searched, present, path, -⟩ := Plan.hops_of_aggregatePaths computed listed
    have resolved : graph.resolve? resource (.text item.relation) = .ok (some (hop.2, target)) :=
      Graph.resolve?_eq searched (path ▸ List.mem_map_of_mem present) walked ends leadsTo
    obtain ⟨ofField, filtered⟩ := aggregateFits.behind _ _ resolved
    have targetMember := Graph.mem_of_target leadsTo
    refine ⟨fun needed name named => ?_, filtered.opens sound plain targetMember⟩
    obtain ⟨field, exposed, same⟩ := ofField needed
    obtain rfl := Option.some.inj (same.symm.trans named)
    exact .field targetMember exposed

/-- The includes of a search that fits go by exposed columns, too, unless one of their paths begins with a point. -/
theorem Plan.opens_of_includeHops {includes : List Include} (fit : ∀ item ∈ includes, item.Fits graph resource)
    (rooted : ∀ item ∈ includes, ¬Path.IsRootless item.relation) {hops : List Hop}
    (walked : includeHops graph resource (includePaths includes) = .ok hops) :
    (∀ name ∈ requiredColumns hops none, graph.Exposes resource.table.name name) ∧
      ∀ hop ∈ hops, ∀ target ∈ graph.destinations hop.step.relation,
        let item := searchOf hop.step.relation (requested includes hop.step.path)
        Search.Opens graph graph.Exposes target item.filters item.sorts item.selects item.aggregates ∧
          ∀ name ∈ requiredColumns hops (some hop.step.path), graph.Exposes target.table.name name := by
  obtain ⟨_, made, -, placed⟩ := includeHops_of_rooted sound plain.relations member fit rooted
  obtain rfl := Except.ok.inj (walked.symm.trans made)
  have needed {hop : Hop} (inside : hop ∈ hops) {name : String} (listed : name ∈ hop.step.relation.parentColumns) :
      graph.Exposes hop.owner.table.name name := by
    obtain ⟨ownerMember, declared⟩ := (placed hop inside).declared member
    exact Graph.exposes_parentColumn ownerMember declared (placed hop inside).target listed
  constructor
  · intro name required
    obtain ⟨hop, inside, same, listed⟩ := owner_of_requiredColumns_root placed required
    exact same ▸ needed inside listed
  intro hop inside target leadsTo item
  have targetMember := Graph.mem_of_mem_destinations leadsTo
  by_cases nestable : hop.step.relation.isNestable
  · rw [destinations_eq nestable (placed hop inside).target] at leadsTo
    obtain rfl := List.mem_singleton.1 leadsTo
    have asked : item = requested includes hop.step.path := if_pos nestable
    refine ⟨?_, fun name required => ?_⟩
    · rw [asked]
      exact (requested_fits sound plain.relations member fit (placed hop inside) nestable).opens sound plain targetMember
    · obtain ⟨-, further, among, same, listed⟩ := owner_of_requiredColumns sound plain.relations member placed inside required
      exact same ▸ needed among listed
  · have nothing : item.filters = [] ∧ item.sorts = [] ∧ item.selects = [] ∧ item.aggregates = [] := by
      simp only [item, searchOf, if_neg nestable, and_self]
    obtain ⟨noFilters, noSorts, noSelects, noAggregates⟩ := nothing
    refine ⟨?_, fun name required => ?_⟩
    · rw [noFilters, noSorts, noSelects, noAggregates]
      exact Search.Fits.nothing.opens sound plain targetMember
    · exact absurd (owner_of_requiredColumns sound plain.relations member placed inside required).1 nestable

end Exposed

namespace Search

/-- What columns hold that nothing exposes, no search that is accepted and calls no scopes tells, provided that names have
no points in them and no include begins with one. -/
theorem search_unexposed {schema : Schema} {declarations : List ResourceDeclaration} {graph : Graph}
    (built : Graph.build schema declarations = .ok graph) (plain : graph.Plain)
    {context : Context} (known : context.graph = graph) {name : String} {resource : Resource}
    (named : graph.get? name = some resource) {body : Json} {spec : Specification}
    (accepted : validate graph resource body = .ok spec) (noScopes : spec.scopes = [])
    (noScopesBelow : ∀ item ∈ spec.includes, item.scopes = [])
    (rooted : ∀ item ∈ spec.includes, ¬Path.IsRootless item.relation) {work other : Work}
    (agree : ∀ table, List.Forall₂ (Row.Agrees (graph.Exposes table)) (work.database.rows table)
      (other.database.rows table)) :
    ((Operations.search context name body).runOn work).1 = ((Operations.search context name body).runOn other).1 := by
  subst known
  have sound := Graph.sound_of_build built
  have member := Graph.mem_of_get? named
  have fits := fits_of_validate accepted
  have indifferent := Operations.search_indifferent named accepted fun plan made =>
    Plan.alike_of_compile sound (Graph.alike_of_exposes agree) (Graph.follows_exposes _) member noScopes noScopesBelow
      (fits.parts.opens sound plain member)
      (fun _ walked => Plan.opens_of_includeHops sound plain member fits.includes rooted walked) made
  exact (indifferent _ _ rfl rfl).1

/-! ### Authors with a secret -/

namespace Secret

def users : Table := ⟨"users", [
  { name := "id", type := .integer, isKey := true, isNullable := false }, { name := "secret", type := .string }]⟩

/-- Posts with their author and a column of some name. -/
def posts (column : String) : Table := ⟨"posts", [
  { name := "id", type := .integer, isKey := true, isNullable := false }, { name := "author_id", type := .integer },
  { name := column, type := .string }]⟩

/-- Users expose their number alone, posts theirs and the column of some name. -/
def declarations (column : String) : List ResourceDeclaration := [
  { name := "User", table := users, options := [("fields", .list [.text "id"])], scopes := [], relations := [] },
  { name := "Post", table := posts column, options := [("fields", .list [.text "id", .text column])], scopes := [],
    relations := [{ name := "author", kind := .belongsTo, targets := [.text "User"], foreignKey := .text "author_id" }] }]

def author : Relation := ⟨"author", .belongsTo, ["User"], .parent ⟨"author_id", "id", none⟩⟩

def resource (name place : String) (table : Table) (writable : List String) (relations : List Relation) : Resource where
  name := name
  table := table
  key := "id"
  fields := "id" :: writable
  scopes := []
  limits := [.int 10, .int 25, .int 50]
  defaultLimit := .int 50
  defaultOrder := [("id", .desc)]
  relations := relations
  fillable := writable
  softDeletes := .bool false
  deletedAt := none
  morphAlias := .text place
  gates := true

def user : Resource := resource "User" "users" users [] []

def post (column : String) : Resource := resource "Post" "posts" (posts column) [column] [author]

def graph (column : String) : Graph := ⟨[user, post column]⟩

def database (column secret : String) : Database := ⟨[
  ⟨users, [[("id", .int 1), ("secret", .text secret)]]⟩,
  ⟨posts column, [[("id", .int 1), ("author_id", .int 1), (column, .null)]]⟩]⟩

theorem graph_of_declarations :
    Graph.build { tables := [users, posts "note"] } (declarations "note") = .ok (graph "note") := rfl

/-- Of users nothing is exposed but their number. -/
private theorem name_of_exposes {column name : String} (exposed : (graph column).Exposes "users" name) : name = "id" := by
  have ofUser {resource : Resource} (member : resource ∈ (graph column).resources) (place : resource.table.name = "users") :
      resource = user := by
    rcases List.mem_cons.1 member with rfl | other
    · rfl
    · obtain rfl := List.mem_singleton.1 other
      exact absurd place (by simp [post, resource, posts])
  generalize place : "users" = table at exposed
  cases exposed with
  | field member listed =>
    obtain rfl := ofUser member place.symm
    exact List.mem_singleton.1 listed
  | key member =>
    obtain rfl := ofUser member place.symm
    rfl
  | mark member marks =>
    obtain rfl := ofUser member place.symm
    cases marks
  | order member listed =>
    obtain rfl := ofUser member place.symm
    obtain rfl := List.mem_singleton.1 listed
    rfl
  | link member declared leadsTo listed =>
    rcases List.mem_cons.1 member with rfl | other
    · cases declared
    · obtain rfl := List.mem_singleton.1 other
      obtain rfl := List.mem_singleton.1 declared
      obtain rfl := List.mem_singleton.1 leadsTo
      rcases List.mem_cons.1 listed with rfl | further
      · rfl
      · obtain rfl := List.mem_singleton.1 further
        exact absurd place.symm (by simp [post, resource, posts])

/-- The two databases differ in a column that nothing exposes. -/
private theorem agree (column table : String) : List.Forall₂ (Row.Agrees ((graph column).Exposes table))
    ((database column "x").rows table) ((database column "y").rows table) := by
  by_cases ofUsers : table = "users"
  · subst ofUsers
    refine .cons (fun name exposed => ?_) .nil
    obtain rfl := name_of_exposes exposed
    rfl
  · have same : (database column "x").rows table = (database column "y").rows table := by
      have other : ("users" == table) = false := by simpa using Ne.symm ofUsers
      simp [Database.rows, Database.table?, database, users, other]
    rw [same]
    exact List.forall₂_same.2 fun _ _ _ _ => rfl

/-- A body that asks for the posts with a value in a field. -/
def body (field : String) (value : Json) : Json := .object [
  ("filters", .list [.object [("field", .text field), ("operator", .text "="), ("value", value)]]),
  ("selects", .list [.object [("field", .text "id")]])]

def spec (field : String) (value : Json) : Specification where
  filters := [⟨some field, "=", value, .and, none⟩]
  selects := ["id"]

/-- Asking for the posts of a user by the number of the user, nobody can tell the secret. -/
theorem search_unexposed_number :
    ((Operations.search { graph := graph "note" } "Post" (body "author.id" (.int 1))).runOn
        { database := database "note" "x" }).1 =
      ((Operations.search { graph := graph "note" } "Post" (body "author.id" (.int 1))).runOn
        { database := database "note" "y" }).1 := by
  have accepted : validate (graph "note") (post "note") (body "author.id" (.int 1)) = .ok (spec "author.id" (.int 1)) := by
    rfl
  exact search_unexposed graph_of_declarations (by decide) rfl rfl accepted rfl (by decide) (by decide)
    (agree "note")

def plan : Plan where
  resource := post "author.secret"
  page := {
    outputs := [.column ⟨0, 0, "id", .integer⟩ none]
    source := .table "posts"
    aliased := false
    conditions := counted
    order := [(⟨0, 0, "id", .integer⟩, .desc)]
    page := some (50, 0) }
  counted
  key := ⟨0, 0, "id", .integer⟩
  limit := 50
  pageNumber := 1
  offset := 0
  includes := []
where
  counted := [.exist ⟨0, 0, "id", .integer⟩ (.table "users") [
    .linked ⟨0, 0, "id", .integer⟩ ⟨1, 0, "author_id", .integer⟩,
    .compare .equal ⟨0, 0, "secret", .string⟩ ⟨.string, .text "x"⟩]]

/-- A column of posts whose name has a point in it is taken for the secret of their author. -/
theorem secret_seen :
    Graph.build { tables := [users, posts "author.secret"] } (declarations "author.secret") = .ok (graph "author.secret") ∧
      validate (graph "author.secret") (post "author.secret") (body "author.secret" (.text "x")) =
        .ok (spec "author.secret" (.text "x")) ∧
      (∀ table, List.Forall₂ (Row.Agrees ((graph "author.secret").Exposes table))
        ((database "author.secret" "x").rows table) ((database "author.secret" "y").rows table)) ∧
      ((Operations.search { graph := graph "author.secret" } "Post" (body "author.secret" (.text "x"))).runOn
          { database := database "author.secret" "x" }).1 ≠
        ((Operations.search { graph := graph "author.secret" } "Post" (body "author.secret" (.text "x"))).runOn
          { database := database "author.secret" "y" }).1 := by
  have accepted : validate (graph "author.secret") (post "author.secret") (body "author.secret" (.text "x")) =
      .ok (spec "author.secret" (.text "x")) := by rfl
  have none : Plan.includePaths (spec "author.secret" (.text "x")).includes = [] := List.mergeSort_nil
  have compiled : Plan.compile (graph "author.secret") (post "author.secret") (spec "author.secret" (.text "x")) =
      .ok plan := by
    rw [Plan.compile, none]
    cbv
  refine ⟨rfl, accepted, agree _, fun same => ?_⟩
  have found (secret : String) (result : SearchResult) (executed : (plan.execute.runOn {
      database := database "author.secret" secret, events := [.compiled "Post" 50 1 []] }).1 = .ok result) :
      ((Operations.search { graph := graph "author.secret" } "Post" (body "author.secret" (.text "x"))).runOn
        { database := database "author.secret" secret }).1 = .ok result :=
    search_of_execute rfl accepted compiled executed
  rw [found "x" { rows := [[("id", .int 1)]], total := 1, limit := 50, page := 1, offset := 0 } (by cbv),
    found "y" { rows := [], total := 0, limit := 50, page := 1, offset := 0 } (by cbv)] at same
  cases same

end Secret

end Search

end ResourceApi
