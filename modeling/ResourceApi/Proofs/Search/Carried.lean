import ResourceApi.Proofs.Search.Attached

/-!
The includes of a search. Under the name of each included relation a record of the result carries the records that the
relation links to it, those that are live and that the filters of the include admit, in its order and up to its limit; and
so do these records in turn.
-/

namespace ResourceApi

open Outcome Query

/-- Whether a row that stands for a record behind some relations carries what the includes of a search bring for it: the
records brought, each showing the fields asked for, in a list or the first of them alone; and these carry theirs, down to
some depth. -/
def Graph.Carries (graph : Graph) (rows : String → List Row) (includes : List Include) :
    Nat → List String → Resource → Row → Members → Prop
  | 0, _, _, _, _ => True
  | depth + 1, names, owner, record, shown =>
    ∀ relation ∈ owner.relations, Path.ofNames (names ++ [relation.name]) ∈ Plan.includePaths includes →
      let item := Plan.searchOf relation (Plan.requested includes (Path.ofNames (names ++ [relation.name])))
      ∃ children : List Members,
        shown.get? relation.name = some (Plan.attachment relation.kind.cardinality children) ∧
          List.Forall₂ (fun found child =>
              found.1.table.Shows (Plan.askedFields found.1 item.selects) (found.2.getD 0 []) child ∧
                Carries graph rows includes depth (names ++ [relation.name]) found.1 (found.2.getD 0 []) child)
            (graph.brought rows owner relation item record) children

namespace Plan

variable {graph : Graph} {resource : Resource} {includes : List Include} {hops : List Hop} {rows : String → List Row}

theorem points_under {path name : String} (named : path ≠ "") (plain : Path.IsPlain name) :
    Path.points (Path.under path name) = Path.points path + 1 := by
  rw [Path.under, if_neg (by simpa using named), Path.points_append, Path.points_of_isPlain plain]

theorem ofNames_under {names : List String} (goesOn : names = [] ∨ Path.ofNames names ≠ "") (name : String) :
    Path.ofNames (names ++ [name]) = Path.under (Path.ofNames names) name := by
  rcases goesOn with rfl | named
  · exact Path.ofNames_singleton name
  · have nonempty : names ≠ [] := fun empty => named (empty ▸ rfl)
    rw [Path.ofNames_append nonempty (List.cons_ne_nil _ _), Path.ofNames_singleton, Path.under,
      if_neg (by simpa using named)]

theorem Attached.of_append {before after : List Hop} {path : String} {origin : Resource × Row} {shown : Members}
    (attached : Attached graph rows includes (before ++ after) path origin shown) :
    Attached graph rows includes after path origin shown := by
  induction before with
  | nil => exact attached
  | cons hop rest ih => exact ih attached.2

section Carried

variable (sound : graph.Sound) (plain : graph.PlainRelations) (laid : Laid graph resource hops)
include sound plain laid

/-- The step for a path is that of the relation whose name the path ends in. -/
theorem step_of_under {hop : Hop} (inside : hop ∈ hops) {owner : Resource} (ownerMember : owner ∈ graph.resources)
    {path : String} (owned : ∀ hop ∈ hops, start hop.step = path → hop.owner = owner) {relation : Relation}
    (declared : relation ∈ owner.relations) (same : hop.step.path = Path.under path relation.name) :
    start hop.step = path ∧ hop.step.name = relation.name ∧ hop.step.relation = relation := by
  obtain ⟨hopMember, declaredToo, named⟩ := laid.owned hop inside
  have cut := congrArg Path.splitLast ((laid.path hop inside).symm.trans same)
  rw [← named, splitLast_under (plain _ hopMember _ declaredToo),
    splitLast_under (plain _ ownerMember _ declared)] at cut
  obtain ⟨starts, sameName⟩ := Prod.mk.inj cut
  refine ⟨starts, named ▸ sameName, ?_⟩
  have found := (sound _ hopMember).relation?_eq declaredToo
  rw [owned hop inside starts, sameName, (sound _ ownerMember).relation?_eq declared] at found
  exact (Option.some.inj found).symm

omit sound in
/-- The steps that go on from a step come after it. -/
theorem mem_after {before after : List Hop} {hop : Hop} (whole : hops = before ++ hop :: after) {next : Hop}
    (inside : next ∈ hops) (goesOn : start next.step = hop.step.path) : next ∈ after := by
  have listed : hop ∈ hops := by simp [whole]
  obtain ⟨ownerMember, declared, named⟩ := laid.owned next inside
  have longer : Path.points next.step.path = Path.points hop.step.path + 1 := by
    rw [laid.path next inside, goesOn, ← named]
    refine points_under (fun nameless => laid.named ?_) (plain _ ownerMember _ declared)
    exact nameless ▸ List.mem_map_of_mem listed
  have sorted := laid.sorted
  rw [whole] at inside sorted
  rcases List.mem_append.1 inside with earlier | later
  · have shorter := (List.pairwise_append.1 sorted).2.2 next earlier hop List.mem_cons_self
    omega
  · rcases List.mem_cons.1 later with rfl | behind
    · omega
    · exact behind

/-- Rows to which all steps have attached their records carry what the includes bring. -/
theorem carries_of_attached (paths : hops.map (·.step.path) = includePaths includes) {depth : Nat} {before after : List Hop}
    (whole : hops = before ++ after) {names : List String} (goesOn : names = [] ∨ Path.ofNames names ≠ "")
    {owner : Resource} (ownerMember : owner ∈ graph.resources)
    (owned : ∀ hop ∈ hops, start hop.step = Path.ofNames names → hop.owner = owner)
    (behind : ∀ hop ∈ hops, start hop.step = Path.ofNames names → hop ∈ after) {record : Row} {shown : Members}
    (attached : Attached graph rows includes after (Path.ofNames names) (owner, record) shown) :
    graph.Carries rows includes depth names owner record shown := by
  induction depth generalizing before after names owner record shown with
  | zero => trivial
  | succ depth ih =>
    intro relation declared listed
    obtain ⟨hop, inside, samePath⟩ := List.mem_map.1 (paths ▸ listed)
    obtain ⟨starts, sameName, sameRelation⟩ := step_of_under sound plain laid inside ownerMember owned declared
      (samePath.trans (ofNames_under goesOn relation.name))
    obtain ⟨earlier, later, rfl⟩ := List.append_of_mem (behind hop inside starts)
    obtain ⟨children, found, brought⟩ := attached.of_append.1 starts
    rw [sameName, sameRelation] at found
    rw [samePath, sameRelation] at brought
    refine ⟨children, found, (forall₂_and_mem brought).imp ?_⟩
    rintro ⟨target, frame⟩ child ⟨isBrought, -, shows, attached⟩
    refine ⟨shows, ?_⟩
    have leadsTo : target ∈ graph.destinations hop.step.relation := by
      rw [sameRelation]
      obtain ⟨_, leadsTo, given⟩ := List.mem_flatMap.1 isBrought
      obtain ⟨_, -, same⟩ := List.mem_map.1 given
      cases same
      exact leadsTo
    have split : hops = (before ++ earlier) ++ hop :: later := by rw [whole, List.append_assoc]
    have done : hops = (before ++ earlier ++ [hop]) ++ later := by simpa using split
    refine ih done (.inr fun nameless => laid.named (paths ▸ nameless ▸ listed)) (Graph.mem_of_mem_destinations leadsTo)
      (fun next listed goesOn => ?_) (fun next listed goesOn => ?_) attached
    · exact (laid.next hop inside next listed (goesOn.trans samePath.symm)).2 target leadsTo
    · exact mem_after plain laid split listed (goesOn.trans samePath.symm)

end Carried

/-- The limits of the includes of a search are no negative numbers. -/
theorem limit_of_fits (sound : graph.Sound) (plain : graph.PlainRelations) (member : resource ∈ graph.resources)
    {spec : Specification} (fits : ∀ item ∈ spec.includes, item.Fits graph resource)
    (positive : ∀ resource ∈ graph.resources, ∀ count, resource.Limits (some count) → 0 < count)
    (unlimited : ∀ item ∈ spec.includes, ∀ relation target,
      graph.resolve? resource (.text item.relation) = .ok (some (relation, target)) → relation.kind = .morphTo →
        item.limit = none)
    (relation : Relation) (path : String) {count : Int}
    (limit : (searchOf relation (requested spec.includes path)).limit = some count) : 0 ≤ count := by
  have asked : (requested spec.includes path).limit = some count := by
    unfold searchOf at limit
    split at limit <;> exact limit
  unfold requested at asked
  cases found : spec.includes.reverse.find? (·.relation == path) with
  | none =>
    rw [found] at asked
    cases asked
  | some item =>
    rw [found, Option.getD_some] at asked
    have listed : item ∈ spec.includes := by simpa using List.mem_of_find?_eq_some found
    obtain ⟨_, _, between, target, -, leadsTo, -, -, resolved⟩ := (fits item listed).reaches sound plain member
    obtain ⟨_, _, resolvedToo, nested, -⟩ := (fits item listed).behind
    cases resolvedToo.symm.trans resolved
    by_cases several : between.kind = .morphTo
    · rw [unlimited item listed between target resolved several] at asked
      cases asked
    · have limits := (nested (by simpa [Relation.isNestable, Kind.isNestable] using several)).2
      rw [asked] at limits
      exact le_of_lt (positive target (Graph.mem_of_target leadsTo) count limits)

section Executed

variable (sound : graph.Sound) (plain : graph.PlainRelations) (apart : graph.NamesApart) (member : resource ∈ graph.resources)
  (laid : Laid graph resource hops) {spec : Specification} {plan : Plan} (compiled : Compiled graph resource spec plan)
  {shown aggregates : List Output}
  (columns : columns resource 0 spec.selects (requiredColumns hops none) = .ok shown)
  (outputs : plan.page.outputs = shown ++ aggregates)

include laid in
/-- The page and the steps have different paths. -/
theorem distinct_book (origins : List (Resource × Row)) :
    (hops.map (·.step.path) ++ [("", origins)].map (·.1)).Nodup :=
  List.nodup_append.2 ⟨laid.distinct, List.nodup_singleton _, by
    rintro path listed _ last rfl
    obtain rfl := List.mem_singleton.1 last
    exact laid.named listed⟩

include laid compiled columns outputs

/-- The records of the page, as they stand on the shelf before anything is loaded for them. -/
private theorem shelved_of_results {ground : Ground} {rows : List Members} (results : plan.page.results ground = .ok rows) :
    List.Forall₂ (fun frame row => Shelved ground.rows hops "" (resource, frame.getD 0 []) row ∧
      resource.table.Shows (askedFields resource spec.selects) (frame.getD 0 []) row) (plan.page.frames ground) rows := by
  have shows := shows_of_columns columns outputs results fun name => List.mem_append.1
  rw [List.forall₂_map_left_iff] at shows
  refine (forall₂_and_mem shows).imp fun frame row found => ?_
  obtain ⟨listed, -, shows⟩ := found
  refine ⟨⟨mem_rows_of_frames compiled.source listed, fun hop inside root => ?_⟩, ?_⟩
  · obtain ⟨atRoot, owned⟩ := laid.first hop inside root
    refine ⟨owned, fun name needed => shows name (List.mem_append_right _ ?_)⟩
    exact List.mem_flatMap.2 ⟨hop, List.mem_filter.2 ⟨inside, by simpa using atRoot⟩, needed⟩
  · exact fun name asked => shows name (List.mem_append_left _ asked)

/-- The page is put on the shelf first. -/
theorem keeps_of_results {ground : Ground} {rows : List Members} (results : plan.page.results ground = .ok rows) :
    Shelf.Keeps (fun path origin loaded => Shelved ground.rows hops path origin loaded.row)
      [("", (plan.page.frames ground).map fun frame => (resource, frame.getD 0 []))] [("", rows.map (⟨·, 0⟩))] := by
  refine .cons ⟨rfl, ?_⟩ .nil
  rw [List.forall₂_map_left_iff, List.forall₂_map_right_iff]
  exact (shelved_of_results laid compiled columns outputs results).imp fun frame row => And.left

include sound plain apart member

/-- The records of a result carry what the includes bring for them. -/
theorem carries_of_execute (paths : hops.map (·.step.path) = includePaths spec.includes)
    (steps : List.Forall₂ (fun hop step => loadHop graph spec.includes hops hop = .ok step) hops plan.includes)
    (noScopesBelow : ∀ item ∈ spec.includes, item.scopes = [])
    (notNegative : ∀ hop ∈ hops, ∀ count,
      (searchOf hop.step.relation (requested spec.includes hop.step.path)).limit = some count → 0 ≤ count)
    {work after : Work} (typed : graph.Typed work.database.rows) {result : SearchResult}
    (ran : plan.execute.runOn work = (.ok result, after)) :
    List.Forall₂ (fun frame row => resource.table.Shows (askedFields resource spec.selects) (frame.getD 0 []) row ∧
        ∀ depth, graph.Carries work.database.rows spec.includes depth [] resource (frame.getD 0 []) row)
      (plan.page.frames (ground work.database [])) result.rows := by
  obtain ⟨rows, shelf, results, loaded, rfl⟩ := execute_eq_ok ran
  have shelved := shelved_of_results laid compiled columns outputs results
  have keeps := keeps_of_results laid compiled columns outputs results
  have attached := (attached_of_loadAll sound apart laid noScopesBelow notNegative typed (List.Subset.refl hops) steps
    work.start_database (distinct_book laid _) keeps loaded).rowsAt ""
  have kept : List.Forall₂ (Loaded.Kept (Puts plan.includes "")) (rows.map (⟨·, 0⟩)) (rowsAt shelf "") :=
    kept_of_grown (loadAll_grown loaded) ""
  simp only [List.lookup, beq_self_eq_true, Option.getD_some] at attached
  rw [List.forall₂_map_left_iff] at attached kept
  have shows := forall₂_trans shelved kept fun frame row loaded before changed =>
    shows_of_kept before.2 changed fun name asked puts =>
      not_hasColumn_of_puts apart laid (List.Subset.refl hops) steps before.1 puts (hasColumn_of_columns columns (.inl asked))
  rw [List.forall₂_map_right_iff]
  refine shows.mp (fun frame loaded shows attached => ⟨shows, fun depth => ?_⟩) attached
  exact carries_of_attached sound plain laid paths (List.nil_append hops).symm (.inl rfl) member
    (fun hop inside root => (laid.first hop inside root).2) (fun hop inside _ => inside) attached

end Executed

end Plan

namespace Search

/-- Every record of a result carries under the name of each included relation the records that the relation links to it,
as far as the filters of the include admit them, in its order and up to its limit, and they carry theirs. -/
theorem carries_of_search {graph : Graph} {resource : Resource} {database : Database} {schema : Schema}
    {declarations : List ResourceDeclaration} (built : Graph.build schema declarations = .ok graph)
    (plain : graph.PlainRelations) (apart : graph.NamesApart)
    (positive : ∀ resource ∈ graph.resources, ∀ count, resource.Limits (some count) → 0 < count)
    (typed : graph.Typed database.rows) {spec : Specification} {result : SearchResult}
    (returned : Returned graph resource database spec result) (noScopes : spec.scopes = [])
    (noScopesBelow : ∀ item ∈ spec.includes, item.scopes = [])
    (unlimited : ∀ item ∈ spec.includes, ∀ relation target,
      graph.resolve? resource (.text item.relation) = .ok (some (relation, target)) → relation.kind = .morphTo →
        item.limit = none)
    (named : "" ∉ Plan.includePaths spec.includes) :
    ∃ records : List Row,
      (∀ record ∈ records, record ∈ graph.found database.rows resource spec.filters spec.sorts) ∧
        List.Forall₂ (fun record row => resource.table.Shows (Plan.askedFields resource spec.selects) record row ∧
            ∀ depth, graph.Carries database.rows spec.includes depth [] resource record row) records result.rows := by
  obtain ⟨known, found, accepted, stored, ran⟩ := returned
  have sound := Graph.sound_of_build built
  have member : resource ∈ graph.resources := List.mem_of_find?_eq_some found
  have fits := fits_of_validate accepted
  obtain ⟨plan, started, finished, made, executed, same⟩ :=
    Operations.search_eq_ok ran (known ▸ found) (known.symm ▸ accepted)
  rw [known] at made
  have compiled := Plan.compiled_of_eq_ok made
  obtain rfl : started.database = database := same.trans stored
  obtain ⟨hops, shown, aggregates, walked, steps, columns, outputs⟩ := compiled.hops
  obtain ⟨hops, walkedToo, paths, placed⟩ := Plan.includeHops_of_rooted sound plain member fits.includes
    (Plan.not_isRootless_of_named named)
  obtain rfl := Except.ok.inj (walked.symm.trans walkedToo)
  have laid := Plan.laid_of_placed sound plain member paths placed named
  have carries := Plan.carries_of_execute sound plain apart member laid compiled columns outputs paths steps
    noScopesBelow (fun hop _ _ => Plan.limit_of_fits sound plain member fits.includes positive unlimited _ _) typed executed
  refine ⟨(plan.page.frames (Plan.ground started.database [])).map (·.getD 0 []), ?_, ?_⟩
  · intro record listed
    obtain ⟨frame, inside, rfl⟩ := List.mem_map.1 listed
    have isFound := Plan.mem_found_of_frames sound member compiled noScopes inside
    exact isFound
  · rw [List.forall₂_map_left_iff]
    exact carries

/-! ### Two generations -/

namespace Family

def table : Table := ⟨"people", [
  { name := "id", type := .integer, isKey := true, isNullable := false }, { name := "parent_id", type := .integer }]⟩

def schema : Schema := { tables := [table] }

/-- People with the one above them and those below. -/
def declaration : ResourceDeclaration where
  name := "Person"
  table := table
  options := [("fields", .list [.text "id"])]
  scopes := []
  relations := [
    { name := "parent", kind := .belongsTo, targets := [.text "Person"], foreignKey := .text "parent_id" },
    { name := "children", kind := .hasMany, targets := [.text "Person"], foreignKey := .text "parent_id" }]

def parent : Relation := ⟨"parent", .belongsTo, ["Person"], .parent ⟨"parent_id", "id", none⟩⟩

def children : Relation := ⟨"children", .hasMany, ["Person"], .child { foreignKey := "parent_id", localKey := "id" }⟩

def person : Resource where
  name := "Person"
  table := table
  key := "id"
  fields := ["id"]
  scopes := []
  limits := [.int 10, .int 25, .int 50]
  defaultLimit := .int 50
  defaultOrder := [("id", .desc)]
  relations := [parent, children]
  fillable := []
  softDeletes := .bool false
  deletedAt := none
  morphAlias := .text "people"
  gates := true

def graph : Graph := ⟨[person]⟩

theorem graph_of_declaration : Graph.build schema [declaration] = .ok graph := rfl

def row (id : Int) (parent : Cell) : Row := [("id", .int id), ("parent_id", parent)]

/-- Two people, the second below the first. -/
def database : Database := ⟨[⟨table, [row 1 .null, row 2 (.int 1)]⟩]⟩

/-- A body that asks for the children of people and for the parent of each of them. -/
def body : Json := .object [("includes", .list [.object [("relation", .text "children.parent")]])]

def spec : Specification := { includes := [{ relation := "children.parent" }] }

theorem accepted : validate graph person body = .ok spec := rfl

theorem paths : Plan.includePaths spec.includes = ["children", "children.parent"] := by
  refine List.mergeSort_of_pairwise (l := ["children", "children.parent"]) ?_
  decide

def result : SearchResult where
  rows := [
    [("id", .int 2), ("children", .list [])],
    [("id", .int 1), ("children", .list [.object [("id", .int 2), ("parent_id", .int 1), ("parent", .object [("id", .int 1)])]])]]
  total := 2
  limit := 50
  page := 1
  offset := 0

def id : ColumnRef := ⟨0, 0, "id", .integer⟩

def parentId : ColumnRef := ⟨0, 0, "parent_id", .integer⟩

/-- The query by which people are loaded for others. -/
def loading (shown : List ColumnRef) (matching : ColumnRef) (parentColumn : String) : IncludeQuery where
  query := {
    outputs := shown.map (.column · none) ++ [.column matching (some "__parent_key")]
    source := .table "people"
    aliased := true
    conditions := [.amongParents matching]
    order := [(id, .desc)]
    page := none }
  parentColumn
  parentType := none

def plan : Plan where
  resource := person
  page := {
    outputs := [.column id none]
    source := .table "people"
    aliased := false
    conditions := []
    order := [(id, .desc)]
    page := some (50, 0) }
  counted := []
  key := id
  limit := 50
  pageNumber := 1
  offset := 0
  includes := [
    { path := "children", parentPath := none, name := "children", relation := children,
      queries := [loading [id, parentId] parentId "id"] },
    { path := "children.parent", parentPath := some "children", name := "parent", relation := parent,
      queries := [loading [id] id "parent_id"] }]

theorem plan_of_spec : Plan.compile graph person spec = .ok plan := by
  rw [Plan.compile, paths]
  rfl

private theorem executed :
    (plan.execute.runOn { database, events := [.compiled "Person" 50 1 ["children", "children.parent"]] }).1 =
    .ok result := by cbv

theorem returned : Returned graph person database spec result :=
  .of_execute rfl accepted plan_of_spec executed

theorem apart : graph.NamesApart where
  relations := by decide
  columns resource member column present := by
    obtain rfl := List.mem_singleton.1 member
    have listed : column = "id" ∨ column = "parent_id" := by
      simpa [person, table, Table.columnNames] using Table.mem_of_hasColumn present
    rcases listed with rfl | rfl <;> exact ⟨by decide, by decide, by rw [Bool.not_eq_true]; cbv⟩

theorem typed : graph.Typed database.rows := by
  have keeps : ∀ record ∈ database.rows "people", ∀ column ∈ ["id", "parent_id"],
      ColumnType.integer.Keeps (record.cell column) := by
    change ∀ record ∈ [row 1 .null, row 2 (.int 1)], _
    simp only [List.forall_mem_cons]
    exact ⟨⟨.int rfl, .inl rfl, List.forall_mem_nil _⟩, ⟨.int rfl, .int rfl, List.forall_mem_nil _⟩, List.forall_mem_nil _⟩
  have linked : ∀ relation ∈ [parent, children], relation.link.Typed database.rows person person := by
    simp only [List.forall_mem_cons]
    refine ⟨⟨rfl, fun record inside => ?_, fun record inside => ?_⟩,
      ⟨rfl, fun record inside => ?_, fun record inside => ?_⟩, List.forall_mem_nil _⟩ <;>
    exact keeps record inside _ (by decide)
  intro owner member relation declared target leadsTo
  obtain rfl := List.mem_singleton.1 member
  obtain rfl := List.mem_singleton.1 (Graph.mem_of_mem_destinations leadsTo)
  exact linked relation declared

theorem positive (resource : Resource) (member : resource ∈ graph.resources) (count : Int)
    (limits : resource.Limits (some count)) : 0 < count := by
  obtain rfl := List.mem_singleton.1 member
  have listed : count = 10 ∨ count = 25 ∨ count = 50 := by
    simpa [person, Json.isIn, Json.same, Json.sameScalar, Json.integer?] using limits count rfl
  omega

theorem carries_family :
    ∃ records : List Row, (∀ record ∈ records, record ∈ graph.found database.rows person [] []) ∧
      List.Forall₂ (fun record shown => person.table.Shows ["id"] record shown ∧
        ∀ depth, graph.Carries database.rows spec.includes depth [] person record shown) records result.rows := by
  refine carries_of_search graph_of_declaration (by decide) apart positive typed returned rfl (by decide) ?_ ?_
  · intro item asked relation target resolved several
    obtain rfl := List.mem_singleton.1 asked
    rfl
  · rw [paths]
    decide

end Family

/-! ### A relation without a name -/

namespace Nameless

def table (name key : String) : Table := ⟨name, [
  { name := "id", type := .integer, isKey := true, isNullable := false }, { name := key, type := .integer }]⟩

def schema : Schema := { tables := [table "firsts" "second_id", table "seconds" "first_id"] }

def declaration (name place key : String) (relations : List RelationDeclaration) : ResourceDeclaration where
  name := name
  table := table place key
  options := [("fields", .list [.text "id"])]
  scopes := []
  relations

/-- Firsts and seconds that belong to each other: a first by a relation without a name and by one of the name that seconds
have for theirs. -/
def declarations : List ResourceDeclaration := [
  declaration "First" "firsts" "second_id" [
    { name := "", kind := .belongsTo, targets := [.text "Second"], foreignKey := .text "second_id" },
    { name := "other", kind := .belongsTo, targets := [.text "Second"], foreignKey := .text "second_id" }],
  declaration "Second" "seconds" "first_id" [
    { name := "other", kind := .belongsTo, targets := [.text "First"], foreignKey := .text "first_id" }]]

def belonging (name target key : String) : Relation := ⟨name, .belongsTo, [target], .parent ⟨key, "id", none⟩⟩

def resource (name place key : String) (relations : List Relation) : Resource where
  name := name
  table := table place key
  key := "id"
  fields := ["id"]
  scopes := []
  limits := [.int 10, .int 25, .int 50]
  defaultLimit := .int 50
  defaultOrder := [("id", .desc)]
  relations
  fillable := []
  softDeletes := .bool false
  deletedAt := none
  morphAlias := .text place
  gates := true

def first : Resource :=
  resource "First" "firsts" "second_id" [belonging "" "Second" "second_id", belonging "other" "Second" "second_id"]

def second : Resource := resource "Second" "seconds" "first_id" [belonging "other" "First" "first_id"]

def graph : Graph := ⟨[first, second]⟩

theorem graph_of_declarations : Graph.build schema declarations = .ok graph := rfl

/-- One first and one second that belong to each other. -/
def database : Database := ⟨[
  ⟨table "firsts" "second_id", [[("id", .int 1), ("second_id", .int 1)]]⟩,
  ⟨table "seconds" "first_id", [[("id", .int 1), ("first_id", .int 1)]]⟩]⟩

/-- A body that asks for what firsts belong to, and for what these belong to. -/
def body : Json := .object [("includes", .list [.object [("relation", .text ".other")]])]

def spec : Specification := { includes := [{ relation := ".other" }] }

private theorem accepted : validate graph first body = .ok spec := rfl

private theorem paths : Plan.includePaths spec.includes = ["", ".other"] := by
  refine List.mergeSort_of_pairwise (l := ["", ".other"]) ?_
  decide

def id : ColumnRef := ⟨0, 0, "id", .integer⟩

def secondId : ColumnRef := ⟨0, 0, "second_id", .integer⟩

/-- The query by which seconds are loaded. -/
def loading : IncludeQuery where
  query := {
    outputs := [.column id none, .column id (some "__parent_key")]
    source := .table "seconds"
    aliased := true
    conditions := [.amongParents id]
    order := [(id, .desc)]
    page := none }
  parentColumn := "second_id"
  parentType := none

def plan : Plan where
  resource := first
  page := {
    outputs := [.column id none, .column secondId none]
    source := .table "firsts"
    aliased := false
    conditions := []
    order := [(id, .desc)]
    page := some (50, 0) }
  counted := []
  key := id
  limit := 50
  pageNumber := 1
  offset := 0
  includes := [
    { path := "", parentPath := none, name := "", relation := belonging "" "Second" "second_id", queries := [loading] },
    { path := ".other", parentPath := none, name := "other", relation := belonging "other" "Second" "second_id",
      queries := [loading] }]

private theorem plan_of_spec : Plan.compile graph first spec = .ok plan := by
  rw [Plan.compile, paths]
  rfl

def result : SearchResult where
  rows := [[("id", .int 1), ("second_id", .int 1), ("", .object [("id", .int 1), ("other", .null)])]]
  total := 1
  limit := 50
  page := 1
  offset := 0

private theorem executed : (plan.execute.runOn { database, events := [.compiled "First" 50 1 ["", ".other"]] }).1 =
    .ok result := by cbv

private theorem returned : Returned graph first database spec result :=
  .of_execute rfl accepted plan_of_spec executed

private theorem apart : graph.NamesApart where
  relations := by decide
  columns resource member column present := by
    have listed : column = "id" ∨ column = "second_id" ∨ column = "first_id" := by
      have named := Table.mem_of_hasColumn present
      simp only [graph, List.mem_cons, List.not_mem_nil, or_false] at member
      rcases member with rfl | rfl <;> simp [first, second, resource, table, Table.columnNames] at named <;> tauto
    rcases listed with rfl | rfl | rfl <;> exact ⟨by decide, by decide, by rw [Bool.not_eq_true]; cbv⟩

/-- The first is not given what its second belongs to, although that is asked for and the names are apart. -/
theorem not_carried_by_first :
    "" ∈ Plan.includePaths spec.includes ∧ graph.PlainRelations ∧ graph.NamesApart ∧
      Returned graph first database spec result ∧
      ¬∃ records : List Row, (∀ record ∈ records, record ∈ graph.found database.rows first [] []) ∧
        List.Forall₂ (fun record shown => first.table.Shows ["id"] record shown ∧
          ∀ depth, graph.Carries database.rows spec.includes depth [] first record shown) records result.rows := by
  refine ⟨by rw [paths]; decide, by decide, apart, returned, ?_⟩
  rintro ⟨records, found, each⟩
  obtain ⟨record, _, ⟨-, carries⟩, nothing, rfl⟩ := List.forall₂_cons_right_iff.1 each
  cases nothing
  obtain rfl : record = [("id", .int 1), ("second_id", .int 1)] :=
    List.mem_singleton.1 (Graph.mem_rows_of_found (found record List.mem_cons_self))
  have toSecond : graph.brought database.rows first (belonging "" "Second" "second_id") { relation := "" }
      [("id", .int 1), ("second_id", .int 1)] = [(second, [[("id", .int 1), ("first_id", .int 1)]])] := by cbv
  have toFirst : graph.brought database.rows second (belonging "other" "First" "first_id") { relation := ".other" }
      [("id", .int 1), ("first_id", .int 1)] = [(first, [[("id", .int 1), ("second_id", .int 1)]])] := by cbv
  obtain ⟨children, got, brought⟩ := carries 2 (belonging "" "Second" "second_id") List.mem_cons_self
    (by rw [paths]; decide)
  change List.Forall₂ _ (graph.brought database.rows first (belonging "" "Second" "second_id") { relation := "" } _) _
    at brought
  rw [toSecond] at brought
  obtain ⟨child, _, ⟨-, carries⟩, nothing, rfl⟩ := List.forall₂_cons_left_iff.1 brought
  cases nothing
  cases got
  obtain ⟨below, got, brought⟩ := carries (belonging "other" "First" "first_id") List.mem_cons_self (by rw [paths]; decide)
  change List.Forall₂ _ (graph.brought database.rows second (belonging "other" "First" "first_id")
    { relation := ".other" } _) _ at brought
  have none : below = [] := by
    cases below with
    | nil => rfl
    | cons other rest => cases got
  rw [none] at brought
  change List.Forall₂ _ (graph.brought database.rows second (belonging "other" "First" "first_id")
    { relation := ".other" } [("id", .int 1), ("first_id", .int 1)]) _ at brought
  rw [toFirst] at brought
  cases brought

end Nameless

end Search

end ResourceApi
