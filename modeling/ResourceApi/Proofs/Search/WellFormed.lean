import ResourceApi.Proofs.Relation.BroughtIn
import ResourceApi.Proofs.Search.Alike
import ResourceApi.Proofs.Search.Carried
import ResourceApi.Proofs.Search.Unfiltered
import ResourceApi.Proofs.Search.Walked

/-!
The steps that load the includes of a search. There is one for each path that is asked for and for each beginning of
one, in an order in which they can be taken, and what a step goes on from shows the columns by which its records are given
to their parents.
-/

namespace ResourceApi

open Outcome

/-- The include with which the records at a path are searched: the last one asked for the path, or one that asks for nothing
but the path. -/
inductive Include.IsFor (includes : List Include) (path : String) : Include → Prop where
  | asked {earlier later : List Include} {item : Include} (split : includes = earlier ++ item :: later)
      (same : item.relation = path) (last : ∀ other ∈ later, other.relation ≠ path) : IsFor includes path item
  | implied (absent : ∀ other ∈ includes, other.relation ≠ path) : IsFor includes path { relation := path }

/-- Scopes, filters, order and aggregates that can be put into a query for the records of a resource. -/
structure Include.Compiles (graph : Graph) (target : Resource) (item : Include) : Prop where
  scopes : ∃ conditions, Plan.scopeConditions target 0 item.scopes = .ok conditions
  filters : ∃ conditions, Plan.filtersCondition graph target 0 item.filters = .ok conditions
  order : ∃ columns, Plan.order target 0 item.sorts = .ok columns
  aggregates : ∀ measured ∈ item.aggregates, ∃ output, Plan.aggregate graph target 0 measured = .ok output

/-- A query shows a column of a table, which stands first in it, under its own name. -/
def Query.Selects (query : Query) (table : Table) (column : String) : Prop :=
  .column (table.ref 0 0 column) none ∈ query.outputs

/-- The columns by which the records of a query are given to their parents: one that is matched, and for a polymorphic link
one that tells the type. -/
def IncludeQuery.parentColumns (query : IncludeQuery) : List String :=
  query.parentColumn :: (query.parentType.map (·.1)).toList

/-- A step where its path leads, for the records of the owner. Its queries are for the include of its path, one for each
resource that its relation leads to. -/
structure IncludeStep.Follows (graph : Graph) (resource : Resource) (includes : List Include) (owner : Resource)
    (step : IncludeStep) : Prop where
  leads : ∃ before, step.path = Path.ofNames (before ++ [step.name]) ∧
    graph.Leads resource (before ++ [step.name]) owner step.relation ∧
    step.parentPath = (if before = [] then none else some (Path.ofNames before))
  searched : ∃ item required, item.IsFor includes step.path ∧ step.limit = item.limit ∧
    List.Forall₂ (fun target query => Plan.Loads graph owner target step.relation item required query)
      (graph.destinations step.relation) step.queries

namespace Plan

/-- Steps for the includes of a search that can be taken one after the other. -/
structure WellFormed (graph : Graph) (resource : Resource) (includes : List Include) (steps : List IncludeStep) : Prop where
  complete : ∀ path, path ∈ steps.map (·.path) ↔
    ∃ item ∈ includes, ∃ names ≠ [], names <+: Path.names item.relation ∧ path = Path.ofNames names
  distinct : (steps.map (·.path)).Nodup
  ordered : ∀ before step after parent, steps = before ++ step :: after → step.parentPath = some parent →
    parent ∈ before.map (·.path)
  each : ∀ step ∈ steps, ∃ owner, step.Follows graph resource includes owner ∧
    ∀ parent ∈ steps, step.parentPath = some parent.path → ∀ source ∈ parent.queries, ∀ query ∈ step.queries,
      ∀ column ∈ query.parentColumns, source.query.Selects owner.table column

/-- The steps for the includes of a search. -/
def planIncludes (graph : Graph) (resource : Resource) (includes : List Include) : Except Failure (List IncludeStep) := do
  let hops ← includeHops graph resource (includePaths includes)
  hops.mapM (loadHop graph includes hops)

/-! ## Paths and bodies -/

theorem mem_beginnings {path beginning : String} :
    beginning ∈ beginnings path ↔ ∃ names ≠ [], names <+: Path.names path ∧ beginning = Path.ofNames names := by
  simp only [beginnings, List.mem_map, List.mem_range]
  constructor
  · rintro ⟨count, short, rfl⟩
    refine ⟨_, ?_, List.take_prefix (count + 1) (Path.names path), rfl⟩
    simp [Path.names_ne_nil]
  · rintro ⟨names, nonempty, starts, rfl⟩
    have positive := List.length_pos_of_ne_nil nonempty
    have short := starts.length_le
    refine ⟨names.length - 1, by omega, ?_⟩
    rw [Nat.sub_add_cancel positive, ← List.prefix_iff_eq_take.1 starts]

theorem isFor_requested (includes : List Include) (path : String) : (requested includes path).IsFor includes path := by
  unfold requested
  cases found : includes.reverse.find? (·.relation == path) with
  | none =>
    refine .implied fun other listed same => ?_
    exact List.find?_eq_none.1 found other (List.mem_reverse.2 listed) (by simpa using same)
  | some item =>
    obtain ⟨same, later, earlier, split, others⟩ := List.find?_eq_some_iff_append.1 found
    have whole : includes = earlier.reverse ++ item :: later.reverse := by
      rw [← List.reverse_reverse includes, split]
      simp
    exact .asked whole (by simpa using same) fun other inside => by simpa using others other (List.mem_reverse.1 inside)

/-- There is one include for each path. -/
theorem eq_requested_of_isFor {includes : List Include} {path : String} {item : Include} (given : item.IsFor includes path) :
    item = requested includes path := by
  unfold requested
  cases given with
  | asked split same last =>
    subst split
    have behind (later : List Include) (last : ∀ other ∈ later, other.relation ≠ path) :
        later.reverse.find? (·.relation == path) = none :=
      List.find?_eq_none.2 fun other listed => by simpa using last other (List.mem_reverse.1 listed)
    simp [List.find?_append, behind _ last, same]
  | implied absent =>
    have none : includes.reverse.find? (·.relation == path) = none :=
      List.find?_eq_none.2 fun other listed => by simpa using absent other (List.mem_reverse.1 listed)
    rw [none, Option.getD_none]

/-! ## One step -/

section Step

variable {graph : Graph} {resource : Resource}

/-- A query for included records is made of their include's parts. -/
theorem includeQuery_isOk_iff (sound : graph.Sound) {owner target : Resource} {relation : Relation} {related : Related}
    (member : target ∈ graph.resources) (built : Related.ofTarget owner relation target 0 = .ok related) {item : Include}
    (exposed : ∀ name ∈ item.selects, name ∈ target.fields) {required : List String}
    (present : ∀ name ∈ required, target.table.hasColumn name) :
    (∃ query, includeQuery graph related item required = .ok query) ↔ item.Compiles graph target := by
  obtain ⟨-, rfl, start⟩ := Related.ofTarget_eq_ok built
  obtain ⟨shown, columns⟩ : ∃ shown, columns related.target 0 item.selects required = .ok shown := by
    refine exists_mapM fun entry listed => ?_
    have there : related.target.table.hasColumn entry.1 := by
      rcases mem_foldl_new.1 (mem_labelled listed) with asked | needed
      · exact hasColumn_of_asked (sound _ member) exposed _ asked
      · exact present _ needed
    dsimp only
    rw [ownColumn_eq there]
    exact ⟨_, rfl⟩
  simp only [includeQuery, start, columns, ok_bind, bind_eq_ok, pure_eq_ok]
  constructor
  · rintro ⟨_, scopes, ofScopes, filters, ofFilters, order, ordered, aggregates, measured, rfl⟩
    refine ⟨⟨_, ofScopes⟩, ⟨_, ofFilters⟩, ⟨_, ordered⟩, fun item asked => ?_⟩
    obtain ⟨output, -, made⟩ := forall₂_mem_left (mapM_eq_ok.1 measured) asked
    exact ⟨output, made⟩
  · rintro ⟨⟨scopes, ofScopes⟩, ⟨filters, ofFilters⟩, ⟨order, ordered⟩, each⟩
    obtain ⟨aggregates, measured⟩ := exists_mapM each
    exact ⟨_, scopes, ofScopes, filters, ofFilters, order, ordered, aggregates, measured, rfl⟩

/-- A relation leads to related rows of each of its resources. -/
theorem exists_each {owner target : Resource} {relation : Relation} (sound : relation.Sound graph owner)
    (leadsTo : graph.target relation = .ok target) : ∃ all, Related.each graph owner relation = .ok all := by
  unfold Related.each
  split
  · refine exists_mapM fun name listed => ?_
    obtain ⟨other, found⟩ := sound.targets name listed
    rw [found]
    exact Related.ofTarget_total owner other relation 0
  · obtain ⟨related, built⟩ := Related.ofTarget_total owner target relation 0
    exact ⟨[related], by rw [leadsTo, ok_bind, built]; rfl⟩

/-- The queries of a step show what their include asks for and what is needed of their records. -/
theorem Loads.selects {owner target : Resource} {relation : Relation} {item : Include} {required : List String}
    {query : IncludeQuery} (loads : Loads graph owner target relation item required query) {column : String}
    (needed : column ∈ required) : query.query.Selects target.table column := by
  obtain ⟨related, built, made, -⟩ := loads
  obtain ⟨-, rfl, start⟩ := Related.ofTarget_eq_ok built
  simp only [includeQuery, start, bind_eq_ok, pure_eq_ok] at made
  obtain ⟨scopes, -, filters, -, shown, columns, order, -, aggregates, -, same⟩ := made
  rw [Query.Selects, ← same]
  exact List.mem_append_left _ (List.mem_append_left _ (mem_columns columns (.inr needed)))

/-- The columns by which the records of a query are given to their parents are those that the relation needs. -/
theorem Loads.parentColumns_subset {owner target : Resource} {relation : Relation} {item : Include} {required : List String}
    {query : IncludeQuery} (loads : Loads graph owner target relation item required query) :
    query.parentColumns ⊆ relation.parentColumns := by
  obtain ⟨related, built, -, parentColumn, parentType, -⟩ := loads
  obtain ⟨-, own, told⟩ := Related.matching_eq built
  rw [IncludeQuery.parentColumns, parentColumn, parentType, own, told]
  refine List.cons_subset.2 ⟨relation.ownColumn_mem_parentColumns, fun column inside => ?_⟩
  obtain ⟨entry, typed, rfl⟩ := Option.map_eq_some_iff.1 (Option.mem_toList.1 inside)
  exact Relation.mem_parentColumns_of_toldType? typed

end Step

/-! ## All steps -/

section Steps

variable {graph : Graph} {resource : Resource} (sound : graph.Sound) (plain : graph.PlainRelations)
  (member : resource ∈ graph.resources) {includes : List Include} (fit : ∀ item ∈ includes, item.Fits graph resource)
  {hops : List Hop} (placed : ∀ hop ∈ hops, hop.Placed graph resource)
include sound plain member placed

/-- Where a relation has several targets nothing but the path and a limit is asked for. -/
theorem searchOf_requested (fit : ∀ item ∈ includes, item.Fits graph resource) {hop : Hop} (inside : hop ∈ hops) :
    searchOf hop.step.relation (requested includes hop.step.path) = requested includes hop.step.path := by
  by_cases nestable : hop.step.relation.isNestable
  · rw [searchOf, if_pos nestable]
  · rw [searchOf, if_neg nestable]
    generalize body : requested includes hop.step.path = item
    have given := body ▸ isFor_requested includes hop.step.path
    cases given with
    | implied => rfl
    | @asked earlier later item split same last =>
      have listed : item ∈ includes := by simp [split]
      obtain ⟨names, owner, relation, target, leads, leadsTo, joined, -, resolved⟩ :=
        (fit item listed).reaches sound plain member
      obtain ⟨-, rfl, rfl⟩ := (placed hop inside).target_eq sound plain member (same.symm.trans joined) leads leadsTo
      obtain ⟨_, _, resolvedToo, -, single⟩ := (fit item listed).behind
      cases resolvedToo.symm.trans resolved
      obtain ⟨path, filters, scopes, sorts, selects, aggregates, limit⟩ := item
      obtain ⟨rfl, rfl, rfl, rfl, rfl⟩ := single nestable
      rfl

/-- A step that goes on from another one goes on from the one resource behind it. -/
theorem destinations_of_next {hop next : Hop} (inside : hop ∈ hops) (listed : next ∈ hops)
    (goesOn : next.step.parentPath = some hop.step.path) :
    hop.step.relation.isNestable ∧ graph.destinations hop.step.relation = [next.owner] := by
  obtain ⟨before, -, leads, parent⟩ := (placed next listed).leads
  have nonempty : before ≠ [] := by
    rintro rfl
    cases parent.symm.trans goesOn
  rw [if_neg nonempty, goesOn] at parent
  rcases leads.init with ⟨empty, -⟩ | ⟨earlier, between, onward, nestable, reaches⟩
  · exact absurd empty nonempty
  · obtain ⟨-, rfl, -⟩ := (placed hop inside).target_eq sound plain member (Option.some.inj parent) onward reaches
    exact ⟨nestable, destinations_eq nestable reaches⟩

/-- The columns that are needed of the records of a step are columns of each table that they are from. -/
theorem hasColumn_of_requiredColumns {hop : Hop} (inside : hop ∈ hops) {target : Resource}
    (leadsTo : target ∈ graph.destinations hop.step.relation) {name : String}
    (required : name ∈ requiredColumns hops (some hop.step.path)) : target.table.hasColumn name := by
  obtain ⟨next, listed, goesOn, needed⟩ := mem_requiredColumns required
  rw [(destinations_of_next sound plain member placed inside listed goesOn).2] at leadsTo
  obtain rfl := List.mem_singleton.1 leadsTo
  obtain ⟨ownerMember, declared⟩ := (placed next listed).declared member
  exact ((sound _ ownerMember).relations _ declared).columns name needed

include fit

/-- A step is made if its include can be put into a query for each resource that it leads to. -/
theorem loadHop_isOk_iff {hop : Hop} (inside : hop ∈ hops) : (∃ step, loadHop graph includes hops hop = .ok step) ↔
    ∀ target ∈ graph.destinations hop.step.relation, (requested includes hop.step.path).Compiles graph target := by
  obtain ⟨ownerMember, declared⟩ := (placed hop inside).declared member
  obtain ⟨all, related⟩ := exists_each ((sound _ ownerMember).relations _ declared) (placed hop inside).target
  have targets := Related.each_eq_ok related
  have exposed (target : Resource) (leadsTo : target ∈ graph.destinations hop.step.relation) :
      ∀ name ∈ (requested includes hop.step.path).selects, name ∈ target.fields := by
    by_cases nestable : hop.step.relation.isNestable
    · rw [destinations_eq nestable (placed hop inside).target] at leadsTo
      obtain rfl := List.mem_singleton.1 leadsTo
      exact (requested_fits sound plain member fit (placed hop inside) nestable).selects
    · rw [← searchOf_requested sound plain member placed fit inside, searchOf, if_neg nestable]
      exact fun _ none => absurd none List.not_mem_nil
  have compiles (target : Resource) (leadsTo : target ∈ graph.destinations hop.step.relation) (related : Related)
      (targetMember : target ∈ graph.resources)
      (built : Related.ofTarget hop.owner hop.step.relation target 0 = .ok related) :=
    includeQuery_isOk_iff sound targetMember built (exposed target leadsTo) fun name required =>
      hasColumn_of_requiredColumns sound plain member placed inside leadsTo required
  simp only [loadHop, related, ok_bind, searchOf_requested sound plain member placed fit inside, bind_eq_ok, pure_eq_ok]
  constructor
  · rintro ⟨_, queries, made, rfl⟩ target leadsTo
    obtain ⟨related, listed, targetMember, built⟩ := forall₂_mem_left targets leadsTo
    obtain ⟨query, -, compiled⟩ := forall₂_mem_left (mapM_eq_ok.1 made) listed
    obtain ⟨inner, compiled, -⟩ := bind_eq_ok.1 compiled
    exact (compiles target leadsTo related targetMember built).1 ⟨inner, compiled⟩
  · intro each
    obtain ⟨queries, made⟩ := exists_mapM (f := fun related => do
        return ({
          query := ← includeQuery graph related (requested includes hop.step.path)
            (requiredColumns hops (some hop.step.path))
          parentColumn := related.parentColumn
          parentType := related.parentType
          byMoment := (hop.owner.table.ref 0 0 related.parentColumn).type = .datetime } : IncludeQuery))
      fun related (listed : related ∈ all) => by
        obtain ⟨target, leadsTo, targetMember, built⟩ := forall₂_mem_right targets listed
        obtain ⟨query, made⟩ := (compiles target leadsTo related targetMember built).2 (each target leadsTo)
        exact ⟨_, bind_eq_ok.2 ⟨query, made, rfl⟩⟩
    exact ⟨_, queries, made, rfl⟩

variable (paths : hops.map (·.step.path) = includePaths includes)
include paths

/-- The steps for the includes are made if each include can be put into queries where its path leads. -/
theorem mapM_loadHop_isOk_iff : (∃ steps, hops.mapM (loadHop graph includes hops) = .ok steps) ↔
    ∀ names owner relation, graph.Leads resource names owner relation →
      (∃ item ∈ includes, names <+: Path.names item.relation) → ∀ target ∈ graph.destinations relation,
        ∀ item : Include, item.IsFor includes (Path.ofNames names) → item.Compiles graph target := by
  constructor
  · rintro ⟨steps, made⟩ names owner relation leads ⟨asking, asked, starts⟩ target leadsTo item given
    have listed : Path.ofNames names ∈ includePaths includes :=
      mem_includePaths.2 ⟨asking, asked, mem_beginnings.2 ⟨names, leads.ne_nil, starts, rfl⟩⟩
    obtain ⟨hop, inside, samePath⟩ := List.mem_map.1 (paths ▸ listed)
    obtain ⟨before, path, onward, -⟩ := (placed hop inside).leads
    have sameNames : before ++ [hop.step.name] = names := by
      rw [← onward.names_ofNames plain member, ← path, samePath, leads.names_ofNames plain member]
    obtain ⟨-, rfl⟩ := (sameNames ▸ onward).unique sound member leads
    obtain ⟨step, -, loaded⟩ := forall₂_mem_left (mapM_eq_ok.1 made) inside
    rw [eq_requested_of_isFor given, ← samePath]
    exact (loadHop_isOk_iff sound plain member fit placed inside).1 ⟨step, loaded⟩ target leadsTo
  · intro each
    refine exists_mapM fun hop inside => (loadHop_isOk_iff sound plain member fit placed inside).2 fun target leadsTo => ?_
    obtain ⟨before, path, onward, -⟩ := (placed hop inside).leads
    have listed : hop.step.path ∈ includePaths includes := paths ▸ List.mem_map_of_mem inside
    obtain ⟨item, asked, begins⟩ := mem_includePaths.1 listed
    obtain ⟨names, nonempty, starts, joined⟩ := mem_beginnings.1 begins
    have plainNames : ∀ name ∈ names, Path.IsPlain name := fun name among =>
      Path.isPlain_of_mem_names (starts.subset among)
    have sameNames : before ++ [hop.step.name] = names := by
      rw [← onward.names_ofNames plain member, ← path, joined, Path.names_ofNames nonempty plainNames]
    refine each _ _ _ onward ⟨item, asked, sameNames ▸ starts⟩ target leadsTo _ ?_
    exact path ▸ isFor_requested includes hop.step.path

omit sound fit in
/-- The path that a step goes on from is that of a step before it. -/
private theorem mem_before_of_parent (rooted : ∀ item ∈ includes, ¬Path.IsRootless item.relation) {hop : Hop}
    (inside : hop ∈ hops) {before after : List String} (split : includePaths includes = before ++ hop.step.path :: after)
    {parent : String} (goesOn : hop.step.parentPath = some parent) : parent ∈ before := by
  obtain ⟨names, path, leads, start⟩ := (placed hop inside).leads
  have nonempty : names ≠ [] := by
    rintro rfl
    cases start.symm.trans goesOn
  rw [if_neg nonempty, goesOn] at start
  obtain rfl := Option.some.inj start
  have plainName : Path.IsPlain hop.step.name := leads.isPlain plain member _ (by simp)
  have joined : hop.step.path = Path.ofNames names ++ "." ++ hop.step.name := by
    rw [path, Path.ofNames_append nonempty (List.cons_ne_nil _ _), Path.ofNames_singleton]
  have cut : (Path.splitLast hop.step.path).1 = Path.ofNames names := by rw [joined, Path.splitLast_append _ plainName]
  refine cut ▸ (mem_before_includePaths split).resolve_left fun nameless => ?_
  have listed : hop.step.path ∈ includePaths includes := paths ▸ List.mem_map_of_mem inside
  rw [cut] at nameless
  obtain ⟨item, asked, rootless⟩ := isRootless_of_mem_includePaths listed (by
    rw [joined, nameless]
    simp [Path.IsRootless])
  exact rooted item asked rootless

/-- The steps for the includes are well-formed. -/
theorem wellFormed_of_loaded (rooted : ∀ item ∈ includes, ¬Path.IsRootless item.relation) {steps : List IncludeStep}
    (loaded : List.Forall₂ (fun hop step => loadHop graph includes hops hop = .ok step) hops steps) :
    WellFormed graph resource includes steps := by
  have stepPaths : steps.map (·.path) = includePaths includes :=
    paths ▸ (map_eq_of_forall₂ loaded fun hop step made => (step_of_loadHop made).1.symm).symm
  refine ⟨fun path => ?_, stepPaths ▸ nodup_includePaths includes, ?_, fun step listed => ?_⟩
  · rw [stepPaths, mem_includePaths]
    exact exists_congr fun item => and_congr_right fun _ => mem_beginnings
  · rintro before step after parent rfl goesOn
    obtain ⟨hop, inside, made⟩ := forall₂_mem_right loaded (List.mem_append_right before List.mem_cons_self)
    obtain ⟨samePath, sameParent, -⟩ := step_of_loadHop made
    have split : includePaths includes = before.map (·.path) ++ hop.step.path :: after.map (·.path) := by
      rw [← stepPaths, ← samePath, List.map_append, List.map_cons]
    exact mem_before_of_parent plain member placed paths rooted inside split (sameParent.symm.trans goesOn)
  · obtain ⟨hop, inside, made⟩ := forall₂_mem_right loaded listed
    obtain ⟨samePath, sameParent, sameName, sameRelation⟩ := step_of_loadHop made
    obtain ⟨limit, loads⟩ := loads_of_loadHop made
    rw [searchOf_requested sound plain member placed fit inside] at limit loads
    refine ⟨hop.owner, ⟨?_, requested includes hop.step.path, requiredColumns hops (some hop.step.path),
      samePath ▸ isFor_requested includes hop.step.path, limit, ?_⟩, ?_⟩
    · rw [samePath, sameParent, sameName, sameRelation]
      exact (placed hop inside).leads
    · rw [sameRelation]
      exact loads.imp fun _ _ both => both.2
    · intro parent parentListed goesOn source among query asked column needed
      obtain ⟨before, beforeInside, beforeMade⟩ := forall₂_mem_right loaded parentListed
      rw [sameParent, (step_of_loadHop beforeMade).1] at goesOn
      obtain ⟨target, leadsTo, -, fetches⟩ := forall₂_mem_right (loads_of_loadHop beforeMade).2 among
      rw [(destinations_of_next sound plain member placed beforeInside inside goesOn).2] at leadsTo
      obtain rfl := List.mem_singleton.1 leadsTo
      obtain ⟨_, -, -, ofQuery⟩ := forall₂_mem_right loads asked
      refine fetches.selects (List.mem_flatMap.2 ⟨hop, List.mem_filter.2 ⟨inside, by simpa using goesOn⟩, ?_⟩)
      exact ofQuery.parentColumns_subset needed

end Steps

/-- The steps for the includes of a validated search are made, unless scopes, filters, an order or aggregates cannot be put
into a query where they are asked for. They are well-formed, and the page shows what is needed of its records, provided
that no include begins with a point. -/
theorem includes_wellFormed_of_validate {schema : Schema} {declarations : List ResourceDeclaration} {graph : Graph}
    (built : Graph.build schema declarations = .ok graph) (plain : graph.PlainRelations) {resource : Resource}
    (member : resource ∈ graph.resources) {body : Json} {spec : Specification}
    (accepted : Search.validate graph resource body = .ok spec)
    (rooted : ∀ item ∈ spec.includes, ¬Path.IsRootless item.relation) :
    ((∃ steps, planIncludes graph resource spec.includes = .ok steps) ↔
        ∀ names owner relation, graph.Leads resource names owner relation →
          (∃ item ∈ spec.includes, names <+: Path.names item.relation) → ∀ target ∈ graph.destinations relation,
            ∀ item : Include, item.IsFor spec.includes (Path.ofNames names) → item.Compiles graph target) ∧
      (∀ steps, planIncludes graph resource spec.includes = .ok steps → WellFormed graph resource spec.includes steps) ∧
      ∀ base plan, compile graph resource spec base = .ok plan →
        planIncludes graph resource spec.includes = .ok plan.includes ∧
          ∀ step ∈ plan.includes, step.parentPath = none → ∀ query ∈ step.queries, ∀ column ∈ query.parentColumns,
            plan.page.Selects resource.table column := by
  have sound := Graph.sound_of_build built
  have fits := Search.fits_of_validate accepted
  obtain ⟨hops, made, paths, placed⟩ := includeHops_of_rooted sound plain member fits.includes rooted
  have planned : planIncludes graph resource spec.includes = hops.mapM (loadHop graph spec.includes hops) := by
    rw [planIncludes, made, ok_bind]
  refine ⟨?_, fun steps found => ?_, fun base plan compiled => ?_⟩
  · rw [planned]
    exact mapM_loadHop_isOk_iff sound plain member fits.includes placed paths
  · exact wellFormed_of_loaded sound plain member fits.includes placed paths rooted (mapM_eq_ok.1 (planned ▸ found))
  · simp only [compile, made, ok_bind, bind_eq_ok, pure_eq_ok] at compiled
    obtain ⟨_, -, _, -, _, -, steps, loaded, shown, columns, _, -, _, -, _, -, rfl⟩ := compiled
    refine ⟨planned.trans loaded, fun step listed root query asked column needed => ?_⟩
    obtain ⟨hop, inside, ofStep⟩ := forall₂_mem_right (mapM_eq_ok.1 loaded) listed
    obtain ⟨-, sameParent, -⟩ := step_of_loadHop ofStep
    obtain ⟨_, -, -, ofQuery⟩ := forall₂_mem_right (loads_of_loadHop ofStep).2 asked
    refine List.mem_append_left _ (mem_columns columns (.inr ?_))
    refine List.mem_flatMap.2 ⟨hop, List.mem_filter.2 ⟨inside, ?_⟩, ofQuery.parentColumns_subset needed⟩
    simpa [← sameParent] using root

namespace Unnamed

/-- From the first resource, a path through the relation without a name is accepted, but has no steps. -/
theorem accepted_without_steps :
    Graph.build schema declarations = .ok pair ∧ pair.PlainRelations ∧
      ∃ spec, Search.validate pair (linked "First" "" "Second") (body ".other") = .ok spec ∧
        (∃ item ∈ spec.includes, item.relation = ".other") ∧
        ∀ steps, planIncludes pair (linked "First" "" "Second") spec.includes ≠ .ok steps := by
  refine ⟨rfl, by decide, { includes := [{ relation := ".other" }] }, rfl, ⟨_, List.mem_cons_self, rfl⟩, ?_⟩
  rw [planIncludes, paths_of_unnamed]
  rintro steps ⟨⟩

end Unnamed

end Plan

namespace Search.Family

/-- The parents of the children of people are loaded by two steps, of which the first shows what the second needs. -/
theorem includes_wellFormed :
    Plan.WellFormed graph person spec.includes plan.includes ∧ ∀ step ∈ plan.includes, step.parentPath = none →
      ∀ query ∈ step.queries, ∀ column ∈ query.parentColumns, plan.page.Selects person.table column := by
  obtain ⟨-, wellFormed, ofPlan⟩ := Plan.includes_wellFormed_of_validate graph_of_declaration (by decide)
    List.mem_cons_self accepted (by decide)
  obtain ⟨planned, shown⟩ := ofPlan [] plan plan_of_spec
  exact ⟨wellFormed _ planned, shown⟩

end Search.Family

end ResourceApi
