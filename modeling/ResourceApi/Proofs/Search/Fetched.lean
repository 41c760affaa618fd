import ResourceApi.Proofs.Search.Distributed
import ResourceApi.Proofs.Search.Pages
import ResourceApi.Proofs.Search.Planned

/-!
What a step of loading fetches. Steps go on from the page or from the records of a step before them; each brings for all
records that it goes on from what its relation leads to, and the columns that later steps need.
-/

namespace ResourceApi

open Outcome Query

/-- The related rows of a relation are those in the resources that it leads to. -/
theorem Related.each_eq_ok {graph : Graph} {owner : Resource} {relation : Relation} {all : List Related}
    (made : Related.each graph owner relation = .ok all) :
    List.Forall₂ (fun target related => target ∈ graph.resources ∧ Related.ofTarget owner relation target 0 = .ok related)
      (graph.destinations relation) all := by
  unfold Related.each at made
  unfold Graph.destinations
  split at made
  · next several =>
    rw [if_pos several]
    have pointwise := mapM_eq_ok.1 made
    clear made
    generalize relation.targets = names at pointwise ⊢
    induction pointwise with
    | nil => exact .nil
    | @cons name related names others built _ ih =>
      split at built
      · next target found =>
        rw [List.filterMap_cons_some found]
        exact .cons ⟨Graph.mem_of_get? found, built⟩ ih
      · cases built
  · next single =>
    simp only [bind_eq_ok, pure_eq_ok] at made
    obtain ⟨target, leadsTo, only, built, rfl⟩ := made
    rw [if_neg single, leadsTo]
    exact .cons ⟨Graph.mem_of_target leadsTo, built⟩ .nil

/-- Names that do not get in each other's way: relations are called otherwise than columns, and no column is called as the
rows of an include are labelled. -/
structure Graph.NamesApart (graph : Graph) : Prop where
  relations : ∀ resource ∈ graph.resources, ∀ relation ∈ resource.relations, ¬resource.table.hasColumn relation.name
  columns : ∀ resource ∈ graph.resources, ∀ column, resource.table.hasColumn column → Plan.IsFree column

/-- The two columns by which each link is followed have one type, and hold values of it. -/
def Graph.Typed (graph : Graph) (rows : String → List Row) : Prop :=
  ∀ owner ∈ graph.resources, ∀ relation ∈ owner.relations, ∀ target ∈ graph.destinations relation,
    relation.link.Typed rows owner target

namespace Plan

/-! ## Steps that go on from others -/

/-- A name behind a path is its last one. -/
theorem splitLast_under {path name : String} (plain : Path.IsPlain name) :
    Path.splitLast (Path.under path name) = (path, name) := by
  unfold Path.under
  split
  · next empty =>
    obtain rfl : path = "" := by simpa using empty
    exact Path.splitLast_of_isPlain plain
  · exact Path.splitLast_append path plain

/-- Steps in an order in which they can be done: each goes on from the page or from the records of one step before it,
and these are of the resource that has its relation. -/
structure Laid (graph : Graph) (resource : Resource) (hops : List Hop) : Prop where
  path : ∀ hop ∈ hops, hop.step.path = Path.under (start hop.step) hop.step.name
  owned : ∀ hop ∈ hops, hop.owner ∈ graph.resources ∧ hop.step.relation ∈ hop.owner.relations ∧
    hop.step.relation.name = hop.step.name
  first : ∀ hop ∈ hops, start hop.step = "" → hop.step.parentPath = none ∧ hop.owner = resource
  next : ∀ before ∈ hops, ∀ hop ∈ hops, start hop.step = before.step.path →
    hop.step.parentPath = some before.step.path ∧ ∀ target ∈ graph.destinations before.step.relation, hop.owner = target
  distinct : (hops.map (·.step.path)).Nodup
  sorted : hops.Pairwise fun a b => Path.points a.step.path ≤ Path.points b.step.path
  named : "" ∉ hops.map (·.step.path)

/-- A path that begins with a point goes on from a relation without a name. -/
theorem not_isRootless_of_named {includes : List Include} (named : "" ∉ includePaths includes) :
    ∀ item ∈ includes, ¬Path.IsRootless item.relation := by
  intro item asked rootless
  obtain ⟨first, rest, names⟩ := List.exists_cons_of_ne_nil (Path.names_ne_nil item.relation)
  have plain : Path.IsPlain first := Path.isPlain_of_mem_names (names ▸ List.mem_cons_self)
  rw [← Path.ofNames_names item.relation, names] at rootless
  have more : rest ≠ [] := by
    rintro rfl
    rw [Path.ofNames_singleton] at rootless
    exact plain (List.mem_of_mem_head? rootless)
  obtain rfl := (Path.isRootless_ofNames plain more).1 rootless
  refine named (mem_includePaths.2 ⟨item, asked, List.mem_map.2 ⟨0, ?_, ?_⟩⟩)
  · simp [names]
  · rw [names]
    exact Path.ofNames_singleton ""

/-- A relation that can be gone on from leads to one resource. -/
theorem destinations_eq {graph : Graph} {relation : Relation} {target : Resource} (nestable : relation.isNestable)
    (leadsTo : graph.target relation = .ok target) : graph.destinations relation = [target] := by
  have single : relation.kind ≠ .morphTo := by
    rintro several
    simp [Relation.isNestable, Kind.isNestable, several] at nestable
  rw [Graph.destinations, if_neg single, leadsTo]
  rfl

section Laying

variable {graph : Graph} {resource : Resource} (sound : graph.Sound) (plain : graph.PlainRelations)
  (member : resource ∈ graph.resources)
include sound plain member

theorem laid_of_placed {includes : List Include} {hops : List Hop} (paths : hops.map (·.step.path) = includePaths includes)
    (placed : ∀ hop ∈ hops, hop.Placed graph resource) (named : "" ∉ includePaths includes) :
    Laid graph resource hops := by
  have started (hop : Hop) (inside : hop ∈ hops) : ∃ before,
      hop.step.path = Path.ofNames (before ++ [hop.step.name]) ∧
        graph.Leads resource (before ++ [hop.step.name]) hop.owner hop.step.relation ∧
        (before = [] ∧ hop.step.parentPath = none ∨
          before ≠ [] ∧ Path.ofNames before ≠ "" ∧ hop.step.parentPath = some (Path.ofNames before)) := by
    obtain ⟨before, path, leads, parent⟩ := (placed hop inside).leads
    refine ⟨before, path, leads, ?_⟩
    by_cases empty : before = []
    · exact .inl ⟨empty, parent.trans (if_pos empty)⟩
    · refine .inr ⟨empty, fun nameless => ?_, parent.trans (if_neg empty)⟩
      have listed : hop.step.path ∈ includePaths includes := paths ▸ List.mem_map_of_mem inside
      rw [path, Path.ofNames_append empty (List.cons_ne_nil _ _), Path.ofNames_singleton] at listed
      have plainName := leads.isPlain plain member hop.step.name (by simp)
      exact named (nameless ▸ mem_includePaths_of_append plainName listed)
  constructor
  · intro hop inside
    obtain ⟨before, path, -, ⟨rfl, parent⟩ | ⟨nonempty, goesOn, parent⟩⟩ := started hop inside
    · rw [path, start, parent]
      exact Path.ofNames_singleton _
    · rw [path, start, parent, Path.ofNames_append nonempty (List.cons_ne_nil _ _), Path.ofNames_singleton,
        Option.getD_some, Path.under, if_neg (by simpa using goesOn)]
  · intro hop inside
    obtain ⟨before, -, leads, -⟩ := started hop inside
    obtain ⟨ownerMember, declared⟩ := leads.mem_owner member
    exact ⟨ownerMember, declared, (placed hop inside).named⟩
  · intro hop inside root
    obtain ⟨before, -, leads, ⟨rfl, parent⟩ | ⟨-, goesOn, parent⟩⟩ := started hop inside
    · refine ⟨parent, ?_⟩
      rcases leads.init with ⟨-, same⟩ | ⟨_, _, onward, -, -⟩
      · exact same
      · exact absurd rfl onward.ne_nil
    · rw [start, parent] at root
      exact absurd root goesOn
  · intro before earlier hop inside goesOn
    obtain ⟨names, -, leads, ⟨-, parent⟩ | ⟨nonempty, -, parent⟩⟩ := started hop inside
    · rw [start, parent, Option.getD_none] at goesOn
      have listed : before.step.path ∈ includePaths includes := paths ▸ List.mem_map_of_mem earlier
      exact absurd (goesOn.symm ▸ listed) named
    · rw [start, parent, Option.getD_some] at goesOn
      refine ⟨parent.trans (congrArg some goesOn), ?_⟩
      rcases leads.init with ⟨empty, -⟩ | ⟨_, between, onward, nestable, reaches⟩
      · exact absurd empty nonempty
      · obtain ⟨-, rfl, -⟩ := (placed before earlier).target_eq sound plain member goesOn.symm onward reaches
        rw [destinations_eq nestable reaches]
        rintro target listed
        exact (List.mem_singleton.1 listed).symm
  · exact paths ▸ nodup_includePaths includes
  · have ordered := pairwise_includePaths includes
    rwa [← paths, List.pairwise_map] at ordered
  · exact paths ▸ named

end Laying

/-! ## One step -/

/-- What one step is to bring for some records, with their places among them. -/
def fetched (graph : Graph) (rows : String → List Row) (hop : Hop) (item : Include) (records : List Row) :
    List (Nat × Resource × Frame) :=
  (graph.destinations hop.step.relation).flatMap fun target => records.zipIdx.flatMap fun (record, place) =>
    (limited item.limit (graph.linked rows hop.owner target hop.step.relation.link item record)).map (place, target, ·)

/-- Of what items give, each with the place of its item, that of one place is what the item there gives. -/
theorem given_at {α β : Type} (give : α → List β) {items : List α} {start place : Nat} {item : α}
    (stands : (item, place) ∈ items.zipIdx start) :
    (((items.zipIdx start).flatMap fun entry => (give entry.1).map (entry.2, ·)).filter (·.1 == place)).map (·.2) =
      give item := by
  induction items generalizing start with
  | nil => cases stands
  | cons first rest ih =>
    rw [List.zipIdx_cons, List.flatMap_cons, List.filter_append, List.map_append]
    rcases List.mem_cons.1 (List.zipIdx_cons ▸ stands) with here | later
    · cases here
      have none : ((rest.zipIdx (place + 1)).flatMap fun entry => (give entry.1).map (entry.2, ·)).filter
          (·.1 == place) = [] := by
        refine List.filter_eq_nil_iff.2 fun entry inside => ?_
        obtain ⟨⟨other, index⟩, among, given⟩ := List.mem_flatMap.1 inside
        obtain ⟨_, -, rfl⟩ := List.mem_map.1 given
        have behind := (List.mem_zipIdx among).1
        simp only [beq_iff_eq]
        omega
      simp [none, List.filter_map, Function.comp_def]
    · have behind := (List.mem_zipIdx later).1
      have other : (start == place) = false := beq_eq_false_iff_ne.2 (by omega)
      rw [ih later]
      simp [List.filter_map, Function.comp_def, other]

/-- What is fetched for the record at some place is what the include brings for it. -/
theorem fetched_at {graph : Graph} {rows : String → List Row} {hop : Hop} {item : Include} {records : List Row}
    {record : Row} {place : Nat} (stands : (record, place) ∈ records.zipIdx) :
    ((fetched graph rows hop item records).filter (·.1 == place)).map (·.2) =
      graph.brought rows hop.owner hop.step.relation item record := by
  rw [fetched, List.filter_flatMap, List.map_flatMap, Graph.brought]
  refine congrArg (List.flatMap · _) (funext fun target => ?_)
  rw [← given_at (fun record => (limited item.limit
    (graph.linked rows hop.owner target hop.step.relation.link item record)).map (target, ·)) stands]
  simp only [List.map_map, Function.comp_def]

/-- The queries of a step, one for each resource that its relation leads to. -/
theorem loads_of_loadHop {graph : Graph} {includes : List Include} {hops : List Hop} {hop : Hop} {step : IncludeStep}
    (loaded : loadHop graph includes hops hop = .ok step) :
    step.limit = (searchOf hop.step.relation (requested includes hop.step.path)).limit ∧
      List.Forall₂ (fun target query => target ∈ graph.resources ∧
          Loads graph hop.owner target hop.step.relation (searchOf hop.step.relation (requested includes hop.step.path))
            (requiredColumns hops (some hop.step.path)) query)
        (graph.destinations hop.step.relation) step.queries := by
  simp only [loadHop, bind_eq_ok, pure_eq_ok] at loaded
  obtain ⟨all, given, queries, made, rfl⟩ := loaded
  refine ⟨rfl, forall₂_trans (Related.each_eq_ok given) (mapM_eq_ok.1 made) ?_⟩
  rintro target related query ⟨targetMember, built⟩ compiled
  simp only [bind_eq_ok, pure_eq_ok] at compiled
  obtain ⟨inner, compiled, rfl⟩ := compiled
  exact ⟨targetMember, related, built, compiled, rfl, rfl, rfl⟩

/-- What the query of a step shows are columns of the target. -/
theorem Loads.hasColumn {graph : Graph} {owner target : Resource} {relation : Relation} {item : Include}
    {required : List String} {query : IncludeQuery} (loads : Loads graph owner target relation item required query) {name : String}
    (listed : name ∈ askedFields target item.selects ∨ name ∈ required) : target.table.hasColumn name := by
  obtain ⟨related, built, made, -⟩ := loads
  obtain ⟨_, _, shown, _, -, -, columns, -⟩ := includeQuery_made made
  obtain ⟨-, rfl, -⟩ := Related.ofTarget_eq_ok built
  exact hasColumn_of_columns columns listed

/-- A record on a shelf, and a row that carries what the steps that go on from it need. -/
structure Shelved (rows : String → List Row) (hops : List Hop) (path : String) (origin : Resource × Row) (row : Members) :
    Prop where
  listed : origin.2 ∈ rows origin.1.table.name
  carries : ∀ hop ∈ hops, start hop.step = path →
    hop.owner = origin.1 ∧ origin.1.table.Shows hop.step.relation.parentColumns origin.2 row

/-- A record that was loaded for another one. -/
structure Given (rows : String → List Row) (hops : List Hop) (hop : Hop) (item : Include)
    (given : Nat × Resource × Frame) (loaded : Loaded) : Prop where
  place : loaded.parent = given.1
  columns : ∀ name ∈ askedFields given.2.1 item.selects, given.2.1.table.hasColumn name
  shows : given.2.1.table.Shows (askedFields given.2.1 item.selects) (given.2.2.getD 0 []) loaded.row
  shelved : Shelved rows hops hop.step.path (given.2.1, given.2.2.getD 0 []) loaded.row

section Step

variable {graph : Graph} {resource : Resource} {includes : List Include} {hops : List Hop} {rows : String → List Row}
  (sound : graph.Sound) (apart : graph.NamesApart) (laid : Laid graph resource hops)
include sound apart laid

omit sound in
/-- What a step puts into a record is no column of its table. -/
theorem not_hasColumn_of_puts {path : String} {part : List Hop} (among : part ⊆ hops) {steps : List IncludeStep}
    (loaded : List.Forall₂ (fun hop step => loadHop graph includes hops hop = .ok step) part steps)
    {origin : Resource × Row} {row : Members} (shelved : Shelved rows hops path origin row) {key : String}
    (puts : Puts steps path key) : ¬origin.1.table.hasColumn key := by
  obtain ⟨step, inside, starts, rfl⟩ := puts
  obtain ⟨hop, listed, made⟩ := forall₂_mem_right loaded inside
  obtain ⟨-, sameParent, sameName, -⟩ := step_of_loadHop made
  obtain ⟨ownerMember, declared, named⟩ := laid.owned hop (among listed)
  rw [start, sameParent, ← start] at starts
  obtain ⟨owned, -⟩ := shelved.carries hop (among listed) starts
  rw [sameName, ← named, ← owned]
  exact apart.relations _ ownerMember _ declared

/-- A record that others were put into still carries what the steps need. -/
theorem Shelved.kept {path : String} {part : List Hop} (among : part ⊆ hops) {steps : List IncludeStep}
    (loaded : List.Forall₂ (fun hop step => loadHop graph includes hops hop = .ok step) part steps)
    {origin : Resource × Row} {old new : Loaded} (shelved : Shelved rows hops path origin old.row)
    (kept : old.Kept (Puts steps path) new) : Shelved rows hops path origin new.row := by
  refine ⟨shelved.listed, fun hop inside starts => ?_⟩
  obtain ⟨owned, shows⟩ := shelved.carries hop inside starts
  refine ⟨owned, shows_of_kept shows kept fun name needed puts => ?_⟩
  refine not_hasColumn_of_puts apart laid among loaded shelved puts ?_
  obtain ⟨ownerMember, declared, -⟩ := laid.owned hop inside
  exact owned ▸ ((sound _ ownerMember).relations _ declared).columns name needed

theorem Given.kept {part : List Hop} (among : part ⊆ hops) {steps : List IncludeStep}
    (loaded : List.Forall₂ (fun hop step => loadHop graph includes hops hop = .ok step) part steps) {hop : Hop}
    {item : Include} {given : Nat × Resource × Frame} {old new : Loaded} (isGiven : Given rows hops hop item given old)
    (kept : old.Kept (Puts steps hop.step.path) new) : Given rows hops hop item given new where
  place := kept.1.trans isGiven.place
  columns := isGiven.columns
  shows := shows_of_kept isGiven.shows kept fun name asked puts =>
    not_hasColumn_of_puts apart laid among loaded isGiven.shelved puts (isGiven.columns name asked)
  shelved := isGiven.shelved.kept sound apart laid among loaded kept

omit sound apart laid in
private theorem mem_frames_of_limited {owner target : Resource} {link : Link} {item : Include} {record : Row} {frame : Frame}
    (taken : frame ∈ limited item.limit (graph.linked rows owner target link item record)) :
    frame ∈ link.frames rows target := by
  have listed : frame ∈ graph.linked rows owner target link item record := by
    unfold limited at taken
    split at taken
    · exact taken
    · exact List.mem_of_mem_take taken
  exact List.mem_of_mem_filter (mem_firstInOrder.1 listed)

omit sound apart laid in
theorem noScopes_searchOf (noScopes : ∀ item ∈ includes, item.scopes = []) (relation : Relation) (path : String) :
    (searchOf relation (requested includes path)).scopes = [] := by
  unfold searchOf requested
  split
  · cases found : includes.reverse.find? (·.relation == path) with
    | none => rfl
    | some item => exact noScopes item (by simpa using List.mem_of_find?_eq_some found)
  · rfl

/-- One query of a step loads what the include brings of one resource. -/
private theorem given_of_loads {hop : Hop} (inside : hop ∈ hops) {step : IncludeStep} {target : Resource}
    (member : target ∈ graph.resources) (leadsTo : target ∈ graph.destinations hop.step.relation) {item : Include}
    {query : IncludeQuery}
    (loads : Loads graph hop.owner target hop.step.relation item (requiredColumns hops (some hop.step.path)) query)
    (limit : step.limit = item.limit) (noScopes : item.scopes = [])
    (notNegative : ∀ count, item.limit = some count → 0 ≤ count) {work after : Work} {rows : String → List Row}
    (same : work.database.rows = rows) (typed : hop.step.relation.link.Typed rows hop.owner target) {records : List Row}
    {parents : List Members} (stand : List.Forall₂ (Stands rows hop.owner hop.step.relation) records parents)
    {found : List Loaded} (ran : (loadQuery step parents query).runOn work = (.ok found, after)) :
    List.Forall₂ (Given rows hops hop item)
      (records.zipIdx.flatMap fun (record, place) => (limited item.limit
        (graph.linked rows hop.owner target hop.step.relation.link item record)).map (place, target, ·)) found := by
  subst same
  have given := loadQuery_eq_ok sound member loads noScopes limit notNegative
    (askedFields target item.selects ++ requiredColumns hops (some hop.step.path))
    (fun name => List.mem_append.1) (fun name listed => apart.columns _ member _ (loads.hasColumn (List.mem_append.1 listed)))
    typed stand ran
  have tagged : (records.zipIdx.flatMap fun (record, place) => (limited item.limit
      (graph.linked work.database.rows hop.owner target hop.step.relation.link item record)).map (place, target, ·)) =
      (records.zipIdx.flatMap fun (record, place) => (limited item.limit
        (graph.linked work.database.rows hop.owner target hop.step.relation.link item record)).map (place, ·)).map
          fun entry => (entry.1, target, entry.2) := by
    simp only [List.map_flatMap, List.map_map, Function.comp_def]
  rw [tagged, List.forall₂_map_left_iff]
  refine (forall₂_and_mem given).imp ?_
  rintro ⟨place, frame⟩ loaded ⟨listed, -, samePlace, shows⟩
  have onFrames : frame ∈ hop.step.relation.link.frames work.database.rows target := by
    obtain ⟨⟨record, _⟩, -, taken⟩ := List.mem_flatMap.1 listed
    obtain ⟨_, linked, same⟩ := List.mem_map.1 taken
    cases same
    exact mem_frames_of_limited linked
  refine ⟨samePlace, fun name asked => loads.hasColumn (.inl asked), fun name asked => shows name (List.mem_append_left _ asked),
    (Link.mem_of_mem_frames onFrames).1, fun next listedNext goesOn => ?_⟩
  obtain ⟨parent, owned⟩ := laid.next hop inside next listedNext goesOn
  refine ⟨owned target leadsTo, fun name needed => shows name (List.mem_append_right _ ?_)⟩
  exact List.mem_flatMap.2 ⟨next, List.mem_filter.2 ⟨listedNext, by simpa using parent⟩, needed⟩

/-- A step loads for each record what its include brings. -/
theorem given_of_loadHop {hop : Hop} (inside : hop ∈ hops) {step : IncludeStep}
    (made : loadHop graph includes hops hop = .ok step) (noScopes : ∀ item ∈ includes, item.scopes = [])
    (notNegative : ∀ count, (searchOf hop.step.relation (requested includes hop.step.path)).limit = some count →
      0 ≤ count) {work after : Work} (typed : graph.Typed work.database.rows)
    {records : List Row} {parents : List Members}
    (stand : List.Forall₂ (Stands work.database.rows hop.owner hop.step.relation) records parents)
    {found : List (List Loaded)}
    (ran : (step.queries.mapM (loadQuery step parents)).runOn work = (.ok found, after)) :
    after.database = work.database ∧
      List.Forall₂ (Given work.database.rows hops hop (searchOf hop.step.relation (requested includes hop.step.path)))
        (fetched graph work.database.rows hop (searchOf hop.step.relation (requested includes hop.step.path)) records)
        found.flatten := by
  obtain ⟨limit, loads⟩ := loads_of_loadHop made
  obtain ⟨same, results⟩ := @Job.mapM_eq_ok _ _ _ _ _ _ _ (fun reached => reached.database = work.database) rfl
    (fun _ _ _ _ kept ran => (loadQuery_database ran).trans kept) ran
  refine ⟨same, ?_⟩
  rw [fetched, List.flatMap_def]
  refine List.rel_flatten ?_
  rw [List.forall₂_map_left_iff]
  refine forall₂_trans (forall₂_and_mem loads) results ?_
  rintro target query loaded ⟨leadsTo, -, targetMember, ofTarget⟩ ⟨before, after, kept, ran⟩
  exact given_of_loads sound apart laid inside targetMember leadsTo ofTarget limit (noScopes_searchOf noScopes _ _)
    notNegative
    (congrArg Database.rows kept) (typed _ (laid.owned hop inside).1 _ (laid.owned hop inside).2.1 target leadsTo) stand ran

end Step

end Plan

end ResourceApi
