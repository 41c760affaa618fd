import ResourceApi.Proofs.Search.Carried

/-!
Records that a relation links to a record are not lost on the way to it. Whatever scopes an include calls, a query for the
keys of several parents finds the rows that belong to each of them, and gives each parent its own.
-/

namespace ResourceApi

open Outcome Query

/-- Whether the scopes that are called let a record through. -/
def Resource.lets (resource : Resource) (calls : List ScopeCall) (record : Row) : Bool :=
  (Plan.scopeConditions resource 0 calls).toOption.all (·.all (Query.holds ⟨fun _ => [], []⟩ [[record]]))

/-- Whether a row that stands for a record behind some relations shows null under no relation of a single record that leads to
one: to a record that it links to the one of the row, and that the scopes and filters of the include let through. The same of
the rows that it carries, down to some depth. -/
def Graph.ShowsLinked (graph : Graph) (rows : String → List Row) (includes : List Include) :
    Nat → List String → Resource → Members → Prop
  | 0, _, _, _ => True
  | depth + 1, names, owner, shown =>
    ∀ relation ∈ owner.relations, Path.ofNames (names ++ [relation.name]) ∈ Plan.includePaths includes →
      let item := Plan.searchOf relation (Plan.requested includes (Path.ofNames (names ++ [relation.name])))
      ∃ children : List Members,
        shown.get? relation.name = some (Plan.attachment relation.kind.cardinality children) ∧
          (∃ record, Plan.Stands rows owner relation record shown) ∧
          (∀ record, Plan.Stands rows owner relation record shown →
            (∃ target ∈ graph.destinations relation, ∃ frame ∈ graph.linked rows owner target relation.link item record,
              target.lets item.scopes (frame.getD 0 [])) →
            relation.kind.cardinality = .one → shown.get? relation.name ≠ some .null) ∧
          ∀ child ∈ children, ∃ target ∈ graph.destinations relation,
            ShowsLinked graph rows includes depth (names ++ [relation.name]) target child

namespace Plan

variable {graph : Graph} {resource owner target : Resource} {relation : Relation} {related : Related} {item : Include}
  {required : List String} {ground : Ground} {frame : Frame}

/-! ## Scopes -/

/-- A condition on a column of the first table of a query. -/
private def IsOwnComparison (condition : Cond) : Prop :=
  ∃ comparison ref value, ref.frame = 0 ∧ ref.slot = 0 ∧ Cond.ofComparison comparison ref value = .ok condition

private theorem isOwn_of_demandColumn {table : Table} {arguments : List Json} {column : ScopeColumn} {ref : ColumnRef}
    (found : demandColumn table 0 arguments column = .ok ref) : ref.frame = 0 ∧ ref.slot = 0 := by
  cases column with
  | named name =>
    simp only [demandColumn] at found
    split at found
    · cases found
      exact ⟨rfl, rfl⟩
    · cases found
  | parameter position =>
    simp only [demandColumn, givenColumn] at found
    split at found
    · cases found
      exact ⟨rfl, rfl⟩
    · split at found <;> cases found

/-- Scopes compare columns of the records themselves. -/
private theorem isOwnComparison_of_scopes {calls : List ScopeCall} {conditions : List Cond}
    (made : scopeConditions resource 0 calls = .ok conditions) : ∀ condition ∈ conditions, IsOwnComparison condition := by
  simp only [scopeConditions, bind_eq_ok, pure_eq_ok] at made
  obtain ⟨found, each, rfl⟩ := made
  intro condition inside
  obtain ⟨ofCall, listed, among⟩ := List.mem_flatten.1 inside
  obtain ⟨call, -, called⟩ := mapM_mem each listed
  split at called
  · cases called
  · split at called
    · cases called
    · next scope _ arguments _ =>
      simp only [bind_eq_ok, pure_eq_ok] at called
      obtain ⟨ofDemands, demanded, rfl⟩ := called
      obtain ⟨ofDemand, listed, among⟩ := List.mem_flatten.1 among
      obtain ⟨demand, -, made⟩ := mapM_mem demanded listed
      unfold demandConditions at made
      dsimp only at made
      split at made
      · cases made
        cases among
      · simp only [bind_eq_ok, pure_eq_ok] at made
        obtain ⟨ref, column, only, compared, rfl⟩ := made
        obtain rfl := List.mem_singleton.1 among
        obtain ⟨inFrame, inSlot⟩ := isOwn_of_demandColumn column
        exact ⟨_, ref, _, inFrame, inSlot, compared⟩

/-- The conditions of scopes let the rows of those records through that the scopes let through. -/
theorem all_scopeConditions {calls : List ScopeCall} {conditions : List Cond}
    (made : scopeConditions resource 0 calls = .ok conditions) :
    conditions.all (holds ground [frame]) = resource.lets calls (frame.getD 0 []) := by
  have same (condition : Cond) (inside : condition ∈ conditions) :
      holds ground [frame] condition = holds ⟨fun _ => [], []⟩ [[frame.getD 0 []]] condition := by
    obtain ⟨comparison, ref, value, inFrame, inSlot, compared⟩ := isOwnComparison_of_scopes made condition inside
    rw [holds, holds, Comparison.truth_ofComparison compared, Comparison.truth_ofComparison compared]
    simp [cellOf, inFrame, inSlot]
  rw [Resource.lets, made, Bool.eq_iff_iff]
  simp only [Except.toOption, Option.all_some, List.all_eq_true]
  exact forall₂_congr fun condition inside => by rw [same condition inside]

/-! ## Rows of a query -/

/-- The rows of a query for included records are those on the related side that have a key of some parent, and that the
link, the scopes and the filters let through. -/
theorem mem_frames_includeQuery (sound : graph.Sound) (member : target ∈ graph.resources)
    (built : Related.ofTarget owner relation target 0 = .ok related) {query : Query}
    (made : includeQuery graph related item required = .ok query) :
    frame ∈ query.frames ground ↔ frame ∈ relation.link.frames ground.rows target ∧
      holds ground [frame] (.amongParents related.matching) ∧ relation.link.accepts ground.rows owner target frame ∧
      target.lets item.scopes (frame.getD 0 []) ∧ graph.admits ground.rows target item.filters (frame.getD 0 []) := by
  obtain ⟨scopes, filters, shown, aggregates, ofScopes, ofFilters, -, ordered, source, conditions, page, -⟩ :=
    includeQuery_made made
  obtain ⟨-, rfl, start⟩ := Related.ofTarget_eq_ok built
  rw [start] at ofScopes ofFilters
  rw [frames, page, paged, sorted, List.mem_mergeSort, source, matching_eq_filter, Related.extend_source built rfl,
    List.map_congr_left fun frame _ => List.nil_append frame, List.map_id', List.mem_filter]
  refine and_congr_right fun inside => ?_
  have accepted : related.conditions.all (holds ground (([] ++ frame ++ []) :: [])) =
      relation.link.accepts ground.rows owner related.target frame :=
    Related.all_conditions built rfl (Link.length_of_mem_frames inside) []
  rw [List.nil_append, List.append_nil] at accepted
  rw [conditions, all_conjuncts, List.all_append, List.all_append, List.all_cons, accepted, all_scopeConditions ofScopes,
    holds_filtersCondition sound member ofFilters]
  simp only [Bool.and_eq_true, and_assoc, List.getD_cons_zero]

/-! ## Loading -/

/-- The first records up to a positive limit are some if there are any. -/
theorem front_ne_nil {α : Type} {limit : Option Int} (positive : ∀ count, limit = some count → 0 < count) {items : List α}
    (some : items ≠ []) : front limit items ≠ [] := by
  cases limit with
  | none => exact some
  | some count =>
    obtain ⟨n, rfl⟩ := Int.eq_ofNat_of_zero_le (le_of_lt (positive count rfl))
    have nonzero : n ≠ 0 := by
      have := positive _ rfl
      omega
    simpa [front, nonzero] using some

/-- A query that is loaded is run for the keys of the parents that it is for, unless there are none. -/
theorem loadQuery_cases {step : IncludeStep} {parents : List Members} {query : IncludeQuery} {work after : Work}
    {found : List Loaded} (ran : (loadQuery step parents query).runOn work = (.ok found, after)) :
    ∃ keys, keysOf query.parentColumn ((parents.zipIdx.filter (isFor query ·.1)).map (·.1)) = .ok keys ∧
      (keys = [] ∧ found = [] ∨ ∃ rows,
        query.query.results (Plan.ground work.database ((keys.map (keyBound query)).map Bound.cell)) = .ok rows ∧
          found = (parents.zipIdx.filter (isFor query ·.1)).flatMap fun (row, place) =>
            (front step.limit (((rows.map gathered).filter (·.1.same ((row.get? query.parentColumn).getD .null))).map
              (·.2))).map (⟨·, place⟩)) := by
  unfold loadQuery at ran
  obtain ⟨keys, gathering, ran⟩ := Job.of_bind_eq_ok.1 ran
  refine ⟨keys, gathering, ?_⟩
  dsimp only at ran
  split at ran
  · next empty =>
    cases ran
    exact .inl ⟨by simpa using empty, rfl⟩
  · obtain ⟨_, told, telling, ran⟩ := Job.bind_eq_ok.1 ran
    rw [Job.tell_runOn] at telling
    cases telling
    obtain ⟨rows, _, running, ran⟩ := Job.bind_eq_ok.1 ran
    obtain ⟨rfl, -, results⟩ := run_eq_ok running
    cases ran
    exact .inr ⟨rows, results, rfl⟩

/-- Rows of a result stand for the rows of a query, and are told apart by the column that is matched. -/
private theorem labelled_of_results (built : Related.ofTarget owner relation target 0 = .ok related) {query : Query}
    (made : includeQuery graph related item required = .ok query) {rows : List Members}
    (results : query.results ground = .ok rows) :
    List.Forall₂ (fun frame row =>
        (Row.cell (frame.getD relation.link.matchedPlace []) relation.link.matchedColumn).shown
            ((relation.link.matchedTable target).ref 0 0 relation.link.matchedColumn).type = .ok (gathered row).1 ∧
          ∀ fields : List String, (∀ name ∈ fields, name ∈ askedFields target item.selects ∨ name ∈ required) →
            (∀ name ∈ fields, IsFree name) → target.table.Shows fields (frame.getD 0 []) (gathered row).2)
      (query.frames ground) rows := by
  obtain ⟨given, nodup⟩ := gives_of_results results
  refine (forall₂_and_mem given).imp fun frame row found => ?_
  obtain ⟨-, listed, gives⟩ := found
  have distinct := nodup (List.ne_nil_of_mem listed)
  refine ⟨?_, fun fields asked free => (shows_of_includeQuery built made gives distinct asked free).1⟩
  exact (shows_of_includeQuery built made gives distinct (List.forall_mem_nil _) (List.forall_mem_nil _)).2

section Loading

variable (sound : graph.Sound) (member : target ∈ graph.resources) {query : IncludeQuery}
  (loads : Loads graph owner target relation item required query) {step : IncludeStep} {work after : Work}
  {parents : List Members} {found : List Loaded}
  (ran : (loadQuery step parents query).runOn work = (.ok found, after))
include sound member loads ran

/-- What a query loads shows records of its target. -/
theorem shows_of_loadQuery {fields : List String}
    (asked : ∀ name ∈ fields, name ∈ askedFields target item.selects ∨ name ∈ required)
    (free : ∀ name ∈ fields, IsFree name) :
    ∀ loaded ∈ found, ∃ record ∈ work.database.rows target.table.name, target.table.Shows fields record loaded.row := by
  obtain ⟨related, built, made, -⟩ := loads
  obtain ⟨keys, -, ⟨-, rfl⟩ | ⟨rows, results, rfl⟩⟩ := loadQuery_cases ran
  · exact List.forall_mem_nil _
  intro loaded listed
  obtain ⟨⟨parent, place⟩, -, given⟩ := List.mem_flatMap.1 listed
  obtain ⟨shown, taken, rfl⟩ := List.mem_map.1 given
  obtain ⟨child, kept, rfl⟩ := List.mem_map.1 (mem_of_mem_front taken)
  obtain ⟨row, there, rfl⟩ := List.mem_map.1 (List.mem_of_mem_filter kept)
  obtain ⟨frame, inside, -, shows⟩ := forall₂_mem_right (labelled_of_results built made results) there
  obtain ⟨linked, -⟩ := (mem_frames_includeQuery sound member built made).1 inside
  exact ⟨frame.getD 0 [], (Link.mem_of_mem_frames linked).1, shows fields asked free⟩

/-- A record to which a record is linked that scopes and filters let through gets something. -/
theorem exists_of_loadQuery (positive : ∀ count, step.limit = some count → 0 < count)
    (typed : relation.link.Typed work.database.rows owner target) {records : List Row}
    (stand : List.Forall₂ (Stands work.database.rows owner relation) records parents) {parent : Members} {place : Nat}
    (at_ : (parent, place) ∈ parents.zipIdx) {record : Row} (stands : Stands work.database.rows owner relation record parent)
    {frame : Frame} (linked : frame ∈ graph.linked work.database.rows owner target relation.link item record)
    (let_ : target.lets item.scopes (frame.getD 0 [])) : ∃ loaded ∈ found, loaded.parent = place := by
  obtain ⟨related, built, made, ofColumn, ofType, moments⟩ := loads
  obtain ⟨matching, column, type⟩ := Related.matching_eq built
  rw [column] at ofColumn moments
  obtain ⟨inside, met⟩ := List.mem_filter.1 (mem_firstInOrder.1 linked)
  simp only [Bool.and_eq_true] at met
  obtain ⟨⟨⟨ties, told⟩, accepted⟩, admitted⟩ := met
  have chosen : (parent, place) ∈ parents.zipIdx.filter (isFor query ·.1) :=
    List.mem_filter.2 ⟨at_, (isFor_eq_shows (ofType.trans type) stands.2).trans told⟩
  obtain ⟨key, shown, got⟩ := stands.exists_key
  obtain ⟨keys, gathering, cases⟩ := loadQuery_cases ran
  rw [ofColumn] at gathering cases
  have all : ∀ row ∈ (parents.zipIdx.filter (isFor query ·.1)).map (·.1),
      ∃ record, Stands work.database.rows owner relation record row := by
    intro row there
    obtain ⟨⟨row, _⟩, chosenToo, rfl⟩ := List.mem_map.1 there
    obtain ⟨other, -, standsToo⟩ := forall₂_mem_right stand (List.fst_mem_of_mem_zipIdx (List.mem_of_mem_filter chosenToo))
    exact ⟨other, standsToo⟩
  have among := among_of_keysOf typed built made moments gathering all (List.mem_map_of_mem chosen) stands inside ties
  obtain ⟨rows, results, rfl⟩ := cases.resolve_left fun none => by
    rw [none.1] at among
    cases among
  have found := (mem_frames_includeQuery sound member built made).2 ⟨inside, among, accepted, let_, admitted⟩
  obtain ⟨child, listed, labelled, -⟩ := forall₂_mem_left (labelled_of_results built made results) found
  have present : Row.cell (frame.getD relation.link.matchedPlace []) relation.link.matchedColumn ≠ .null := by
    rw [Link.ties_eq, Table.agrees] at ties
    simp only [Bool.and_eq_true, bne_iff_ne] at ties
    exact ties.1.1
  have isOwn : (gathered child).1.same key := (typed.same_eq_ties stands.1 inside shown labelled present).trans ties
  have some : ((rows.map gathered).filter (·.1.same key)).map (·.2) ≠ [] :=
    List.ne_nil_of_mem (List.mem_map_of_mem (List.mem_filter.2 ⟨List.mem_map_of_mem listed, isOwn⟩))
  obtain ⟨first, rest, taken⟩ := List.exists_cons_of_ne_nil (front_ne_nil positive some)
  refine ⟨⟨first, place⟩, List.mem_flatMap.2 ⟨_, chosen, ?_⟩, rfl⟩
  dsimp only
  rw [got, Option.getD_some, taken]
  exact List.mem_cons_self

end Loading

/-! ## Steps -/

/-- What steps have put into a row of a path: under the name of each step that goes on from the path records of its targets,
some if there is one that is linked to the record of the row and let through, and what later steps have put into these. -/
def Held (graph : Graph) (rows : String → List Row) (includes : List Include) :
    List Hop → String → Resource → Members → Prop
  | [], _, _, _ => True
  | hop :: rest, path, owner, shown =>
    let item := searchOf hop.step.relation (requested includes hop.step.path)
    (start hop.step = path → ∃ children : List Members,
      shown.get? hop.step.name = some (attachment hop.step.relation.kind.cardinality children) ∧
        (∃ record, Stands rows owner hop.step.relation record shown) ∧
        (∀ record, Stands rows owner hop.step.relation record shown → ∀ target ∈ graph.destinations hop.step.relation,
          ∀ frame ∈ graph.linked rows owner target hop.step.relation.link item record,
            target.lets item.scopes (frame.getD 0 []) → children ≠ []) ∧
        ∀ child ∈ children, ∃ target ∈ graph.destinations hop.step.relation,
          Held graph rows includes rest hop.step.path target child) ∧
      Held graph rows includes rest path owner shown

/-- Rows that show columns of one record show the same of any record. -/
theorem Stands.transfer {rows : String → List Row} {record other : Row} {first second : Members}
    (stands : Stands rows owner relation record first) (before : owner.table.Shows relation.parentColumns other first)
    (now : owner.table.Shows relation.parentColumns other second) : Stands rows owner relation record second := by
  refine ⟨stands.1, fun name needed => ?_⟩
  obtain ⟨value, is, got⟩ := stands.2 name needed
  obtain ⟨known, isKnown, gotToo⟩ := before name needed
  obtain ⟨_, isToo, found⟩ := now name needed
  obtain rfl := Except.ok.inj (isKnown.symm.trans isToo)
  obtain rfl := Option.some.inj (got.symm.trans gotToo)
  exact ⟨value, is, found⟩

section Steps

variable {includes : List Include} {hops : List Hop} {rows : String → List Row}

/-- What was put into a row is found by the names of the steps. -/
theorem Held.congr {part : List Hop} {path : String} {shown other : Members}
    (held : Held graph rows includes part path owner shown) (same : ∀ hop ∈ part, start hop.step = path →
      other.get? hop.step.name = shown.get? hop.step.name ∧ ∀ record,
        Stands rows owner hop.step.relation record other ↔ Stands rows owner hop.step.relation record shown) :
    Held graph rows includes part path owner other := by
  induction part with
  | nil => trivial
  | cons hop rest ih =>
    obtain ⟨here, later⟩ := held
    refine ⟨fun starts => ?_, ih later fun next inside => same next (List.mem_cons_of_mem _ inside)⟩
    obtain ⟨sameName, stands⟩ := same hop List.mem_cons_self starts
    obtain ⟨children, found, ⟨record, isOf⟩, given, onward⟩ := here starts
    exact ⟨children, sameName.trans found, ⟨record, (stands record).2 isOf⟩,
      fun record isOf => given record ((stands record).1 isOf), onward⟩

theorem Held.of_append {before after : List Hop} {path : String} {shown : Members}
    (held : Held graph rows includes (before ++ after) path owner shown) :
    Held graph rows includes after path owner shown := by
  induction before with
  | nil => exact held
  | cons hop rest ih => exact ih held.2

variable (sound : graph.Sound) (apart : graph.NamesApart) (laid : Laid graph resource hops)
include sound apart laid

/-- A step loads records of its targets, some for each parent to which one is linked that is let through. -/
private theorem loads_of_step {hop : Hop} (inside : hop ∈ hops) {step : IncludeStep}
    (made : loadHop graph includes hops hop = .ok step)
    (positive : ∀ count, (searchOf hop.step.relation (requested includes hop.step.path)).limit = some count → 0 < count)
    {work after : Work} (typed : graph.Typed work.database.rows) {records : List Row} {parents : List Members}
    (stand : List.Forall₂ (Stands work.database.rows hop.owner hop.step.relation) records parents)
    {found : List (List Loaded)}
    (ran : (step.queries.mapM (loadQuery step parents)).runOn work = (.ok found, after)) :
    let item := searchOf hop.step.relation (requested includes hop.step.path)
    after.database = work.database ∧
      (∀ loaded ∈ found.flatten, ∃ origin : Resource × Row, origin.1 ∈ graph.destinations hop.step.relation ∧
        Shelved work.database.rows hops hop.step.path origin loaded.row) ∧
      ∀ parent place record, (parent, place) ∈ parents.zipIdx →
        Stands work.database.rows hop.owner hop.step.relation record parent →
          ∀ target ∈ graph.destinations hop.step.relation,
            ∀ frame ∈ graph.linked work.database.rows hop.owner target hop.step.relation.link item record,
              target.lets item.scopes (frame.getD 0 []) → ∃ loaded ∈ found.flatten, loaded.parent = place := by
  intro item
  obtain ⟨limit, loads⟩ := loads_of_loadHop made
  obtain ⟨same, results⟩ := @Job.mapM_eq_ok _ _ _ _ _ _ _ (fun reached => reached.database = work.database) rfl
    (fun _ _ _ _ kept ran => (loadQuery_database ran).trans kept) ran
  refine ⟨same, fun loaded listed => ?_, fun parent place record at_ stands target leadsTo frame linked let_ => ?_⟩
  · obtain ⟨several, among, listed⟩ := List.mem_flatten.1 listed
    obtain ⟨query, asked, before, reached, kept, ran⟩ := forall₂_mem_right results among
    obtain ⟨target, leadsTo, member, ofTarget⟩ := forall₂_mem_right loads asked
    have needed (name : String) (required : name ∈ requiredColumns hops (some hop.step.path)) :
        IsFree name := apart.columns _ member _ (ofTarget.hasColumn (.inr required))
    obtain ⟨record, known, shows⟩ := shows_of_loadQuery sound member ofTarget ran (fun _ => .inr) needed loaded listed
    rw [kept] at known
    refine ⟨(target, record), leadsTo, known, fun next nextInside goesOn => ?_⟩
    obtain ⟨parent, owned⟩ := laid.next hop inside next nextInside goesOn
    refine ⟨owned target leadsTo, fun name asked => shows name ?_⟩
    exact List.mem_flatMap.2 ⟨next, List.mem_filter.2 ⟨nextInside, by simpa using parent⟩, asked⟩
  · obtain ⟨query, asked, member, ofTarget⟩ := forall₂_mem_left loads leadsTo
    obtain ⟨several, among, before, reached, kept, ran⟩ := forall₂_mem_left results asked
    have typedHere : hop.step.relation.link.Typed work.database.rows hop.owner target :=
      typed _ (laid.owned hop inside).1 _ (laid.owned hop inside).2.1 target leadsTo
    rw [← kept] at typedHere stand stands linked
    obtain ⟨loaded, listed, isFor⟩ := exists_of_loadQuery sound member ofTarget ran (limit ▸ positive) typedHere stand at_
      stands linked let_
    exact ⟨loaded, List.mem_flatten.2 ⟨several, among, listed⟩, isFor⟩

/-- Attaching the records of a step, which hold their own already, to those that they were loaded for. -/
private theorem held_of_attach {hop : Hop} (inside : hop ∈ hops) {rest : List Hop} (among : rest ⊆ hops)
    {step : IncludeStep} (made : loadHop graph includes hops hop = .ok step) {origins : List (Resource × Row)}
    {before loaded : List Loaded}
    (stoodBefore : List.Forall₂ (fun origin loaded => Shelved rows hops (start hop.step) origin loaded.row) origins before)
    {children : List Loaded}
    (given : ∀ parent place record, (parent, place) ∈ (before.map (·.row)).zipIdx →
      Stands rows hop.owner hop.step.relation record parent → ∀ target ∈ graph.destinations hop.step.relation,
        ∀ frame ∈ graph.linked rows hop.owner target hop.step.relation.link
            (searchOf hop.step.relation (requested includes hop.step.path)) record,
          target.lets (searchOf hop.step.relation (requested includes hop.step.path)).scopes (frame.getD 0 []) →
            ∃ child ∈ children, child.parent = place)
    (onward : ∀ child ∈ children, ∃ target ∈ graph.destinations hop.step.relation,
      Held graph rows includes rest hop.step.path target child.row)
    (fresh : ∀ next ∈ rest, start next.step = start hop.step → next.step.name ≠ hop.step.name)
    (standNow : List.Forall₂ (fun origin loaded => Shelved rows hops (start hop.step) origin loaded.row ∧
      Held graph rows includes rest (start hop.step) origin.1 loaded.row) origins loaded) :
    List.Forall₂ (fun origin loaded => Shelved rows hops (start hop.step) origin loaded.row ∧
      Held graph rows includes (hop :: rest) (start hop.step) origin.1 loaded.row) origins (attach step children loaded) := by
  obtain ⟨samePath, sameParent, sameName, sameRelation⟩ := step_of_loadHop made
  have single : List.Forall₂ (fun hop step => loadHop graph includes hops hop = .ok step) [hop] [step] := .cons made .nil
  have sameStart : start step = start hop.step := by rw [start, sameParent, ← start]
  rw [attach, ← List.zipIdx_map_fst 0 origins, List.forall₂_map_left_iff, List.forall₂_map_right_iff]
  refine (forall₂_and_mem (forall₂_zipIdx standNow 0)).imp ?_
  rintro ⟨origin, place⟩ ⟨parent, _⟩ ⟨stands, -, ⟨shelved, held⟩, rfl⟩
  dsimp only at shelved held ⊢
  -- Only the name of the step is changed, and no column is called so.
  have changed : parent.Kept (Puts [step] (start hop.step)) { parent with
      row := Members.put step.name (attachment step.relation.kind.cardinality
        ((children.filter (·.parent == place)).map (·.row))) parent.row } :=
    ⟨rfl, fun key other => Members.get?_put_of_ne (fun same => other ⟨step, List.mem_cons_self, sameStart, same.symm⟩) _ _⟩
  have shelvedNow := shelved.kept sound apart laid (List.cons_subset.2 ⟨inside, List.nil_subset _⟩) single changed
  obtain ⟨⟨early, _⟩, listed, shelvedEarly, rfl⟩ := forall₂_mem_left (forall₂_zipIdx stoodBefore 0) stands
  obtain ⟨owned, shows⟩ := shelvedEarly.carries hop inside rfl
  refine ⟨shelvedNow, fun _ => ⟨(children.filter (·.parent == place)).map (·.row), ?_, ⟨origin.2, ?_⟩, ?_, ?_⟩,
    held.congr fun next further starts => ⟨?_, fun record => ?_⟩⟩
  · rw [sameName, sameRelation, Members.get?_put_self]
  · exact ⟨shelved.listed, (shelvedNow.carries hop inside rfl).2⟩
  · intro record isOf target leadsTo frame linked let_
    have atPlace : (early.row, place) ∈ (before.map (·.row)).zipIdx := by
      rw [List.zipIdx_map]
      exact List.mem_map.2 ⟨_, listed, rfl⟩
    have stoodThen := isOf.transfer (shelvedNow.carries hop inside rfl).2 shows
    rw [← owned] at stoodThen linked
    obtain ⟨child, there, isFor⟩ := given early.row place record atPlace stoodThen target leadsTo frame linked let_
    exact List.ne_nil_of_mem (List.mem_map_of_mem (List.mem_filter.2 ⟨there, by simpa using isFor⟩))
  · intro shown taken
    obtain ⟨child, there, rfl⟩ := List.mem_map.1 taken
    exact onward child (List.mem_of_mem_filter there)
  · rw [sameName, Members.get?_put_of_ne (fresh next further starts)]
  · have was := (shelved.carries next (among further) starts).2
    have is := (shelvedNow.carries next (among further) starts).2
    exact ⟨fun stands => stands.transfer is was, fun stands => stands.transfer was is⟩

/-- Loading steps attaches to the rows that stand on the shelf what their includes find for them. -/
theorem held_of_loadAll (positive : ∀ hop ∈ hops, ∀ count,
      (searchOf hop.step.relation (requested includes hop.step.path)).limit = some count → 0 < count)
    {database : Database} (typed : graph.Typed database.rows) {part : List Hop} (among : part ⊆ hops)
    {steps : List IncludeStep}
    (loaded : List.Forall₂ (fun hop step => loadHop graph includes hops hop = .ok step) part steps) {work after : Work}
    (same : work.database = database) {book : Book} {shelf completed : Shelf}
    (distinct : (part.map (·.step.path) ++ book.map (·.1)).Nodup)
    (keeps : Shelf.Keeps (fun path origin loaded => Shelved database.rows hops path origin loaded.row) book shelf)
    (ran : (loadAll steps shelf).runOn work = (.ok completed, after)) :
    Shelf.Keeps (fun path origin loaded => Shelved database.rows hops path origin loaded.row ∧
      Held graph database.rows includes part path origin.1 loaded.row) book completed := by
  induction loaded generalizing work book shelf completed with
  | nil =>
    obtain ⟨rfl, -⟩ := loadAll_nil_eq_ok ran
    exact List.Forall₂.imp (fun page entry kept => ⟨kept.1, kept.2.imp fun _ _ shelved => ⟨shelved, trivial⟩⟩) keeps
  | @cons hop step rest steps made others ih =>
    obtain ⟨inside, amongRest⟩ := List.cons_subset.1 among
    obtain ⟨samePath, sameParent, sameName, sameRelation⟩ := step_of_loadHop made
    have sameStart : start step = start hop.step := by rw [start, sameParent, ← start]
    obtain ⟨found, middle, later, ranStep, ranRest, rfl⟩ := loadAll_cons_eq_ok ran
    have shelved := keeps.rowsAt (start hop.step)
    have stand : List.Forall₂ (Stands database.rows hop.owner hop.step.relation)
        (((book.lookup (start hop.step)).getD []).map (·.2)) ((rowsAt shelf (start step)).map (·.row)) := by
      rw [sameStart]
      exact keeps.stands inside
    subst same
    obtain ⟨kept, shows, given⟩ := loads_of_step sound apart laid inside made (positive hop inside) typed stand ranStep
    obtain ⟨items, isItem⟩ := exists_forall₂ shows
    have onward := keeps.step sound apart laid inside made (isItem.flip.imp fun _ _ both => both.2)
    have distinctRest : (rest.map (·.step.path) ++ List.map (·.1) ((hop.step.path, items) :: book)).Nodup :=
      List.perm_middle.symm.nodup distinct
    obtain ⟨⟨_, children⟩, shelf, ⟨rfl, heldHere⟩, heldElsewhere, rfl⟩ :=
      List.forall₂_cons_left_iff.1 (ih amongRest kept distinctRest onward ranRest)
    obtain ⟨⟨-, keptHere⟩, -⟩ := List.forall₂_cons.1 (loadAll_grown ranRest)
    have elsewhere : Shelf.Keeps (fun path origin loaded => Shelved work.database.rows hops path origin loaded.row ∧
      Held graph work.database.rows includes rest path origin.1 loaded.row) book shelf := heldElsewhere
    refine elsewhere.attachAt (List.nodup_append.1 distinct).2.1 (fun path origin loaded other both =>
      ⟨both.1, fun starts => absurd (starts.symm.trans sameStart.symm) other, both.2⟩) ?_
    rw [sameStart]
    refine fun loaded => held_of_attach sound apart laid inside amongRest made shelved ?_ ?_ ?_
    · intro parent place record at_ isOf target leadsTo frame linked let_
      rw [← sameStart] at at_
      obtain ⟨early, there, isFor⟩ := given parent place record at_ isOf target leadsTo frame linked let_
      obtain ⟨child, listed, kept⟩ := forall₂_mem_left keptHere there
      exact ⟨child, listed, kept.1.trans isFor⟩
    · intro child listed
      obtain ⟨origin, among, -, held⟩ := forall₂_mem_right heldHere listed
      obtain ⟨_, -, leadsTo, -⟩ := forall₂_mem_right isItem among
      exact ⟨origin.1, leadsTo, held⟩
    · exact fun next further starts => laid.name_ne among (List.nodup_append.1 distinct).1 further starts

variable (plain : graph.PlainRelations)
include plain

omit apart in
/-- Rows into which all steps have put what they found show it under every relation that is included. -/
theorem showsLinked_of_held (paths : hops.map (·.step.path) = includePaths includes) {depth : Nat} {before after : List Hop}
    (whole : hops = before ++ after) {names : List String} (goesOn : names = [] ∨ Path.ofNames names ≠ "")
    (ownerMember : owner ∈ graph.resources)
    (owned : ∀ hop ∈ hops, start hop.step = Path.ofNames names → hop.owner = owner)
    (behind : ∀ hop ∈ hops, start hop.step = Path.ofNames names → hop ∈ after) {shown : Members}
    (held : Held graph rows includes after (Path.ofNames names) owner shown) :
    graph.ShowsLinked rows includes depth names owner shown := by
  induction depth generalizing before after names owner shown with
  | zero => trivial
  | succ depth ih =>
    intro relation declared listed
    obtain ⟨hop, inside, samePath⟩ := List.mem_map.1 (paths ▸ listed)
    obtain ⟨starts, sameName, sameRelation⟩ := step_of_under sound plain laid inside ownerMember owned declared
      (samePath.trans (ofNames_under goesOn relation.name))
    obtain ⟨earlier, later, rfl⟩ := List.append_of_mem (behind hop inside starts)
    obtain ⟨children, found, isOf, given, onward⟩ := held.of_append.1 starts
    rw [sameName, sameRelation] at found
    rw [samePath, sameRelation] at given onward
    rw [sameRelation] at isOf
    refine ⟨children, found, isOf, ?_, fun child inside => ?_⟩
    · rintro record stands ⟨target, leadsTo, frame, linked, let_⟩ single
      obtain ⟨first, rest, rfl⟩ := List.exists_cons_of_ne_nil (given record stands target leadsTo frame linked let_)
      rw [found, single]
      rintro ⟨⟩
    · obtain ⟨target, leadsTo, heldBelow⟩ := onward child inside
      have split : hops = (before ++ earlier) ++ hop :: later := by rw [whole, List.append_assoc]
      have done : hops = (before ++ earlier ++ [hop]) ++ later := by simpa using split
      refine ⟨target, leadsTo, ih done (.inr fun nameless => laid.named (paths ▸ nameless ▸ listed))
        (Graph.mem_of_mem_destinations leadsTo) (fun next listed goesOn => ?_) (fun next listed goesOn => ?_) heldBelow⟩
      · exact (laid.next hop ‹_› next listed (goesOn.trans samePath.symm)).2 target (sameRelation ▸ leadsTo)
      · exact mem_after plain laid split listed (goesOn.trans samePath.symm)

end Steps

end Plan

end ResourceApi
