import Mathlib.Data.List.Chain
import Mathlib.Data.List.Nodup
import ResourceApi.Proofs.Relation.Reached
import ResourceApi.Proofs.Resource.Complete

/-!
Which relation paths there are. The paths that are listed for a resource are the names that lead somewhere in as many steps
as are asked for, each once; and walking along one of them takes a hop for each name, from the resource to the relation that
the path is listed with.
-/

namespace ResourceApi

open Outcome

namespace Graph

/-- Names that lead to a relation, with that relation. -/
abbrev Trail := List String × Relation

/-- The trails that begin with a relation, given those that go on from its target. -/
def branch (graph : Graph) (onward : Resource → List Trail) (relation : Relation) : List Trail :=
  ([relation.name], relation) ::
    if relation.isNestable then
      match graph.target relation with
      | .ok target => (onward target).map fun trail => (relation.name :: trail.1, trail.2)
      | .error _ => []
    else []

/-- The trails of a resource that have so many names at most, in the order of the declarations. -/
def trails (graph : Graph) : Nat → Resource → List Trail
  | 0, _ => []
  | depth + 1, resource => resource.relations.flatMap (graph.branch (graph.trails depth))

/-- Hops along names, one for each, from a resource to a relation: every hop starts where the one before it leads. -/
structure Walks (graph : Graph) (resource : Resource) (names : List String) (relation : Relation)
    (hops : List (Resource × Relation)) : Prop where
  names : hops.map (·.2.name) = names
  first : hops.head?.map (·.1) = some resource
  declared : ∀ hop ∈ hops, hop.2 ∈ hop.1.relations
  next : hops.IsChain fun hop after => graph.target hop.2 = .ok after.1
  last : hops.getLast?.map (·.2) = some relation

/-- Every relation with a single target has that target. -/
def Led (graph : Graph) : Prop :=
  ∀ resource ∈ graph.resources, ∀ relation ∈ resource.relations, relation.isNestable →
    ∃ target, graph.target relation = .ok target

theorem led_of_build {schema : Schema} {declarations : List ResourceDeclaration} {graph : Graph}
    (built : build schema declarations = .ok graph)
    (led : ∀ declaration ∈ declarations, ∀ relation ∈ declaration.relations, relation.IsLed) : graph.Led := by
  intro resource member relation declared nestable
  obtain ⟨target, -, leadsTo⟩ := target_of_build built led member declared nestable
  exact ⟨target, leadsTo⟩

variable {graph : Graph} {resource owner : Resource} {relation : Relation} {names : List String}

/-! ## Trails -/

theorem mem_branch {onward : Resource → List Trail} {trail : Trail} :
    trail ∈ graph.branch onward relation ↔ trail = ([relation.name], relation) ∨
      relation.isNestable ∧ ∃ target, graph.target relation = .ok target ∧
        ∃ further ∈ onward target, trail = (relation.name :: further.1, further.2) := by
  rw [branch, List.mem_cons]
  refine or_congr_right ?_
  by_cases nestable : relation.isNestable
  · rw [if_pos nestable]
    cases graph.target relation <;> simp [nestable, eq_comm]
  · simp [nestable]

theorem branch_of_target {onward : Resource → List Trail} (nestable : relation.isNestable) {target : Resource}
    (leadsTo : graph.target relation = .ok target) :
    graph.branch onward relation =
      ([relation.name], relation) :: (onward target).map fun trail => (relation.name :: trail.1, trail.2) := by
  rw [branch, if_pos nestable, leadsTo]

/-- The trails of a depth are the names that lead somewhere in as many steps. -/
theorem mem_trails {depth : Nat} :
    (names, relation) ∈ graph.trails depth resource ↔
      names.length ≤ depth ∧ ∃ owner, graph.Leads resource names owner relation := by
  induction depth generalizing resource names with
  | zero =>
    refine iff_of_false List.not_mem_nil ?_
    rintro ⟨short, owner, leads⟩
    exact leads.ne_nil (List.length_eq_zero_iff.1 (Nat.le_zero.1 short))
  | succ depth ih =>
    simp only [trails, List.mem_flatMap, mem_branch]
    constructor
    · rintro ⟨first, declared, same | ⟨nestable, target, leadsTo, ⟨rest, last⟩, inside, same⟩⟩
      · cases same
        exact ⟨Nat.succ_le_succ (Nat.zero_le _), resource, .one declared⟩
      · cases same
        obtain ⟨short, owner, leads⟩ := ih.1 inside
        exact ⟨Nat.succ_le_succ short, owner, .more declared nestable leadsTo leads⟩
    · rintro ⟨short, owner, declared | ⟨declared, nestable, leadsTo, further⟩⟩
      · exact ⟨relation, declared, .inl rfl⟩
      · have inside := ih.2 ⟨Nat.le_of_succ_le_succ short, owner, further⟩
        exact ⟨_, declared, .inr ⟨nestable, _, leadsTo, _, inside, rfl⟩⟩

/-- The trails of a branch begin with its relation. -/
private theorem head?_of_mem_branch {onward : Resource → List Trail} {trail : Trail}
    (inside : trail ∈ graph.branch onward relation) : trail.1.head? = some relation.name := by
  rcases mem_branch.1 inside with rfl | ⟨-, _, -, _, -, rfl⟩ <;> rfl

/-- Branches of different relations have no names in common. -/
private theorem disjoint_branches {onward : Resource → List Trail} {first second : Relation}
    (different : first.name ≠ second.name) :
    ((graph.branch onward first).map (·.1)).Disjoint ((graph.branch onward second).map (·.1)) := by
  intro names here there
  obtain ⟨trail, inside, rfl⟩ := List.mem_map.1 here
  obtain ⟨other, insideToo, same⟩ := List.mem_map.1 there
  have heads := head?_of_mem_branch inside
  rw [← same, head?_of_mem_branch insideToo] at heads
  exact different (Option.some.inj heads).symm

/-- No names come twice in a branch if they do not in the trails that it goes on with. -/
private theorem nodup_branch {onward : Resource → List Trail}
    (distinct : ∀ target, graph.target relation = .ok target → ((onward target).map (·.1)).Nodup)
    (nonempty : ∀ target, ∀ trail ∈ onward target, trail.1 ≠ []) :
    ((graph.branch onward relation).map (·.1)).Nodup := by
  rw [branch, List.map_cons, List.nodup_cons]
  split
  · split
    · next target leadsTo =>
      rw [List.map_map]
      refine ⟨fun again => ?_, ?_⟩
      · obtain ⟨trail, inside, same⟩ := List.mem_map.1 again
        exact nonempty target trail inside (List.cons.inj same).2
      · have behind := (distinct target leadsTo).map (List.cons_injective (a := relation.name))
        rwa [List.map_map] at behind
    · exact ⟨List.not_mem_nil, List.nodup_nil⟩
  · exact ⟨List.not_mem_nil, List.nodup_nil⟩

section Leading

variable (sound : graph.Sound) (member : resource ∈ graph.resources)
include sound member

theorem nodup_trails (depth : Nat) : ((graph.trails depth resource).map (·.1)).Nodup := by
  induction depth generalizing resource with
  | zero => exact List.nodup_nil
  | succ depth ih =>
    rw [trails, List.map_flatMap, List.nodup_flatMap]
    constructor
    · intro relation declared
      refine nodup_branch (fun target leadsTo => ih (mem_of_target leadsTo)) fun target trail inside => ?_
      obtain ⟨-, owner, leads⟩ := mem_trails.1 inside
      exact leads.ne_nil
    · have distinct := (sound _ member).distinct
      rw [List.Nodup, List.pairwise_map] at distinct
      exact distinct.imp disjoint_branches

/-! ## The listed paths -/

variable (plain : graph.PlainRelations)
include plain

/-- Trails of different names make different paths. -/
theorem nodup_paths (depth : Nat) (start : String) :
    ((graph.trails depth resource).map fun trail => start ++ Path.ofNames trail.1).Nodup := by
  have distinct := nodup_trails sound member depth
  have apart : ((graph.trails depth resource).map (·.1)).Pairwise fun names others =>
      start ++ Path.ofNames names ≠ start ++ Path.ofNames others := by
    refine distinct.imp_of_mem fun {names others} here there different same => different ?_
    obtain ⟨⟨names, _⟩, inside, rfl⟩ := List.mem_map.1 here
    obtain ⟨⟨others, _⟩, insideToo, rfl⟩ := List.mem_map.1 there
    obtain ⟨-, _, leads⟩ := mem_trails.1 inside
    obtain ⟨-, _, leadsToo⟩ := mem_trails.1 insideToo
    have joined := String.append_right_inj start |>.1 same
    rw [← leads.names_ofNames plain member, joined, leadsToo.names_ofNames plain member]
  rw [List.pairwise_map] at apart
  rw [List.Nodup, List.pairwise_map]
  exact apart

end Leading

/-- A path with the relation that it leads to. -/
def entry (start : String) (trail : Trail) : String × Relation := (start ++ Path.ofNames trail.1, trail.2)

/-- A path that goes on behind a name. -/
theorem entry_cons (start : String) {name : String} {trail : Trail} (nonempty : trail.1 ≠ []) :
    entry start (name :: trail.1, trail.2) = entry (start ++ name ++ ".") trail := by
  rw [entry, entry, ← List.singleton_append, Path.ofNames_append (List.cons_ne_nil _ _) nonempty, Path.ofNames_singleton]
  simp [String.append_assoc]

theorem putPath_of_not_mem {paths : List (String × Relation)} {path : String} (fresh : path ∉ paths.map (·.1))
    (relation : Relation) : putPath paths path relation = paths ++ [(path, relation)] := by
  refine if_neg fun present => fresh ?_
  obtain ⟨entry, listed, same⟩ := List.any_eq_true.1 present
  exact List.mem_map.2 ⟨entry, listed, by simpa using same⟩

/-- Entries of different paths are added one behind the other. -/
theorem foldl_putPath {paths more : List (String × Relation)} (distinct : ((paths ++ more).map (·.1)).Nodup) :
    more.foldl (fun paths entry => putPath paths entry.1 entry.2) paths = paths ++ more := by
  induction more generalizing paths with
  | nil => rw [List.foldl_nil, List.append_nil]
  | cons first rest ih =>
    have fresh : first.1 ∉ paths.map (·.1) := by
      rw [List.map_append, List.nodup_append] at distinct
      exact fun present => distinct.2.2 _ present _ List.mem_cons_self rfl
    rw [List.append_cons] at distinct ⊢
    rw [List.foldl_cons, putPath_of_not_mem fresh, ih distinct]

/-- The paths that are listed are made of the trails, in their order. -/
theorem relationPaths_eq (sound : graph.Sound) (led : graph.Led) (plain : graph.PlainRelations)
    (member : resource ∈ graph.resources) (depth : Nat) (start : String) :
    graph.relationPaths depth resource start = .ok ((graph.trails depth resource).map (entry start)) := by
  induction depth generalizing resource start with
  | zero => rfl
  | succ depth ih =>
    have each (relation) (declared : relation ∈ resource.relations) (paths : List (String × Relation)) :
        (do
          let path := start ++ relation.name
          let paths := putPath paths path relation
          if 0 < depth && relation.isNestable then
            let deeper ← relationPaths graph depth (← graph.target relation) (path ++ ".")
            return deeper.foldl (fun paths entry => putPath paths entry.1 entry.2) paths
          else return paths) =
          (.ok (((graph.branch (graph.trails depth) relation).map (entry start)).foldl
            (fun paths entry => putPath paths entry.1 entry.2) paths) : Except Failure _) := by
      have here : entry start ([relation.name], relation) = (start ++ relation.name, relation) := by
        rw [entry, Path.ofNames_singleton]
      by_cases nestable : relation.isNestable
      · obtain ⟨target, leadsTo⟩ := led resource member relation declared nestable
        rw [branch_of_target nestable leadsTo, List.map_cons, here, List.foldl_cons]
        cases depth with
        | zero => rfl
        | succ depth =>
          have behind : (graph.trails (depth + 1) target).map (entry (start ++ relation.name ++ ".")) =
              ((graph.trails (depth + 1) target).map fun trail => (relation.name :: trail.1, trail.2)).map
                (entry start) := by
            rw [List.map_map]
            refine List.map_congr_left fun trail inside => (entry_cons start ?_).symm
            obtain ⟨-, _, leads⟩ := mem_trails.1 inside
            exact leads.ne_nil
          rw [if_pos (by simp [nestable]), leadsTo, ok_bind, ih (mem_of_target leadsTo), ok_bind, behind]
          rfl
      · rw [branch, if_neg nestable, List.map_singleton, here, if_neg (by simp [nestable])]
        rfl
    have distinct : ((graph.trails (depth + 1) resource).map (entry start)).map (·.1) |>.Nodup := by
      rw [List.map_map]
      exact nodup_paths sound member plain (depth + 1) start
    rw [relationPaths, foldlM_eq_ok each, ← List.foldl_flatMap, ← List.map_flatMap]
    exact congrArg _ (foldl_putPath distinct)

/-- The paths that are made of trails are the names that lead somewhere. -/
theorem mem_map_entry {depth : Nat} {path : String} :
    (path, relation) ∈ (graph.trails depth resource).map (entry "") ↔
      ∃ names owner, names.length ≤ depth ∧ graph.Leads resource names owner relation ∧ path = Path.ofNames names := by
  rw [List.mem_map]
  constructor
  · rintro ⟨⟨names, _⟩, inside, same⟩
    cases same
    obtain ⟨short, owner, leads⟩ := mem_trails.1 inside
    exact ⟨names, owner, short, leads, String.empty_append⟩
  · rintro ⟨names, owner, short, leads, rfl⟩
    exact ⟨(names, relation), mem_trails.2 ⟨short, owner, leads⟩, by rw [entry, String.empty_append]⟩

/-! ## Hops along the listed paths -/

/-- A hop before others that start where it leads. -/
theorem Walks.cons {target : Resource} {hops : List (Resource × Relation)} {last : Relation}
    (further : graph.Walks target names last hops) (declared : relation ∈ resource.relations)
    (leadsTo : graph.target relation = .ok target) :
    graph.Walks resource (relation.name :: names) last ((resource, relation) :: hops) where
  names := by rw [List.map_cons, further.names]
  first := rfl
  declared := List.forall_mem_cons.2 ⟨declared, further.declared⟩
  next := by
    rw [List.isChain_cons]
    refine ⟨fun hop first => ?_, further.next⟩
    have start := further.first
    rw [first] at start
    rw [leadsTo, ← Option.some.inj start]
  last := by
    have ends := further.last
    cases given : hops.getLast? with
    | none => simp [given] at ends
    | some hop => rwa [List.getLast?_cons, given, Option.getD_some, Option.map_some, ← Option.map_some, ← given]

section Walks

variable (sound : graph.Sound) (led : graph.Led) (member : resource ∈ graph.resources)
include sound led member

/-- A walk along names that lead somewhere takes a hop for each of them. -/
theorem Leads.walk_follows (leads : graph.Leads resource names owner relation) :
    ∃ hops, graph.walk resource names = .ok hops ∧ graph.Walks resource names relation hops := by
  induction leads with
  | @one resource relation declared =>
    have onward : ∃ next, graph.behind resource relation = .ok next := by
      unfold behind
      split
      · next nestable => exact led resource member relation declared nestable
      · exact ⟨resource, rfl⟩
    obtain ⟨next, goesOn⟩ := onward
    refine ⟨[(resource, relation)], ?_, rfl, rfl, List.forall_mem_singleton.2 declared, List.isChain_singleton _, rfl⟩
    simp only [walk, (sound _ member).relation?_eq declared, goesOn]
    rfl
  | more declared nestable leadsTo _ ih =>
    obtain ⟨hops, walked, follows⟩ := ih (mem_of_target leadsTo)
    refine ⟨_, ?_, follows.cons declared leadsTo⟩
    rw [walk_cons (sound _ member) declared nestable leadsTo, walked]
    rfl

omit led in
/-- On the way to a relation, only that relation may have several possible targets. -/
theorem Leads.all_isNestable (leads : graph.Leads resource names owner relation) {hops : List (Resource × Relation)}
    (walked : graph.walk resource names = .ok hops) : hops.all (·.2.isNestable) = relation.isNestable := by
  obtain ⟨before, rfl, single⟩ := (leads.walked sound member).2 hops walked
  simp [single]

variable (plain : graph.PlainRelations)
include plain

/-- The paths over which values are computed are those that end at a relation with one target. -/
theorem aggregatePaths_eq : graph.aggregatePaths resource =
    .ok (((graph.trails pathDepth resource).filter (·.2.isNestable)).map fun trail => Path.ofNames trail.1) := by
  have each : ∀ found ∈ (graph.trails pathDepth resource).map (entry ""),
      (do return (← graph.hops resource found.1).all (·.2.isNestable) : Except Failure Bool) =
        .ok found.2.isNestable := by
    intro found listed
    obtain ⟨⟨names, relation⟩, inside, rfl⟩ := List.mem_map.1 listed
    obtain ⟨-, owner, leads⟩ := mem_trails.1 inside
    obtain ⟨hops, walked, -⟩ := leads.walk_follows sound led member
    rw [Graph.hops, entry, String.empty_append, leads.names_ofNames plain member, walked, ok_bind,
      leads.all_isNestable sound member walked]
    rfl
  rw [aggregatePaths, searchPaths, relationPaths_eq sound led plain member, ok_bind, filterM_eq_ok each, ok_bind,
    List.filter_map]
  simp [Function.comp_def, entry, pure, Except.pure]

/-- The paths over which values are computed are the names that lead to a relation with one target. -/
theorem mem_aggregatePaths {paths : List String} (computed : graph.aggregatePaths resource = .ok paths) {path : String} :
    path ∈ paths ↔ ∃ names owner relation, names.length ≤ 2 ∧
      graph.Leads resource names owner relation ∧ relation.isNestable ∧ path = Path.ofNames names := by
  obtain rfl := Except.ok.inj (computed.symm.trans (aggregatePaths_eq sound led member plain))
  simp only [List.mem_map, List.mem_filter]
  constructor
  · rintro ⟨⟨names, relation⟩, ⟨inside, nestable⟩, rfl⟩
    obtain ⟨short, owner, leads⟩ := mem_trails.1 inside
    exact ⟨names, owner, relation, short, leads, nestable, rfl⟩
  · rintro ⟨names, owner, relation, short, leads, nestable, rfl⟩
    exact ⟨(names, relation), ⟨mem_trails.2 ⟨short, owner, leads⟩, nestable⟩, rfl⟩

/-- A listed path is resolved to the relation at its end and to the resource behind it. -/
theorem resolve?_of_leads (leads : graph.Leads resource names owner relation) (short : names.length ≤ 2)
    {target : Resource} (leadsTo : graph.target relation = .ok target) :
    graph.resolve? resource (.text (Path.ofNames names)) = .ok (some (relation, target)) := by
  have listed : (Path.ofNames names, relation) ∈ (graph.trails pathDepth resource).map (entry "") :=
    mem_map_entry.2 ⟨names, owner, short, leads, rfl⟩
  obtain ⟨hops, walked, -⟩ := leads.walk_follows sound led member
  obtain ⟨before, rfl, -⟩ := (leads.walked sound member).2 hops walked
  have followed : graph.hops resource (Path.ofNames names) = .ok (before ++ [(owner, relation)]) := by
    rw [Graph.hops, leads.names_ofNames plain member, walked]
  exact resolve?_eq (relationPaths_eq sound led plain member pathDepth "") (List.mem_map_of_mem listed) followed
    List.getLast?_concat leadsTo

/-- A path is resolved or known to lead nowhere, whatever it is, if every relation has a target. -/
theorem resolve?_total (targeted : ∀ owner ∈ graph.resources, ∀ relation ∈ owner.relations, relation.targets ≠ [])
    (path : Json) : ∃ found, graph.resolve? resource path = .ok found ∧
      ∀ relation target, found = some (relation, target) → graph.target relation = .ok target := by
  have nothing : ∀ relation target, none = some (relation, target) → graph.target relation = .ok target := by
    rintro _ _ ⟨⟩
  cases path with
  | text path =>
    by_cases listed : path ∈ ((graph.trails pathDepth resource).map (entry "")).map (·.1)
    · obtain ⟨⟨_, relation⟩, inside, rfl⟩ := List.mem_map.1 listed
      obtain ⟨names, owner, short, leads, rfl⟩ := mem_map_entry.1 inside
      obtain ⟨memberOwner, declared⟩ := leads.mem_owner member
      obtain ⟨name, rest, several⟩ := List.exists_cons_of_ne_nil (targeted owner memberOwner relation declared)
      obtain ⟨target, found⟩ := ((sound owner memberOwner).relations relation declared).targets name
        (several ▸ List.mem_cons_self)
      have leadsTo : graph.target relation = .ok target := by simp only [Graph.target, several, found]
      refine ⟨_, resolve?_of_leads sound led member plain leads short leadsTo, ?_⟩
      rintro _ _ ⟨⟩
      exact leadsTo
    · refine ⟨none, ?_, nothing⟩
      have absent : ¬((graph.trails pathDepth resource).map (entry "")).any (·.1 == path) := by
        rw [List.any_eq_true]
        rintro ⟨found, inside, same⟩
        exact listed (List.mem_map.2 ⟨found, inside, by simpa using same⟩)
      rw [resolve?, searchPaths, relationPaths_eq sound led plain member, ok_bind, if_neg absent]
      rfl
  | _ => exact ⟨none, rfl, nothing⟩

end Walks

/-- The paths of so many names at most that are listed for a resource of a graph are exactly the plain names that lead
somewhere, each once and with the relation at its end; following a listed path takes a hop for each name and ends at that
relation; and values are computed over those of two names at most that end at a relation with one target. Relations are
declared with their targets, as `ResourceDeclaration.isLed_of_readAll` says of all that are read. -/
theorem paths_of_build {schema : Schema} {declarations : List ResourceDeclaration}
    (built : build schema declarations = .ok graph)
    (led : ∀ declaration ∈ declarations, ∀ relation ∈ declaration.relations, relation.IsLed)
    (plain : graph.PlainRelations) (member : resource ∈ graph.resources) :
    (∀ depth, ∃ paths, graph.relationPaths depth resource "" = .ok paths ∧ (paths.map (·.1)).Nodup ∧
      (∀ path relation, (path, relation) ∈ paths ↔ ∃ names owner, names.length ≤ depth ∧
        graph.Leads resource names owner relation ∧ path = Path.ofNames names) ∧
      ∀ path relation, (path, relation) ∈ paths →
        ∃ hops, graph.hops resource path = .ok hops ∧ graph.Walks resource (Path.names path) relation hops) ∧
    ∃ paths, graph.aggregatePaths resource = .ok paths ∧ paths.Nodup ∧
      ∀ path, path ∈ paths ↔ ∃ names owner relation, names.length ≤ 2 ∧
        graph.Leads resource names owner relation ∧ relation.isNestable ∧ path = Path.ofNames names := by
  have sound := sound_of_build built
  have ledBuilt := led_of_build built led
  refine ⟨fun depth => ⟨_, relationPaths_eq sound ledBuilt plain member depth "", ?_, ?_, ?_⟩,
    _, aggregatePaths_eq sound ledBuilt member plain, ?_, ?_⟩
  · rw [List.map_map]
    exact nodup_paths sound member plain depth ""
  · exact fun _ _ => mem_map_entry
  · intro path relation listed
    obtain ⟨names, owner, -, leads, rfl⟩ := mem_map_entry.1 listed
    rw [hops, leads.names_ofNames plain member]
    exact leads.walk_follows sound ledBuilt member
  · have distinct := nodup_paths sound member plain pathDepth ""
    simp only [String.empty_append] at distinct
    exact distinct.sublist (List.filter_sublist.map _)
  · exact fun _ => mem_aggregatePaths sound ledBuilt member plain (aggregatePaths_eq sound ledBuilt member plain)

namespace Notes

def table : Table where
  name := "notes"
  columns := [⟨"id", .integer, true, false, .null⟩, ⟨"above_id", .integer, false, true, .null⟩,
    ⟨"about_id", .integer, false, true, .null⟩, ⟨"about_type", .string, false, true, .null⟩]

def schema : Schema := { tables := [table] }

/-- Notes, each below another one and about any other. -/
def declaration : ResourceDeclaration where
  name := "Note"
  table := table
  options := [("fields", .list [.text "id"])]
  scopes := []
  relations := [
    { name := "above", kind := .belongsTo, targets := [.text "Note"], foreignKey := .text "above_id" },
    { name := "about", kind := .morphTo, targets := [.text "Note"], foreignKey := .text "about_id",
      morphType := some "about_type" }]

def above : Relation := ⟨"above", .belongsTo, ["Note"], .parent ⟨"above_id", "id", none⟩⟩

def about : Relation := ⟨"about", .morphTo, ["Note"], .parent ⟨"about_id", "id", some "about_type"⟩⟩

def note : Resource where
  name := "Note"
  table := table
  key := "id"
  fields := ["id"]
  scopes := []
  limits := [.int 10, .int 25, .int 50]
  defaultLimit := .int 50
  defaultOrder := [("id", .desc)]
  relations := [above, about]
  fillable := []
  softDeletes := .bool false
  deletedAt := none
  morphAlias := .text "notes"
  gates := true

def notes : Graph := ⟨[note]⟩

/-- Notes are reached from notes by paths of any length, which end behind what a note is about. -/
theorem paths_of_notes :
    build schema [declaration] = .ok notes ∧ notes.PlainRelations ∧
      (∃ paths, notes.relationPaths 3 note "" = .ok paths ∧ (paths.map (·.1)).Nodup ∧
        (∀ path relation, (path, relation) ∈ paths ↔ ∃ names owner, names.length ≤ 3 ∧
          notes.Leads note names owner relation ∧ path = Path.ofNames names) ∧
        ∀ path relation, (path, relation) ∈ paths →
          ∃ hops, notes.hops note path = .ok hops ∧ notes.Walks note (Path.names path) relation hops) ∧
      ∃ paths, notes.aggregatePaths note = .ok paths ∧ paths.Nodup ∧
        ∀ path, path ∈ paths ↔ ∃ names owner relation, names.length ≤ 2 ∧
          notes.Leads note names owner relation ∧ relation.isNestable ∧ path = Path.ofNames names := by
  have built : build schema [declaration] = .ok notes := rfl
  have plain : notes.PlainRelations := by decide
  have led : ∀ declared ∈ [declaration], ∀ relation ∈ declared.relations, relation.IsLed := by
    simp [declaration, RelationDeclaration.IsLed]
  have listed := paths_of_build built led plain (List.mem_cons_self : note ∈ [note])
  exact ⟨built, plain, listed.1 3, listed.2⟩

/-- The paths of two names: notes are not looked for behind what a note is about. -/
example : notes.searchPaths note =
    .ok [("above", above), ("above.above", above), ("above.about", about), ("about", about)] := rfl

end Notes

end Graph

end ResourceApi
