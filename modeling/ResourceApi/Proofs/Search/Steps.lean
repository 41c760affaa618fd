import ResourceApi.Proofs.Resource.Paths
import ResourceApi.Search.Plan

/-!
The steps by which includes are loaded. The paths to load hold every beginning of a path before the path itself, so that
each step finds the one that it goes on from.
-/

namespace ResourceApi

open Outcome

variable {graph : Graph} {resource : Resource}

/-- A path that leads through relations of the graph to records of a resource. -/
def Graph.Reaches (graph : Graph) (resource : Resource) (path : String) : Prop :=
  ∃ names owner relation target, graph.Leads resource names owner relation ∧ graph.target relation = .ok target ∧
    path = Path.ofNames names

namespace Plan

/-! ## Paths to load -/

/-- Gathering names that are new brings every name. -/
theorem mem_foldl_new {names kept : List String} {name : String} :
    name ∈ names.foldl (fun kept name => if kept.contains name then kept else kept ++ [name]) kept ↔
      name ∈ kept ∨ name ∈ names := by
  induction names generalizing kept with
  | nil => simp
  | cons first rest ih =>
    rw [List.foldl_cons, ih, List.mem_cons]
    split
    · next known =>
      have present : first ∈ kept := by simpa using known
      constructor
      · rintro (old | later)
        · exact .inl old
        · exact .inr (.inr later)
      · rintro (old | rfl | later)
        · exact .inl old
        · exact .inl present
        · exact .inr later
    · rw [List.mem_append, List.mem_singleton, or_assoc]

/-- Gathering names that are new brings none twice. -/
theorem nodup_foldl_new {names kept : List String} (distinct : kept.Nodup) :
    (names.foldl (fun kept name => if kept.contains name then kept else kept ++ [name]) kept).Nodup := by
  induction names generalizing kept with
  | nil => exact distinct
  | cons first rest ih =>
    rw [List.foldl_cons]
    split
    · exact ih distinct
    · next fresh =>
      refine ih (List.nodup_append.2 ⟨distinct, by simp, ?_⟩)
      rintro name old _ last rfl
      rw [← List.mem_singleton.1 last] at fresh
      exact fresh (by simpa using old)

/-- The paths to load are the beginnings of those asked for, each once. -/
theorem mem_includePaths {includes : List Include} {path : String} :
    path ∈ includePaths includes ↔ ∃ item ∈ includes, path ∈ beginnings item.relation := by
  rw [includePaths, List.mem_mergeSort, mem_foldl_new]
  simp

theorem mem_includePaths_self {includes : List Include} {item : Include} (asked : item ∈ includes) :
    item.relation ∈ includePaths includes := by
  have some := List.length_pos_of_ne_nil (Path.names_ne_nil item.relation)
  refine mem_includePaths.2 ⟨item, asked, List.mem_map.2 ⟨(Path.names item.relation).length - 1, ?_, ?_⟩⟩
  · exact List.mem_range.2 (by omega)
  · rw [Nat.sub_add_cancel some, List.take_length, Path.ofNames_names]

/-- A path to load has the first names of a path that was asked for. -/
theorem names_of_mem_includePaths {includes : List Include} {path : String} (listed : path ∈ includePaths includes) :
    ∃ item ∈ includes, ∃ count < (Path.names item.relation).length,
      path = Path.ofNames ((Path.names item.relation).take (count + 1)) ∧
        Path.names path = (Path.names item.relation).take (count + 1) := by
  obtain ⟨item, asked, begins⟩ := mem_includePaths.1 listed
  obtain ⟨count, short, rfl⟩ := List.mem_map.1 begins
  refine ⟨item, asked, count, List.mem_range.1 short, rfl, Path.names_ofNames ?_ fun name inside => ?_⟩
  · simp [Path.names_ne_nil]
  · exact Path.isPlain_of_mem_names (List.mem_of_mem_take inside)

/-- What a path to load goes on from is loaded too. -/
theorem mem_includePaths_of_append {includes : List Include} {before name : String} (plain : Path.IsPlain name)
    (listed : before ++ "." ++ name ∈ includePaths includes) : before ∈ includePaths includes := by
  obtain ⟨item, asked, count, short, -, names⟩ := names_of_mem_includePaths listed
  rw [Path.names_append, Path.names_of_isPlain plain] at names
  have lengths := congrArg List.length names
  have nonempty := List.length_pos_of_ne_nil (Path.names_ne_nil before)
  simp only [List.length_append, List.length_singleton, List.length_take] at lengths
  obtain ⟨fewer, rfl⟩ : ∃ fewer, count = fewer + 1 := ⟨count - 1, by omega⟩
  have same : Path.names before = (Path.names item.relation).take (fewer + 1) := by
    rw [← List.take_append_getElem short] at names
    exact (List.append_inj' names rfl).1
  refine mem_includePaths.2 ⟨item, asked, List.mem_map.2 ⟨fewer, List.mem_range.2 (by omega), ?_⟩⟩
  rw [← same, Path.ofNames_names]

/-- A path to load begins with a point only if one that was asked for does. -/
theorem isRootless_of_mem_includePaths {includes : List Include} {path : String} (listed : path ∈ includePaths includes)
    (rootless : Path.IsRootless path) : ∃ item ∈ includes, Path.IsRootless item.relation := by
  obtain ⟨item, asked, count, short, same, -⟩ := names_of_mem_includePaths listed
  refine ⟨item, asked, ?_⟩
  obtain ⟨first, rest, names⟩ := List.exists_cons_of_ne_nil (Path.names_ne_nil item.relation)
  have plain : Path.IsPlain first := Path.isPlain_of_mem_names (names ▸ List.mem_cons_self)
  rw [same, names, List.take_succ_cons] at rootless
  rw [← Path.ofNames_names item.relation, names]
  by_cases more : rest.take count = []
  · rw [more, Path.ofNames_singleton] at rootless
    exact absurd (List.mem_of_mem_head? rootless) plain
  · rw [Path.isRootless_ofNames plain more] at rootless
    exact (Path.isRootless_ofNames plain fun empty => more (by simp [empty])).2 rootless

theorem nodup_includePaths (includes : List Include) : (includePaths includes).Nodup :=
  (List.mergeSort_perm _ _).nodup_iff.2 (nodup_foldl_new List.nodup_nil)

/-- Shorter paths are loaded first. -/
theorem pairwise_includePaths (includes : List Include) :
    (includePaths includes).Pairwise fun a b => Path.points a ≤ Path.points b := by
  have transitive (a b c : String) (first : decide (Path.points a ≤ Path.points b) = true)
      (second : decide (Path.points b ≤ Path.points c) = true) : decide (Path.points a ≤ Path.points c) = true := by
    simp only [decide_eq_true_eq] at *
    omega
  have total (a b : String) : (decide (Path.points a ≤ Path.points b) || decide (Path.points b ≤ Path.points a)) := by
    simp only [Bool.or_eq_true, decide_eq_true_eq]
    omega
  exact (List.pairwise_mergeSort transitive total _).imp fun ordered => by simpa using ordered

/-! ## Steps -/

/-- A step that stands where its path leads. -/
structure Hop.Placed (graph : Graph) (resource : Resource) (hop : Hop) : Prop where
  leads : ∃ before, hop.step.path = Path.ofNames (before ++ [hop.step.name]) ∧
    graph.Leads resource (before ++ [hop.step.name]) hop.owner hop.step.relation ∧
    hop.step.parentPath = (if before = [] then none else some (Path.ofNames before))
  target : graph.target hop.step.relation = .ok hop.target
  named : hop.step.relation.name = hop.step.name

/-- Steps for some paths: those that do not begin with a point stand where their paths lead, and the others go on from
the root. -/
structure Stepped (graph : Graph) (resource : Resource) (paths : List String) (hops : List Hop) : Prop where
  inOrder : hops.map (·.step.path) = paths
  placed : ∀ hop ∈ hops, ¬Path.IsRootless hop.step.path → hop.Placed graph resource
  known : ∀ name, "." ++ name ∈ paths → Path.IsPlain name → (resource.relation? name).isSome

/-- One more step. -/
theorem Stepped.concat {paths : List String} {hops : List Hop} (stepped : Stepped graph resource paths hops)
    {path : String} {hop : Hop} (samePath : hop.step.path = path)
    (placed : ¬Path.IsRootless path → hop.Placed graph resource)
    (known : ∀ name, path = "." ++ name → Path.IsPlain name → (resource.relation? name).isSome) :
    Stepped graph resource (paths ++ [path]) (hops ++ [hop]) where
  inOrder := by simp [stepped.inOrder, samePath]
  placed other among rooted := by
    rcases List.mem_append.1 among with old | new
    · exact stepped.placed other old rooted
    · obtain rfl := List.mem_singleton.1 new
      exact placed (samePath ▸ rooted)
  known name among plainName := by
    rcases List.mem_append.1 among with old | new
    · exact stepped.known name old plainName
    · exact known name (List.mem_singleton.1 new).symm plainName

section Placing

variable (sound : graph.Sound) (plain : graph.PlainRelations) (member : resource ∈ graph.resources)
include sound plain member

/-- The steps for one path lead to one resource. -/
theorem Hop.Placed.target_eq {hop : Hop} (placed : hop.Placed graph resource) {names : List String} {owner target : Resource}
    {relation : Relation} (path : hop.step.path = Path.ofNames names)
    (leads : graph.Leads resource names owner relation) (leadsTo : graph.target relation = .ok target) :
    hop.owner = owner ∧ hop.step.relation = relation ∧ hop.target = target := by
  obtain ⟨before, samePath, leadsToo, -⟩ := placed.leads
  have sameNames : before ++ [hop.step.name] = names := by
    rw [← leadsToo.names_ofNames plain member, ← samePath, path, leads.names_ofNames plain member]
  rw [sameNames] at leadsToo
  obtain ⟨rfl, rfl⟩ := leadsToo.unique sound member leads
  exact ⟨rfl, rfl, Except.ok.inj (placed.target.symm.trans leadsTo)⟩

/-- A path that does not begin with a point has a step, once there is one for the path that it goes on from. -/
theorem includeHop_eq_ok {path : String} (reaches : graph.Reaches resource path) (rooted : ¬Path.IsRootless path)
    {hops : List Hop} (placed : ∀ hop ∈ hops, ¬Path.IsRootless hop.step.path → hop.Placed graph resource)
    (parent : ∀ before name, path = before ++ "." ++ name → Path.IsPlain name → before ∈ hops.map (·.step.path)) :
    ∃ hop, includeHop graph resource hops path = .ok hop ∧ hop.step.path = path ∧ hop.Placed graph resource := by
  obtain ⟨names, owner, relation, target, leads, leadsTo, rfl⟩ := reaches
  obtain ⟨before, name, rfl⟩ : ∃ before name, names = before ++ [name] :=
    ⟨_, _, (List.dropLast_append_getLast leads.ne_nil).symm⟩
  have named : relation.name = name := by simpa using leads.getLast?.symm
  have namePlain : Path.IsPlain name := leads.isPlain plain member name (by simp)
  have found : owner.relation? name = some relation := by
    obtain ⟨ownerMember, declared⟩ := leads.mem_owner member
    rw [← named]
    exact (sound _ ownerMember).relation?_eq declared
  have built (start : String) (owned : ownerAt resource hops start = .ok owner)
      (split : Path.splitLast (Path.ofNames (before ++ [name])) = (start, name)) :
      includeHop graph resource hops (Path.ofNames (before ++ [name])) = .ok ⟨
        { path := Path.ofNames (before ++ [name]), name, relation,
          parentPath := if start.isEmpty then none else some start }, owner, target⟩ := by
    simp [includeHop, split, owned, found, leadsTo]
  rcases leads.init with ⟨rfl, rfl⟩ | ⟨earlier, between, onward, -, reaches⟩
  · refine ⟨_, built "" rfl ?_, rfl, ⟨[], rfl, leads, rfl⟩, leadsTo, named⟩
    rw [List.nil_append, Path.ofNames_singleton, Path.splitLast_of_isPlain namePlain]
  · have nonempty : before ≠ [] := onward.ne_nil
    have joined : Path.ofNames (before ++ [name]) = Path.ofNames before ++ "." ++ name := by
      rw [Path.ofNames_append nonempty (List.cons_ne_nil _ _), Path.ofNames_singleton]
    obtain ⟨first, rest, sameNames⟩ := List.exists_cons_of_ne_nil nonempty
    have firstNamed : first ≠ "" := by
      rintro rfl
      rw [sameNames, List.cons_append] at rooted
      exact rooted ((Path.isRootless_ofNames (by decide) (by simp)).2 rfl)
    have goesOn : Path.ofNames before ≠ "" := by
      intro empty
      have alone : Path.names "" = first :: rest := by rw [← empty, onward.names_ofNames plain member, sameNames]
      exact firstNamed (by simpa [Path.names, Text.cut] using (List.cons.inj alone).1.symm)
    have parentRooted : ¬Path.IsRootless (Path.ofNames before) := by
      have firstPlain := onward.isPlain plain member first (sameNames ▸ List.mem_cons_self)
      rw [sameNames]
      by_cases more : rest = []
      · rw [more, Path.ofNames_singleton]
        exact fun pointed => firstPlain (List.mem_of_mem_head? pointed)
      · rwa [Path.isRootless_ofNames firstPlain more]
    have isThere := parent _ _ joined namePlain
    obtain ⟨known, inside, samePath⟩ := List.mem_map.1 isThere
    have owned : ownerAt resource hops (Path.ofNames before) = .ok owner := by
      obtain ⟨earliest, looked⟩ := Option.isSome_iff_exists.1
        (List.find?_isSome.2 ⟨known, inside, by simp [samePath]⟩ :
          (hops.find? (·.step.path == Path.ofNames before)).isSome)
      have firstPath : earliest.step.path = Path.ofNames before := by simpa using List.find?_some looked
      obtain ⟨-, -, same⟩ := (placed earliest (List.mem_of_find?_eq_some looked) (firstPath ▸ parentRooted)).target_eq
        sound plain member firstPath onward reaches
      simp [ownerAt, goesOn, looked, same]
    refine ⟨_, built _ owned ?_, rfl, ⟨before, rfl, leads, ?_⟩, leadsTo, named⟩
    · rw [joined, Path.splitLast_append _ namePlain]
    · simp [nonempty, goesOn]

omit sound plain member in
/-- The step after an empty first name is looked up at the root. -/
theorem includeHop_rootless {name : String} (plainName : Path.IsPlain name) (hops : List Hop) :
    (resource.relation? name = none → includeHop graph resource hops ("." ++ name) =
      .error (.mismatch (.unknownInclude name resource.name))) ∧
    ∀ relation target, resource.relation? name = some relation → graph.target relation = .ok target →
      includeHop graph resource hops ("." ++ name) =
        .ok ⟨{ path := "." ++ name, name, relation, parentPath := none }, resource, target⟩ := by
  have split : Path.splitLast ("." ++ name) = ("", name) := Path.splitLast_append "" plainName
  have owned : ownerAt resource hops "" = .ok resource := rfl
  constructor
  · intro unknown
    simp only [includeHop, split, owned, ok_bind, unknown]
  · intro relation target found leadsTo
    simp only [includeHop, split, owned, ok_bind, found, leadsTo]
    rfl

/-- Paths to load, each behind those that it goes on from, have their steps, unless one that begins with a point goes on
with a name which the root does not know. -/
theorem includeHops_cases {paths : List String} (reach : ∀ path ∈ paths, graph.Reaches resource path)
    (sorted : paths.Pairwise fun a b => Path.points a ≤ Path.points b)
    (closed : ∀ before name, before ++ "." ++ name ∈ paths → Path.IsPlain name → before ∈ paths)
    (short : ∀ path ∈ paths, Path.IsRootless path → ∃ name, path = "." ++ name ∧ Path.IsPlain name)
    (reached : ∀ name relation, "." ++ name ∈ paths → resource.relation? name = some relation →
      ∃ target, graph.target relation = .ok target) :
    (∃ hops, includeHops graph resource paths = .ok hops ∧ Stepped graph resource paths hops) ∨
      ∃ name, "." ++ name ∈ paths ∧ resource.relation? name = none ∧
        includeHops graph resource paths = .error (.mismatch (.unknownInclude name resource.name)) := by
  have loop (done rest : List String) (whole : done ++ rest = paths) (hops : List Hop)
      (stepped : Stepped graph resource done hops) :
      (∃ final, rest.foldlM (fun hops path => return hops ++ [← includeHop graph resource hops path]) hops = .ok final ∧
        Stepped graph resource paths final) ∨
      ∃ name, "." ++ name ∈ paths ∧ resource.relation? name = none ∧
        rest.foldlM (fun hops path => return hops ++ [← includeHop graph resource hops path]) hops =
          .error (.mismatch (.unknownInclude name resource.name)) := by
    induction rest generalizing done hops with
    | nil =>
      obtain rfl : done = paths := by simpa using whole
      exact .inl ⟨hops, rfl, stepped⟩
    | cons path rest ih =>
      have inside : path ∈ paths := by simp [← whole]
      rw [List.foldlM_cons]
      by_cases pointed : Path.IsRootless path
      · obtain ⟨name, rfl, plainName⟩ := short path inside pointed
        cases found : resource.relation? name with
        | none =>
          rw [(includeHop_rootless plainName hops).1 found]
          exact .inr ⟨name, inside, found, rfl⟩
        | some relation =>
          obtain ⟨target, leadsTo⟩ := reached name relation inside found
          rw [(includeHop_rootless plainName hops).2 relation target found leadsTo]
          refine ih (done ++ ["." ++ name]) (by simpa using whole) _ (stepped.concat rfl (absurd pointed) ?_)
          intro other same _
          rw [← String.append_right_inj "." |>.1 same, found]
          rfl
      · have earlier (before name : String) (joined : path = before ++ "." ++ name) (plainName : Path.IsPlain name) :
            before ∈ hops.map (·.step.path) := by
          have isThere := closed before name (joined ▸ inside) plainName
          have shorter : Path.points before < Path.points path := by
            rw [joined, Path.points_append]
            omega
          rw [← whole] at isThere sorted
          rcases List.mem_append.1 isThere with old | later
          · exact stepped.inOrder ▸ old
          · have ordered := (List.pairwise_append.1 sorted).2.1
            rcases List.mem_cons.1 later with rfl | after
            · omega
            · have := List.rel_of_pairwise_cons ordered after
              omega
        obtain ⟨hop, made, samePath, isPlaced⟩ :=
          includeHop_eq_ok sound plain member (reach path inside) pointed stepped.placed earlier
        rw [made]
        refine ih (done ++ [path]) (by simpa using whole) _ (stepped.concat samePath (fun _ => isPlaced) ?_)
        rintro name rfl
        exact absurd (by simp [Path.IsRootless]) pointed
  exact loop [] paths (List.nil_append paths) [] ⟨List.map_nil, fun _ inside => absurd inside List.not_mem_nil,
    fun _ inside => absurd inside List.not_mem_nil⟩

end Placing

end Plan

end ResourceApi
