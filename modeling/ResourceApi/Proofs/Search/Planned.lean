import ResourceApi.Proofs.Search.Compiled
import ResourceApi.Proofs.Search.Steps

/-!
Validated searches compile. Whatever a search that was let through speaks of is found when its plan is made, at the root
and behind every include, but for one slip: where a path begins with a point, the step after its empty first name is
looked up at the root.
-/

namespace ResourceApi

open Outcome

variable {graph : Graph} {resource : Resource}

/-- An include of a path that fits reaches the resource which its search was checked by. -/
theorem Include.Fits.reaches (sound : graph.Sound) (plain : graph.PlainRelations) (member : resource ∈ graph.resources)
    {item : Include} (fits : item.Fits graph resource) :
    ∃ names owner relation target, graph.Leads resource names owner relation ∧ graph.target relation = .ok target ∧
      item.relation = Path.ofNames names ∧ names.length ≤ 2 ∧
      graph.resolve? resource (.text item.relation) = .ok (some (relation, target)) := by
  obtain ⟨paths, computed, listed⟩ := fits.listed
  obtain ⟨relation, target, resolved, -⟩ := fits.behind
  obtain ⟨entry, inside, same⟩ := List.mem_map.1 listed
  obtain ⟨names, owner, leads, path, short⟩ := Graph.leads_of_mem_searchPaths computed inside
  obtain ⟨hops, hop, reached, walked, last, leadsTo, found⟩ := Graph.exists_of_resolve? computed listed resolved
  rw [same] at path
  rw [path, Graph.hops, leads.names_ofNames plain member] at walked
  obtain ⟨before, rfl, -⟩ := (leads.walked sound member).2 hops walked
  obtain rfl : (owner, entry.2) = hop := by simpa using last
  obtain ⟨rfl, rfl⟩ : relation = entry.2 ∧ target = reached := by simpa using found
  exact ⟨names, owner, entry.2, target, leads, leadsTo, path, short, resolved⟩

/-- A search for everything fits. -/
theorem Search.Fits.nothing : Search.Fits graph resource [] [] [] [] [] where
  filters := List.forall_mem_nil _
  scopes := List.forall_mem_nil _
  sorts := List.forall_mem_nil _
  selects := List.forall_mem_nil _
  aggregates := List.forall_mem_nil _

/-- The related rows of a step are rows of a resource of the graph, and of its one target if there is one. -/
theorem Related.mem_each {relation : Relation} {all : List Related} (made : each graph resource relation = .ok all)
    {related : Related} (inside : related ∈ all) : related.relation = relation ∧
      related.target ∈ graph.resources ∧ (relation.isNestable → graph.target relation = .ok related.target) := by
  unfold each at made
  split at made
  · next several =>
    obtain ⟨name, -, built⟩ := mapM_mem made inside
    split at built
    · next target found =>
      obtain ⟨same, sameTarget, -⟩ := ofTarget_eq_ok built
      refine ⟨same, sameTarget ▸ Graph.mem_of_get? found, fun nestable => ?_⟩
      simp [Relation.isNestable, Kind.isNestable, several] at nestable
    · cases built
  · simp only [bind_eq_ok, pure_eq_ok] at made
    obtain ⟨target, leadsTo, only, built, rfl⟩ := made
    obtain rfl := List.mem_singleton.1 inside
    obtain ⟨same, sameTarget, -⟩ := ofTarget_eq_ok built
    exact ⟨same, sameTarget ▸ Graph.mem_of_target leadsTo, fun _ => sameTarget ▸ leadsTo⟩

namespace Plan

theorem mem_requiredColumns {hops : List Hop} {path : Option String} {name : String}
    (required : name ∈ requiredColumns hops path) :
    ∃ hop ∈ hops, hop.step.parentPath = path ∧ name ∈ hop.step.relation.parentColumns := by
  obtain ⟨hop, listed, needed⟩ := List.mem_flatMap.1 required
  obtain ⟨inside, fromThere⟩ := List.mem_filter.1 listed
  exact ⟨hop, inside, by simpa using fromThere, needed⟩

private theorem pageLimit_never (resource : Resource) (asked : Option Int) :
    Never Failure.IsMismatch (pageLimit resource asked) := by
  unfold pageLimit
  split
  · split <;> first | exact Never.ok _ | exact Never.error (Fault.not_isMismatch _)
  · split <;> first | exact Never.ok _ | exact Never.error (Fault.not_isMismatch _)
  · exact Never.ok _

section Planning

variable (sound : graph.Sound) (plain : graph.PlainRelations) (member : resource ∈ graph.resources)
include sound plain member

/-- A path to load that begins with a point has one name behind it. -/
private theorem rootless_of_fits {includes : List Include} (fit : ∀ item ∈ includes, item.Fits graph resource) :
    ∀ path ∈ includePaths includes, Path.IsRootless path → ∃ name, path = "." ++ name ∧ Path.IsPlain name := by
  intro path listed rootless
  obtain ⟨item, asked, count, -, -, taken⟩ := names_of_mem_includePaths listed
  obtain ⟨names, owner, relation, target, leads, leadsTo, same, short, -⟩ := (fit item asked).reaches sound plain member
  refine Path.eq_of_isRootless rootless ?_
  rw [taken, same, leads.names_ofNames plain member, List.length_take]
  omega

/-- The paths of includes that fit have their steps, unless one that begins with a point goes on with a name which the
root does not know. -/
theorem includeHops_of_fits {includes : List Include} (fit : ∀ item ∈ includes, item.Fits graph resource)
    (reached : ∀ name relation, "." ++ name ∈ includePaths includes → resource.relation? name = some relation →
      ∃ target, graph.target relation = .ok target) :
    (∃ hops, includeHops graph resource (includePaths includes) = .ok hops ∧
      Stepped graph resource (includePaths includes) hops) ∨
      ∃ name, "." ++ name ∈ includePaths includes ∧ resource.relation? name = none ∧
        includeHops graph resource (includePaths includes) = .error (.mismatch (.unknownInclude name resource.name)) := by
  refine includeHops_cases sound plain member ?_ (pairwise_includePaths includes) ?_ ?_ reached
  · intro path listed
    obtain ⟨item, asked, begins⟩ := mem_includePaths.1 listed
    obtain ⟨names, owner, relation, target, leads, leadsTo, same, -⟩ := (fit item asked).reaches sound plain member
    rw [beginnings, same, leads.names_ofNames plain member] at begins
    obtain ⟨count, short, rfl⟩ := List.mem_map.1 begins
    obtain ⟨before, between, reached, onward, reaches⟩ := leads.take leadsTo (List.mem_range.1 short)
    exact ⟨_, before, between, reached, onward, reaches, rfl⟩
  · exact fun before name listed plainName => mem_includePaths_of_append plainName listed
  · exact rootless_of_fits sound plain member fit

/-- The paths of includes that fit, none of which begins with a point, have their steps. -/
theorem includeHops_of_rooted {includes : List Include} (fit : ∀ item ∈ includes, item.Fits graph resource)
    (rooted : ∀ item ∈ includes, ¬Path.IsRootless item.relation) :
    ∃ hops, includeHops graph resource (includePaths includes) = .ok hops ∧
      hops.map (·.step.path) = includePaths includes ∧ ∀ hop ∈ hops, hop.Placed graph resource := by
  have pathsRooted {path : String} (listed : path ∈ includePaths includes) : ¬Path.IsRootless path := by
    intro rootless
    obtain ⟨item, asked, pointed⟩ := isRootless_of_mem_includePaths listed rootless
    exact rooted item asked pointed
  have none (name : String) : "." ++ name ∉ includePaths includes :=
    fun listed => pathsRooted listed (by simp [Path.IsRootless])
  rcases includeHops_of_fits sound plain member fit (fun name _ listed => absurd listed (none name)) with
    ⟨hops, made, stepped⟩ | ⟨name, listed, -⟩
  · refine ⟨hops, made, stepped.inOrder, fun hop inside => stepped.placed hop inside ?_⟩
    exact pathsRooted (stepped.inOrder ▸ List.mem_map_of_mem inside)
  · exact absurd listed (none name)

/-- The search of a step that fits was checked by the resource that the step leads to. -/
theorem requested_fits {includes : List Include} (fit : ∀ item ∈ includes, item.Fits graph resource) {hop : Hop}
    (placed : hop.Placed graph resource) (nestable : hop.step.relation.isNestable) :
    let item := requested includes hop.step.path
    Search.Fits graph hop.target item.filters item.scopes item.sorts item.selects item.aggregates := by
  intro item
  cases looked : includes.reverse.find? (·.relation == hop.step.path) with
  | none =>
    have default : item = { relation := hop.step.path } := by simp only [item, requested, looked, Option.getD_none]
    rw [default]
    exact .nothing
  | some asked =>
    have found : item = asked := by simp only [item, requested, looked, Option.getD_some]
    have listed : asked ∈ includes := by simpa using List.mem_of_find?_eq_some looked
    have path : asked.relation = hop.step.path := by simpa using List.find?_some looked
    obtain ⟨names, owner, relation, target, leads, leadsTo, joined, -, resolved⟩ :=
      (fit asked listed).reaches sound plain member
    obtain ⟨-, sameRelation, sameTarget⟩ := placed.target_eq sound plain member (path.symm.trans joined) leads leadsTo
    obtain ⟨relationToo, targetToo, resolvedToo, nested, -⟩ := (fit asked listed).behind
    obtain ⟨rfl, rfl⟩ : relationToo = relation ∧ targetToo = target := by
      simpa using resolvedToo.symm.trans resolved
    rw [found, sameTarget]
    exact (nested (sameRelation ▸ nestable)).1

/-- The columns that are needed of the records of a step are those by which relations of their resource are followed. -/
theorem owner_of_requiredColumns {hops : List Hop} (placed : ∀ hop ∈ hops, hop.Placed graph resource) {hop : Hop}
    (inside : hop ∈ hops) {name : String} (required : name ∈ requiredColumns hops (some hop.step.path)) :
    hop.step.relation.isNestable ∧
      ∃ further ∈ hops, further.owner = hop.target ∧ name ∈ further.step.relation.parentColumns := by
  obtain ⟨further, listed, fromHere, needed⟩ := mem_requiredColumns required
  obtain ⟨before, -, leads, parent⟩ := (placed further listed).leads
  have nonempty : before ≠ [] := by
    rintro rfl
    rw [parent] at fromHere
    cases fromHere
  rw [parent, if_neg nonempty] at fromHere
  rcases leads.init with ⟨empty, -⟩ | ⟨earlier, between, onward, nestable, reaches⟩
  · exact absurd empty nonempty
  · obtain ⟨-, rfl, sameTarget⟩ := (placed hop inside).target_eq sound plain member (Option.some.inj fromHere).symm
      onward reaches
    exact ⟨nestable, further, listed, sameTarget.symm, needed⟩

omit sound plain member in
/-- The columns that are needed of the records of the page are those by which relations of their resource are followed. -/
theorem owner_of_requiredColumns_root {hops : List Hop} (placed : ∀ hop ∈ hops, hop.Placed graph resource) {name : String}
    (required : name ∈ requiredColumns hops none) :
    ∃ hop ∈ hops, hop.owner = resource ∧ name ∈ hop.step.relation.parentColumns := by
  obtain ⟨hop, listed, fromHere, needed⟩ := mem_requiredColumns required
  obtain ⟨before, -, leads, parent⟩ := (placed hop listed).leads
  have empty : before = [] := by
    by_contra nonempty
    rw [parent, if_neg nonempty] at fromHere
    cases fromHere
  subst empty
  rcases leads.init with ⟨-, same⟩ | ⟨_, _, onward, -, -⟩
  · exact ⟨hop, listed, same, needed⟩
  · exact absurd rfl onward.ne_nil

omit sound plain in
/-- Steps that stand where their paths lead are those of relations of the graph. -/
theorem Hop.Placed.declared {hop : Hop} (placed : hop.Placed graph resource) :
    hop.owner ∈ graph.resources ∧ hop.step.relation ∈ hop.owner.relations := by
  obtain ⟨before, -, leads, -⟩ := placed.leads
  exact leads.mem_owner member

omit plain in
private theorem hasColumn_of_needed {hops : List Hop} (placed : ∀ hop ∈ hops, hop.Placed graph resource) {hop : Hop}
    (inside : hop ∈ hops) {name : String} (needed : name ∈ hop.step.relation.parentColumns) :
    hop.owner.table.hasColumn name := by
  obtain ⟨ownerMember, declared⟩ := (placed hop inside).declared member
  exact ((sound _ ownerMember).relations _ declared).columns name needed

end Planning

section Compiling

variable (sound : graph.Sound) (plain : graph.Plain) (member : resource ∈ graph.resources)
include sound plain member

omit member in
private theorem includeQuery_never {related : Related} (targetMember : related.target ∈ graph.resources) {item : Include}
    (fits : Search.Fits graph related.target item.filters item.scopes item.sorts item.selects item.aggregates)
    {required : List String} (present : ∀ name ∈ required, related.target.table.hasColumn name) :
    Never Failure.IsMismatch (includeQuery graph related item required) := by
  have targetSound := sound _ targetMember
  refine (scopeConditions_never fits.scopes _).bind fun _ _ => ?_
  refine (filtersCondition_never sound plain targetMember fits.filters _).bind fun _ _ => ?_
  refine (columns_never targetSound fits.selects present _).bind fun _ _ => ?_
  refine (order_never targetSound fits.sorts _).bind fun _ _ => ?_
  refine (Never.mapM fun item listed => ?_).bind fun _ _ => Never.pure _
  exact aggregate_never sound plain (fits.aggregates item listed) _

theorem loadHop_never {includes : List Include} (fit : ∀ item ∈ includes, item.Fits graph resource) {hops : List Hop}
    (placed : ∀ hop ∈ hops, hop.Placed graph resource) {hop : Hop} (inside : hop ∈ hops) :
    Never Failure.IsMismatch (loadHop graph includes hops hop) := by
  refine (Related.each_never _ _).bind fun all made => ?_
  refine (Never.mapM fun related listed => ?_).bind fun _ _ => Never.pure _
  obtain ⟨-, targetMember, single⟩ := Related.mem_each made listed
  refine (includeQuery_never sound plain targetMember ?_ ?_).bind fun _ _ => Never.pure _
  · unfold searchOf
    split
    · next nestable =>
      have same := Except.ok.inj ((single nestable).symm.trans (placed hop inside).target)
      rw [same]
      exact requested_fits sound plain.relations member fit (placed hop inside) nestable
    · exact .nothing
  · intro name required
    obtain ⟨nestable, further, listed, same, needed⟩ :=
      owner_of_requiredColumns sound plain.relations member placed inside required
    rw [Except.ok.inj ((single nestable).symm.trans (placed hop inside).target), ← same]
    exact hasColumn_of_needed sound member placed listed needed

/-- A search that fits compiles as far as its names go, provided that no include begins with a point. -/
theorem compile_never {spec : Specification} (fits : spec.Fits graph resource)
    (rooted : ∀ item ∈ spec.includes, ¬Path.IsRootless item.relation) (base : List Cond) :
    Never Failure.IsMismatch (compile graph resource spec base) := by
  obtain ⟨hops, stepped, -, placed⟩ := includeHops_of_rooted sound plain.relations member fits.includes rooted
  unfold compile
  refine (scopeConditions_never fits.parts.scopes 0).bind fun _ _ => ?_
  refine (filtersCondition_never sound plain member fits.parts.filters 0).bind fun _ _ => ?_
  refine (keyColumn_never resource 0).bind fun _ _ => ?_
  refine (Never.of_eq_ok stepped).bind fun found same => ?_
  obtain rfl := Except.ok.inj (stepped.symm.trans same)
  refine (Never.mapM fun hop inside => loadHop_never sound plain member fits.includes placed inside).bind fun _ _ => ?_
  refine (columns_never (sound _ member) fits.parts.selects (fun name required => ?_) 0).bind fun _ _ => ?_
  · obtain ⟨hop, listed, same, needed⟩ := owner_of_requiredColumns_root placed required
    exact same ▸ hasColumn_of_needed sound member placed listed needed
  refine (order_never (sound _ member) fits.parts.sorts 0).bind fun _ _ => ?_
  refine (Never.mapM fun item listed => ?_).bind fun _ _ => ?_
  · exact aggregate_never sound plain (fits.parts.aggregates item listed) 0
  · exact (pageLimit_never resource spec.limit).bind fun _ _ => Never.pure _

/-- A path of an empty name and one that the root does not know does not compile. -/
theorem compile_of_rootless {spec : Specification} (fits : spec.Fits graph resource) {name : String}
    (asked : ∃ item ∈ spec.includes, item.relation = "." ++ name) (unknown : resource.relation? name = none)
    (reached : ∀ relation ∈ resource.relations, ∃ target, graph.target relation = .ok target)
    (ofScopes : ∃ conditions, scopeConditions resource 0 spec.scopes = .ok conditions)
    (ofFilters : ∃ conditions, filtersCondition graph resource 0 spec.filters = .ok conditions)
    (ofKey : ∃ column, keyColumn resource 0 = .ok column) (base : List Cond) :
    ∃ other, compile graph resource spec base = .error (.mismatch (.unknownInclude other resource.name)) := by
  obtain ⟨item, listed, path⟩ := asked
  have among : "." ++ name ∈ includePaths spec.includes := path ▸ mem_includePaths_self listed
  obtain ⟨scopes, scopesMade⟩ := ofScopes
  obtain ⟨filters, filtersMade⟩ := ofFilters
  obtain ⟨key, keyMade⟩ := ofKey
  rcases includeHops_of_fits sound plain.relations member fits.includes
    (fun _ _ _ found => reached _ (Resource.mem_of_relation? found).1) with ⟨hops, -, stepped⟩ | ⟨other, -, -, astray⟩
  · obtain ⟨same, samePath, plainName⟩ :=
      rootless_of_fits sound plain.relations member fits.includes _ among (by simp [Path.IsRootless])
    obtain rfl : name = same := by simpa using samePath
    have found := stepped.known name among plainName
    rw [unknown] at found
    cases found
  · refine ⟨other, ?_⟩
    simp only [compile, scopesMade, filtersMade, keyMade, astray, ok_bind]
    rfl

end Compiling

/-- Every field, scope and relation path of a validated search is found when it is compiled, and every include has its
step, unless an include begins with a point: it is looked up at the root, and where the root has no such relation the
compiler fails. -/
theorem names_found_of_validate {schema : Schema} {declarations : List ResourceDeclaration}
    (built : Graph.build schema declarations = .ok graph) (plain : graph.Plain) (member : resource ∈ graph.resources)
    {body : Json} {spec : Specification} (accepted : Search.validate graph resource body = .ok spec) (base : List Cond) :
    ((∀ item ∈ spec.includes, ¬Path.IsRootless item.relation) →
      (∀ cause, compile graph resource spec base ≠ .error (.mismatch cause)) ∧
        ∃ hops, includeHops graph resource (includePaths spec.includes) = .ok hops ∧
          hops.map (·.step.path) = includePaths spec.includes) ∧
      ∀ name, (∃ item ∈ spec.includes, item.relation = "." ++ name) → resource.relation? name = none →
        (∀ relation ∈ resource.relations, ∃ target, graph.target relation = .ok target) →
        (∃ conditions, scopeConditions resource 0 spec.scopes = .ok conditions) →
        (∃ conditions, filtersCondition graph resource 0 spec.filters = .ok conditions) →
        (∃ column, keyColumn resource 0 = .ok column) →
        ∃ other, compile graph resource spec base = .error (.mismatch (.unknownInclude other resource.name)) := by
  have sound := Graph.sound_of_build built
  have fits := Search.fits_of_validate accepted
  refine ⟨fun rooted => ⟨fun cause fails => ?_, ?_⟩, fun name asked unknown reached scopes filters key => ?_⟩
  · exact compile_never sound plain member fits rooted base _ fails ⟨cause, rfl⟩
  · obtain ⟨hops, made, inOrder, -⟩ := includeHops_of_rooted sound plain.relations member fits.includes rooted
    exact ⟨hops, made, inOrder⟩
  · exact compile_of_rootless sound plain member fits asked unknown reached scopes filters key base

/-! ### A relation without a name -/

namespace Unnamed

def table : Table := ⟨"records", [{ name := "id", type := .integer, isKey := true, isNullable := false }]⟩

def schema : Schema := { tables := [table] }

def declaration (name relation target : String) : ResourceDeclaration where
  name := name
  table := table
  options := [("fields", .list [.text "id"])]
  scopes := []
  relations := [{ name := relation, kind := .belongsTo, targets := [.text target], foreignKey := .text "id" }]

/-- A resource with a relation of an empty name to one with a relation of its own. -/
def declarations : List ResourceDeclaration := [declaration "First" "" "Second", declaration "Second" "other" "First"]

def linked (name relation target : String) : Resource where
  name := name
  table := table
  key := "id"
  fields := ["id"]
  scopes := []
  limits := [.int 10, .int 25, .int 50]
  defaultLimit := .int 50
  defaultOrder := [("id", .desc)]
  relations := [⟨relation, .belongsTo, [target], .parent ⟨"id", "id", none⟩⟩]
  fillable := []
  softDeletes := .bool false
  deletedAt := none
  morphAlias := .text "records"
  gates := true

def pair : Graph := ⟨[linked "First" "" "Second", linked "Second" "other" "First"]⟩

/-- A body that includes one path. -/
def body (path : String) : Json := .object [("includes", .list [.object [("relation", .text path)]])]

theorem pair_of_declarations : Graph.build schema declarations = .ok pair := rfl

theorem pair_plain : pair.Plain := by decide

/-- From the second resource, the way back to the first and on through the relation without a name is found. -/
theorem names_found_from_second :
    ¬∃ cause, compile pair (linked "Second" "other" "First") { includes := [{ relation := "other." }] } =
      .error (.mismatch cause) := by
  rintro ⟨cause, fails⟩
  exact ((names_found_of_validate pair_of_declarations pair_plain (List.mem_cons_of_mem _ List.mem_cons_self)
    (rfl : Search.validate pair (linked "Second" "other" "First") (body "other.") = .ok _) []).1 (by decide)).1 cause fails

theorem paths_of_unnamed : includePaths [{ relation := ".other" }] = ["", ".other"] := by
  refine List.mergeSort_of_pairwise (l := ["", ".other"]) ?_
  decide

/-- From the first resource, a validated path through the relation without a name is not. -/
theorem validated_but_not_found :
    ∃ spec, Search.validate pair (linked "First" "" "Second") (body ".other") = .ok spec ∧
      compile pair (linked "First" "" "Second") spec = .error (.mismatch (.unknownInclude "other" "First")) := by
  refine ⟨{ includes := [{ relation := ".other" }] }, rfl, ?_⟩
  rw [compile, paths_of_unnamed]
  rfl

end Unnamed

end Plan

end ResourceApi
