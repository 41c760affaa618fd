import ResourceApi.Proofs.Resource.Listed
import ResourceApi.Proofs.Search.Joined

/-!
Page sizes. The limits of a search and of its includes are those that the resources expose, so that, where none of these
is zero, a single related record that is there is shown.
-/

namespace ResourceApi

open Outcome Query

namespace Plan

variable {graph : Graph} {resource : Resource}

/-- The limit of an include is positive where exposed limits are, and where several targets can be led to if the limit is
exposed by one of them. -/
theorem limit_positive (sound : graph.Sound) (plain : graph.PlainRelations) (member : resource ∈ graph.resources)
    {includes : List Include} (fits : ∀ item ∈ includes, item.Fits graph resource)
    (positive : ∀ resource ∈ graph.resources, ∀ count, resource.Limits (some count) → 0 < count)
    (exposed : ∀ item ∈ includes, ∀ relation first,
      graph.resolve? resource (.text item.relation) = .ok (some (relation, first)) → ¬relation.isNestable →
        ∃ target ∈ graph.destinations relation, target.Limits item.limit)
    (relation : Relation) (path : String) {count : Int}
    (limit : (searchOf relation (requested includes path)).limit = some count) : 0 < count := by
  have asked : (requested includes path).limit = some count := by
    unfold searchOf at limit
    split at limit <;> exact limit
  unfold requested at asked
  cases found : includes.reverse.find? (·.relation == path) with
  | none =>
    rw [found] at asked
    cases asked
  | some item =>
    rw [found, Option.getD_some] at asked
    have listed : item ∈ includes := by simpa using List.mem_of_find?_eq_some found
    obtain ⟨_, _, between, target, -, leadsTo, -, -, resolved⟩ := (fits item listed).reaches sound plain member
    obtain ⟨_, _, resolvedToo, nested, -⟩ := (fits item listed).behind
    cases resolvedToo.symm.trans resolved
    by_cases nestable : between.isNestable
    · have limits := (nested nestable).2
      rw [asked] at limits
      exact positive target (Graph.mem_of_target leadsTo) count limits
    · obtain ⟨other, leadsToo, limits⟩ := exposed item listed between target resolved nestable
      rw [asked] at limits
      exact positive other (Graph.mem_of_mem_destinations leadsToo) count limits

section Executed

variable (sound : graph.Sound) (plain : graph.PlainRelations) (apart : graph.NamesApart) (member : resource ∈ graph.resources)
  {hops : List Hop} (laid : Laid graph resource hops) {spec : Specification} {plan : Plan}
  (compiled : Compiled graph resource spec plan)
include sound plain apart member laid compiled

/-- The rows of a result show the linked records that their includes let through. -/
theorem showsLinked_of_execute (walked : includeHops graph resource (includePaths spec.includes) = .ok hops)
    (paths : hops.map (·.step.path) = includePaths spec.includes)
    (positive : ∀ hop ∈ hops, ∀ count,
      (searchOf hop.step.relation (requested spec.includes hop.step.path)).limit = some count → 0 < count)
    {work after : Work} (typed : graph.Typed work.database.rows) {result : SearchResult}
    (ran : plan.execute.runOn work = (.ok result, after)) :
    ∀ row ∈ result.rows, ∀ depth, graph.ShowsLinked work.database.rows spec.includes depth [] resource row := by
  obtain ⟨hops, shown, aggregates, walkedToo, steps, columns, outputs⟩ := compiled.hops
  obtain rfl := Except.ok.inj (walked.symm.trans walkedToo)
  obtain ⟨rows, shelf, results, loaded, rfl⟩ := execute_eq_ok ran
  have keeps := keeps_of_results laid compiled columns outputs results
  have held := (held_of_loadAll sound apart laid positive typed (List.Subset.refl hops) steps work.start_database
    (distinct_book laid _) keeps loaded).rowsAt ""
  intro row inside depth
  obtain ⟨final, there, rfl⟩ := List.mem_map.1 inside
  obtain ⟨origin, listed, -, holds⟩ := forall₂_mem_right held there
  obtain ⟨frame, -, rfl⟩ := List.mem_map.1 listed
  exact showsLinked_of_held sound laid plain paths (List.nil_append hops).symm (.inl rfl) member
    (fun hop inside root => (laid.first hop inside root).2) (fun hop inside _ => inside) holds

end Executed

end Plan

namespace Search

/-- The limit of an accepted search is one that its resource exposes, and that of an include through a relation with one
target one that the target exposes. Where all exposed limits are positive, and the includes through other relations have
no limits but exposed ones, a single related record that is there and let through is shown. -/
theorem limits_of_validate {graph : Graph} {schema : Schema} {declarations : List ResourceDeclaration}
    (built : Graph.build schema declarations = .ok graph) {resource : Resource} (member : resource ∈ graph.resources)
    {body : Json} {spec : Specification} (accepted : validate graph resource body = .ok spec) :
    resource.Limits spec.limit ∧
      (∀ item ∈ spec.includes, ∃ relation target,
        graph.resolve? resource (.text item.relation) = .ok (some (relation, target)) ∧
          (relation.isNestable → target.Limits item.limit)) ∧
      (graph.PlainRelations → graph.NamesApart → "" ∉ Plan.includePaths spec.includes →
        (∀ resource ∈ graph.resources, ∀ count, resource.Limits (some count) → 0 < count) →
        (∀ item ∈ spec.includes, ∀ relation first,
          graph.resolve? resource (.text item.relation) = .ok (some (relation, first)) → ¬relation.isNestable →
            ∃ target ∈ graph.destinations relation, target.Limits item.limit) →
        ∀ database result, graph.Typed database.rows → Returned graph resource database spec result →
          ∀ row ∈ result.rows, ∀ depth, graph.ShowsLinked database.rows spec.includes depth [] resource row) := by
  have sound := Graph.sound_of_build built
  have fits := fits_of_validate accepted
  refine ⟨fits.limit, fun item listed => ?_, fun plain apart named positive exposed database result typed returned => ?_⟩
  · obtain ⟨relation, target, resolved, nested, -⟩ := (fits.includes item listed).behind
    exact ⟨relation, target, resolved, fun nestable => (nested nestable).2⟩
  · obtain ⟨plan, started, finished, made, executed, rfl⟩ := returned.planned
    have compiled := Plan.compiled_of_eq_ok made
    obtain ⟨hops, walked, paths, placed⟩ := Plan.includeHops_of_rooted sound plain member fits.includes
      (Plan.not_isRootless_of_named named)
    have laid := Plan.laid_of_placed sound plain member paths placed named
    exact Plan.showsLinked_of_execute sound plain apart member laid compiled walked paths
      (fun hop _ _ => Plan.limit_positive sound plain member fits.includes positive exposed _ _) typed executed

/-- The children of people and their parents are shown, with limits that people expose. -/
theorem Family.limits_of_family :
    person.Limits spec.limit ∧ ∀ row ∈ result.rows, ∀ depth,
      Family.graph.ShowsLinked Family.database.rows spec.includes depth [] person row := by
  have limits := limits_of_validate Family.graph_of_declaration List.mem_cons_self Family.accepted
  refine ⟨limits.1, limits.2.2 (by decide) Family.apart ?_ Family.positive ?_ _ _ Family.typed Family.returned⟩
  · rw [Family.paths]
    decide
  · intro item asked relation target resolved several
    obtain rfl := List.mem_singleton.1 asked
    have found : Family.graph.resolve? person (.text "children.parent") = .ok (some (Family.parent, person)) := rfl
    cases found.symm.trans resolved
    exact absurd rfl several

/-! ### A limit of zero -/

namespace Nothing

open Graph.Notes

def row (id : Int) (about aboutType : Cell) : Row :=
  [("id", .int id), ("above_id", .null), ("about_id", about), ("about_type", aboutType)]

/-- Two notes, the second about the first. -/
def database : Database := ⟨[⟨table, [row 1 .null .null, row 2 (.int 1) (.text "notes")]⟩]⟩

/-- A body that asks for none of the records that notes are about. -/
def body : Json := .object [("includes", .list [.object [("relation", .text "about"), ("limit", .int 0)]])]

def spec : Specification := { includes := [{ relation := "about", limit := some 0 }] }

def id : ColumnRef := ⟨0, 0, "id", .integer⟩

def plan : Plan where
  resource := note
  page := {
    outputs := [.column id none, .column ⟨0, 0, "about_id", .integer⟩ none, .column ⟨0, 0, "about_type", .string⟩ none]
    source := .table "notes"
    aliased := false
    conditions := []
    order := [(id, .desc)]
    page := some (50, 0) }
  counted := []
  key := id
  limit := 50
  pageNumber := 1
  offset := 0
  includes := [{
    path := "about", parentPath := none, name := "about", relation := about, limit := some 0
    queries := [{
      query := {
        outputs := [.column id none, .column id (some "__parent_key")]
        source := .table "notes"
        aliased := true
        conditions := [.amongParents id]
        order := [(id, .desc)]
        page := none }
      parentColumn := "about_id"
      parentType := some ("about_type", .text "notes") }] }]

def shown (id : Int) (about aboutType : Json) : Members :=
  [("id", .int id), ("about_id", about), ("about_type", aboutType), ("about", .null)]

def result : SearchResult where
  rows := [shown 2 (.int 1) (.text "notes"), shown 1 .null .null]
  total := 2
  limit := 50
  page := 1
  offset := 0

private theorem accepted : validate notes note body = .ok spec := rfl

private theorem plan_of_spec : Plan.compile notes note spec = .ok plan := by
  have paths : Plan.includePaths spec.includes = ["about"] := by
    refine List.mergeSort_of_pairwise (l := ["about"]) ?_
    decide
  rw [Plan.compile, paths]
  rfl

private theorem executed :
    (plan.execute.runOn { database, events := [.compiled "Note" 50 1 ["about"]] }).1 = .ok result := by cbv

/-- Of a relation that could lead to several resources a limit of zero is accepted, which none exposes, and null is shown for
a note that is about another one. -/
theorem null_for_linked :
    Graph.build schema [declaration] = .ok notes ∧ validate notes note body = .ok spec ∧
      (∀ resource ∈ notes.resources, ∀ count, resource.Limits (some count) → 0 < count) ∧
      (∀ item ∈ spec.includes, ∀ target ∈ notes.destinations about, ¬target.Limits item.limit) ∧
      Returned notes note database spec result ∧
      ∃ row ∈ result.rows, row.get? "about" = some .null ∧ ∃ record, Plan.Stands database.rows note about record row ∧
        notes.linked database.rows note note about.link { relation := "about" } record ≠ [] := by
  refine ⟨rfl, accepted, ?_, ?_, .of_execute rfl accepted plan_of_spec executed, _, List.mem_cons_self, rfl,
    row 2 (.int 1) (.text "notes"), ⟨?_, ?_⟩, ?_⟩
  · intro resource member count limits
    obtain rfl := List.mem_singleton.1 member
    have listed : count = 10 ∨ count = 25 ∨ count = 50 := by
      simpa [note, Json.isIn, Json.same, Json.sameScalar, Json.integer?] using limits count rfl
    omega
  · intro item asked target leadsTo limits
    obtain rfl := List.mem_singleton.1 asked
    obtain rfl := List.mem_singleton.1 leadsTo
    exact absurd (limits 0 rfl) (by decide)
  · exact List.mem_cons_of_mem _ List.mem_cons_self
  · change ∀ name ∈ ["about_id", "about_type"], _
    simp only [List.forall_mem_cons]
    exact ⟨⟨_, rfl, rfl⟩, ⟨_, rfl, rfl⟩, List.forall_mem_nil _⟩
  · refine List.ne_nil_of_mem (mem_firstInOrder.2 (List.mem_filter.2 ⟨List.mem_map_of_mem List.mem_cons_self, ?_⟩))
    decide

end Nothing

end Search

end ResourceApi
