import ResourceApi.Proofs.Relation.Linked
import ResourceApi.Proofs.Resource.Paths
import ResourceApi.Proofs.Search.Steps
import ResourceApi.Proofs.Search.Validated

/-!
Parts of a search that fit are found. The compiler looks fields, scopes and relation paths up on its own; in a graph that
was built, it finds every one that the rules let through.
-/

namespace ResourceApi

open Outcome

variable {graph : Graph} {resource : Resource}

private abbrev Found {α : Type} (result : Except Failure α) : Prop := Never Failure.IsMismatch result

/-! ## Relations -/

namespace Related

variable {relation : Relation} {target : Resource} {slot : Nat} {related : Related}

theorem typed_never (table : Table) (slot : Nat) (column : String) (morphAlias : Json) :
    Never Failure.IsMismatch (typed table slot column morphAlias) :=
  Cond.ofComparison_never Fault.not_isMismatch _ _ _

private theorem ofChild_never (resource : Resource) (relation : Relation) (target : Resource) (link : ChildLink)
    (slot : Nat) : Never Failure.IsMismatch (ofChild resource relation target link slot) := by
  have ofType_never (slot : Nat) : Never Failure.IsMismatch (ofType resource target link slot) :=
    Never.mapM fun _ _ => typed_never _ _ _ _
  refine Never.bind ?_ fun _ _ => (ofType_never slot).bind fun _ _ => Never.pure _
  unfold picked
  split
  · exact Never.ok _
  · exact (ofType_never 0).bind fun _ _ => Never.pure _

theorem ofTarget_never (resource : Resource) (relation : Relation) (target : Resource) (slot : Nat) :
    Never Failure.IsMismatch (ofTarget resource relation target slot) := by
  unfold ofTarget
  split
  · exact ofChild_never resource relation target _ slot
  · exact Never.ok _
  · exact Never.bind (Never.mapM fun _ _ => typed_never _ _ _ _) fun _ _ => Never.pure _
  · exact Never.ok _

theorem single_eq (nestable : relation.isNestable) (slot : Nat) :
    single graph resource relation slot =
      graph.target relation >>= fun target => ofTarget resource relation target slot := by
  have one : relation.kind ≠ .morphTo := by simpa [Relation.isNestable, Kind.isNestable] using nestable
  simp only [single, if_neg one]

theorem single_never (nestable : relation.isNestable) (slot : Nat) :
    Never Failure.IsMismatch (single graph resource relation slot) := by
  rw [single_eq nestable]
  exact (Graph.target_never Fault.not_isMismatch relation).bind fun _ _ => ofTarget_never _ _ _ _

/-- The related rows of a relation are rows of the resource that it leads to. -/
theorem target_of_single (built : single graph resource relation slot = .ok related) :
    graph.target relation = .ok related.target := by
  unfold single at built
  split at built
  · cases built
  · obtain ⟨target, leadsTo, made⟩ := bind_eq_ok.1 built
    rw [leadsTo, (ofTarget_eq_ok made).2.1]

theorem correlated_never (parent : Table) (frame slot : Nat) :
    Never Failure.IsMismatch (related.correlated parent frame slot) :=
  Never.bind (Never.mapM fun _ _ => Cond.ofComparison_never Fault.not_isMismatch _ _ _) fun _ _ => Never.pure _

theorem each_never (resource : Resource) (relation : Relation) :
    Never Failure.IsMismatch (each graph resource relation) := by
  unfold each
  split
  · refine Never.mapM fun name _ => ?_
    split
    · exact ofTarget_never _ _ _ _
    · exact Never.error (Fault.not_isMismatch _)
  · refine (Graph.target_never Fault.not_isMismatch relation).bind fun _ _ => ?_
    exact (ofTarget_never _ _ _ _).bind fun _ _ => Never.pure _

end Related

namespace RelatedPath

variable {hops : List (Resource × Relation)}

private theorem extend_never (nestable : hops.all (·.2.isNestable)) (path : RelatedPath) (width : Nat) :
    Never Failure.IsMismatch (extend graph path width hops) := by
  induction hops generalizing path width with
  | nil => exact Never.ok path
  | cons hop rest ih =>
    obtain ⟨here, later⟩ := Bool.and_eq_true_iff.1 nestable
    exact (Related.single_never here width).bind fun _ _ => ih later _ _

theorem ofHops_never (nestable : hops.all (·.2.isNestable)) (parent : Table) (slot : Nat) :
    Never Failure.IsMismatch (ofHops graph parent slot hops) := by
  cases hops with
  | nil => exact Never.error (Fault.not_isMismatch _)
  | cons hop rest =>
    obtain ⟨here, later⟩ := Bool.and_eq_true_iff.1 nestable
    refine (Related.single_never here 0).bind fun first _ => ?_
    exact (Related.correlated_never parent 1 slot).bind fun _ _ => extend_never later _ _

private theorem target_of_extend {path joined : RelatedPath} {width : Nat}
    (extended : extend graph path width hops = .ok joined) :
    hops = [] ∧ joined.last = path.last ∨
      ∃ hop, hops.getLast? = some hop ∧ graph.target hop.2 = .ok joined.last.target := by
  induction hops generalizing path width with
  | nil =>
    cases extended
    exact .inl ⟨rfl, rfl⟩
  | cons hop rest ih =>
    obtain ⟨next, made, further⟩ := bind_eq_ok.1 extended
    rcases ih further with ⟨rfl, same⟩ | ⟨last, ends, leadsTo⟩
    · exact .inr ⟨hop, rfl, same ▸ Related.target_of_single made⟩
    · exact .inr ⟨last, by rw [List.getLast?_cons, ends, Option.getD_some], leadsTo⟩

/-- The rows at the end of some hops are rows of the resource that the last hop leads to. -/
theorem target_of_ofHops {parent : Table} {slot : Nat} {path : RelatedPath}
    (joined : ofHops graph parent slot hops = .ok path) :
    ∃ hop, hops.getLast? = some hop ∧ graph.target hop.2 = .ok path.last.target := by
  cases hops with
  | nil => cases joined
  | cons hop rest =>
    obtain ⟨first, made, extended⟩ := bind_eq_ok.1 joined
    obtain ⟨conditions, -, further⟩ := bind_eq_ok.1 extended
    rcases target_of_extend further with ⟨rfl, same⟩ | ⟨last, ends, leadsTo⟩
    · exact ⟨hop, rfl, same ▸ Related.target_of_single made⟩
    · exact ⟨last, by rw [List.getLast?_cons, ends, Option.getD_some], leadsTo⟩

end RelatedPath

namespace Plan

/-! ## Own columns and scopes -/

theorem ownColumn_eq {name : String} (present : resource.table.hasColumn name) (slot : Nat) :
    ownColumn resource slot name = .ok (resource.table.ref 0 slot name) := by
  obtain ⟨column, found⟩ := Option.isSome_iff_exists.1 present
  simp [ownColumn, Table.ref, found]

theorem ownColumn_never {name : String} (present : resource.table.hasColumn name) (slot : Nat) :
    Never Failure.IsMismatch (ownColumn resource slot name) :=
  Never.of_eq_ok (ownColumn_eq present slot)

theorem keyColumn_never (resource : Resource) (slot : Nat) : Never Failure.IsMismatch (keyColumn resource slot) := by
  unfold keyColumn
  split
  · exact Never.ok _
  · exact Never.error (Fault.not_isMismatch _)

private theorem demandColumn_never (table : Table) (slot : Nat) (arguments : List Json) (column : ScopeColumn) :
    Never Failure.IsMismatch (demandColumn table slot arguments column) := by
  cases column with
  | named name =>
    simp only [demandColumn]
    split
    · exact Never.ok _
    · exact Never.error (Fault.not_isMismatch _)
  | parameter position =>
    simp only [demandColumn, givenColumn]
    split
    · exact Never.ok _
    · split <;> exact Never.error (Fault.not_isMismatch _)

private theorem demandConditions_never (table : Table) (slot : Nat) (arguments : List Json) (demand : ScopeDemand) :
    Never Failure.IsMismatch (demandConditions table slot arguments demand) := by
  unfold demandConditions
  dsimp only
  split
  · exact Never.pure _
  · refine (demandColumn_never _ _ _ _).bind fun _ _ => ?_
    exact (Cond.ofComparison_never Fault.not_isMismatch _ _ _).bind fun _ _ => Never.pure _

theorem scopeConditions_never {calls : List ScopeCall} (known : ∀ call ∈ calls, (resource.scope? call.name).isSome)
    (slot : Nat) : Never Failure.IsMismatch (scopeConditions resource slot calls) := by
  refine Never.bind (Never.mapM fun call member => ?_) fun _ _ => Never.pure _
  obtain ⟨scope, found⟩ := Option.isSome_iff_exists.1 (known call member)
  simp only [found]
  split
  · exact Never.error (Fault.not_isMismatch _)
  · exact Never.bind (Never.mapM fun _ _ => demandConditions_never _ _ _ _) fun _ _ => Never.pure _

/-! ## Filters -/

private theorem filterConditions_never_of_each {filters : List Filter} {slot : Nat}
    (each : ∀ filter ∈ filters, Never Failure.IsMismatch (filterCondition graph resource slot filter)) :
    Never Failure.IsMismatch (filterConditions graph resource slot filters) := by
  induction filters with
  | nil => exact Never.ok []
  | cons filter rest ih =>
    obtain ⟨here, later⟩ := List.forall_mem_cons.1 each
    rw [filterConditions]
    refine here.bind fun condition _ => ?_
    split
    · exact (ih later).bind fun _ _ => Never.pure _
    · exact ih later

/-- The relations of a path that can be computed over are found, and all have one target. -/
theorem hops_of_aggregatePaths {paths : List String} (computed : graph.aggregatePaths resource = .ok paths)
    {path : String} (listed : path ∈ paths) :
    ∃ all entry hops, graph.searchPaths resource = .ok all ∧ entry ∈ all ∧ entry.1 = path ∧
      graph.hops resource path = .ok hops ∧ hops.all (·.2.isNestable) := by
  simp only [Graph.aggregatePaths, bind_eq_ok, pure_eq_ok] at computed
  obtain ⟨all, searched, nestable, kept, rfl⟩ := computed
  obtain ⟨entry, inside, rfl⟩ := List.mem_map.1 listed
  obtain ⟨present, asked⟩ := (filterM_mem kept entry).1 inside
  simp only [bind_eq_ok, pure_eq_ok] at asked
  obtain ⟨hops, walked, single⟩ := asked
  exact ⟨all, entry, hops, searched, present, rfl, walked, single⟩

theorem argument_never {related : Related} {measure : Measure} {field : Option String}
    (exposed : measure ∈ Measure.ofField → ∃ name ∈ related.target.fields, field = some name)
    (sound : related.target.Sound graph) : Never Failure.IsMismatch (argument related measure field) := by
  cases measure with
  | count => exact Never.ok none
  | presence => exact Never.ok _
  | min | max | avg | sum =>
    obtain ⟨name, listed, rfl⟩ := exposed (by decide)
    exact (ownColumn_never (sound.fields name listed) _).map

section Fitting

variable (sound : graph.Sound) (plain : graph.Plain) (member : resource ∈ graph.resources)
include sound plain

omit sound in
include member in
/-- A field that filters may speak of is an own one, or one of the resource behind a relation. -/
theorem filterFields_cases {fields : List String} (listed : graph.filterFields resource = .ok fields) {name : String}
    (named : name ∈ fields) :
    (Path.IsPlain name ∧ name ∈ resource.fields) ∨
      ∃ relation ∈ resource.relations, ∃ target field, relation.isNestable ∧ graph.target relation = .ok target ∧
        field ∈ target.fields ∧ name = relation.name ++ "." ++ field := by
  simp only [Graph.filterFields, bind_eq_ok, pure_eq_ok] at listed
  obtain ⟨related, found, rfl⟩ := listed
  rcases List.mem_append.1 named with own | inner
  · exact .inl ⟨(plain _ member).2 name own, own⟩
  · obtain ⟨names, given, inside⟩ := List.mem_flatten.1 inner
    obtain ⟨relation, declared, made⟩ := mapM_mem found given
    obtain ⟨known, nestable⟩ := List.mem_filter.1 declared
    simp only [bind_eq_ok, pure_eq_ok] at made
    obtain ⟨target, leadsTo, rfl⟩ := made
    obtain ⟨field, exposed, rfl⟩ := List.mem_map.1 inside
    exact .inr ⟨relation, known, target, field, nestable, leadsTo, exposed, rfl⟩

include member in
theorem leafCondition_never {fields : List String} (listed : graph.filterFields resource = .ok fields) {name : String}
    (named : name ∈ fields) {operator : String} (known : (Comparison.ofSymbol? operator).isSome) (slot : Nat)
    (value : Json) : Never Failure.IsMismatch (leafCondition graph resource slot (some name) operator value) := by
  obtain ⟨comparison, found⟩ := Option.isSome_iff_exists.1 known
  simp only [leafCondition, found]
  rcases filterFields_cases plain member listed named with ⟨alone, exposed⟩ |
    ⟨relation, declared, target, field, nestable, leadsTo, exposed, rfl⟩
  · rw [if_pos (Path.points_eq_zero.2 alone)]
    exact (ownColumn_never ((sound _ member).fields name exposed) slot).bind fun _ _ =>
      Cond.ofComparison_never Fault.not_isMismatch _ _ _
  · have targetMember := Graph.mem_of_target leadsTo
    have pointed : Path.points (relation.name ++ "." ++ field) ≠ 0 := by
      rw [Path.points_append]
      omega
    rw [if_neg pointed, Path.splitLast_append _ ((plain _ targetMember).2 field exposed)]
    have leads : graph.Leads resource [relation.name] resource relation := .one declared
    have names : Path.names relation.name = [relation.name] :=
      Path.names_of_isPlain ((plain _ member).1 relation declared)
    obtain ⟨never, ends⟩ := leads.walked sound member
    simp only [Graph.hops, names]
    refine never.bind fun hops walked => ?_
    obtain ⟨before, rfl, single⟩ := ends hops walked
    have allNestable : (before ++ [(resource, relation)]).all (·.2.isNestable) := by simp [single, nestable]
    refine (RelatedPath.ofHops_never allNestable _ slot).bind fun path joined => ?_
    obtain ⟨hop, last, leadsToo⟩ := RelatedPath.target_of_ofHops joined
    rw [List.getLast?_concat] at last
    obtain rfl := Option.some.inj last
    obtain rfl := Except.ok.inj (leadsTo.symm.trans leadsToo)
    refine (ownColumn_never ((sound _ targetMember).fields field exposed) _).bind fun _ _ => ?_
    exact (Cond.ofComparison_never Fault.not_isMismatch _ _ _).bind fun _ _ => Never.pure _

include member in
theorem filterCondition_never {fields : List String} (listed : graph.filterFields resource = .ok fields)
    {filter : Filter} (fits : filter.Fits fields) (slot : Nat) :
    Never Failure.IsMismatch (filterCondition graph resource slot filter) := by
  induction fits with
  | @leaf filter name alone named inside known _ _ =>
    obtain ⟨field, operator, value, joining, nested⟩ := filter
    cases alone
    cases named
    rw [filterCondition]
    exact (leafCondition_never sound plain member listed inside known slot value).bind fun _ _ => Never.pure _
  | @group filter filters grouped _ ih =>
    obtain ⟨field, operator, value, joining, nested⟩ := filter
    cases grouped
    rw [filterCondition]
    exact (filterConditions_never_of_each ih).bind fun _ _ => Never.pure _

include member in
theorem filtersCondition_never {filters : List Filter} (fit : graph.FiltersFit resource filters) (slot : Nat) :
    Never Failure.IsMismatch (filtersCondition graph resource slot filters) := by
  refine Never.bind (filterConditions_never_of_each fun filter inside => ?_) fun _ _ => Never.pure _
  obtain ⟨fields, listed, fits⟩ := fit filter inside
  exact filterCondition_never sound plain member listed fits slot

/-! ## Aggregates -/

theorem aggregate_never {item : Aggregate} (fits : item.Fits graph resource) (slot : Nat) :
    Never Failure.IsMismatch (aggregate graph resource slot item) := by
  obtain ⟨paths, computed, listed⟩ := fits.path
  obtain ⟨all, entry, hops, searched, present, path, walked, nestable⟩ := hops_of_aggregatePaths computed listed
  simp only [aggregate, walked]
  refine (Never.ok hops).bind fun _ same => ?_
  cases same
  refine (RelatedPath.ofHops_never nestable _ slot).bind fun joinedPath joined => ?_
  obtain ⟨hop, last, leadsTo⟩ := RelatedPath.target_of_ofHops joined
  have resolved : graph.resolve? resource (.text item.relation) = .ok (some (hop.2, joinedPath.last.target)) := by
    exact Graph.resolve?_eq searched (path ▸ List.mem_map_of_mem present) walked last leadsTo
  obtain ⟨fielded, filtered⟩ := fits.behind _ _ resolved
  have targetMember := Graph.mem_of_target leadsTo
  refine (filtersCondition_never sound plain targetMember filtered _).bind fun _ _ => ?_
  refine (argument_never (fun needed => ?_) (sound _ targetMember)).bind fun _ _ => Never.pure _
  exact fielded needed

end Fitting

/-! ## Columns and order -/

theorem mem_labelled {before names : List String} {entry : String × Option String}
    (member : entry ∈ labelled before names) : entry.1 ∈ names := by
  induction names generalizing before with
  | nil => cases member
  | cons name rest ih =>
    rcases List.mem_cons.1 member with rfl | later
    · exact List.mem_cons_self
    · exact List.mem_cons_of_mem _ (ih later)

theorem columns_never {selects required : List String} (sound : resource.Sound graph)
    (exposed : ∀ name ∈ selects, name ∈ resource.fields) (present : ∀ name ∈ required, resource.table.hasColumn name)
    (slot : Nat) : Never Failure.IsMismatch (columns resource slot selects required) := by
  refine Never.mapM fun entry member => (ownColumn_never ?_ slot).bind fun _ _ => Never.pure _
  rcases mem_foldl_new.1 (mem_labelled member) with asked | needed
  · unfold askedFields at asked
    split at asked
    · exact sound.fields _ asked
    · exact sound.fields _ (exposed _ asked)
  · exact present _ needed

theorem order_never {sorts : List SortKey} (sound : resource.Sound graph)
    (exposed : ∀ sort ∈ sorts, sort.field ∈ resource.fields) (slot : Nat) :
    Never Failure.IsMismatch (order resource slot sorts) := by
  unfold order
  refine Never.bind (Never.mapM fun entry member => ?_) fun _ _ => ?_
  · refine (ownColumn_never ?_ slot).bind fun _ _ => Never.pure _
    unfold askedOrder at member
    split at member
    · exact sound.ordered entry member
    · obtain ⟨sort, asked, rfl⟩ := List.mem_map.1 member
      exact sound.fields _ (exposed sort asked)
  · split
    · exact Never.pure _
    · exact (keyColumn_never resource slot).bind fun _ _ => Never.pure _


end Plan

end ResourceApi
