import ResourceApi.Proofs.Resource.Built
import ResourceApi.Proofs.Text.Path
import ResourceApi.Resource.Paths

/-!
Where relation paths lead. The names of a path lead from a resource through its relations; the paths that a search may
use are those that lead somewhere, and walking along them finds the relation at their end.
-/

namespace ResourceApi

open Outcome

/-- Failures of parts that do not fit the resources. -/
def Failure.IsMismatch (failure : Failure) : Prop := ∃ cause, failure = .mismatch cause

theorem Fault.not_isMismatch (fault : Fault) : ¬(Failure.fault fault).IsMismatch := by
  rintro ⟨_, same⟩
  cases same

/-- No relation and no exposed field of the graph has a point in its name. -/
def Graph.Plain (graph : Graph) : Prop :=
  ∀ resource ∈ graph.resources,
    (∀ relation ∈ resource.relations, Path.IsPlain relation.name) ∧ ∀ field ∈ resource.fields, Path.IsPlain field

instance (graph : Graph) : Decidable graph.Plain := inferInstanceAs (Decidable (∀ resource ∈ graph.resources, _ ∧ _))

/-- No relation of the graph has a point in its name. -/
def Graph.PlainRelations (graph : Graph) : Prop :=
  ∀ resource ∈ graph.resources, ∀ relation ∈ resource.relations, Path.IsPlain relation.name

instance (graph : Graph) : Decidable graph.PlainRelations :=
  inferInstanceAs (Decidable (∀ resource ∈ graph.resources, ∀ relation ∈ resource.relations, _))

theorem Graph.Plain.relations {graph : Graph} (plain : graph.Plain) : graph.PlainRelations :=
  fun _ member => (plain _ member).1

/-- Names that lead from a resource to a relation, given with the resource that has it. -/
inductive Graph.Leads (graph : Graph) : Resource → List String → Resource → Relation → Prop where
  | one {resource : Resource} {relation : Relation} (member : relation ∈ resource.relations) :
      Leads graph resource [relation.name] resource relation
  | more {resource target owner : Resource} {relation last : Relation} {names : List String}
      (member : relation ∈ resource.relations) (nestable : relation.isNestable)
      (target_eq : graph.target relation = .ok target) (further : Leads graph target names owner last) :
      Leads graph resource (relation.name :: names) owner last

namespace Graph

variable {graph : Graph} {resource owner : Resource} {relation : Relation} {names : List String}

theorem mem_putPath {paths : List (String × Relation)} {path : String} {entry : String × Relation}
    (member : entry ∈ putPath paths path relation) : entry ∈ paths ∨ entry = (path, relation) := by
  unfold putPath at member
  split at member
  · obtain ⟨old, present, replaced⟩ := List.mem_map.1 member
    split at replaced
    · exact .inr replaced.symm
    · exact .inl (replaced ▸ present)
  · simpa using member

private theorem mem_putPaths {paths more : List (String × Relation)} {entry : String × Relation}
    (member : entry ∈ more.foldl (fun paths entry => putPath paths entry.1 entry.2) paths) :
    entry ∈ paths ∨ entry ∈ more := by
  induction more generalizing paths with
  | nil => exact .inl member
  | cons first rest ih =>
    rcases ih member with before | later
    · rcases mem_putPath before with old | rfl
      · exact .inl old
      · exact .inr List.mem_cons_self
    · exact .inr (List.mem_cons_of_mem _ later)

theorem Leads.ne_nil (leads : graph.Leads resource names owner relation) : names ≠ [] := by
  cases leads <;> simp

theorem leads_cons {name : String} :
    graph.Leads resource (name :: names) owner relation ↔ ∃ first ∈ resource.relations, first.name = name ∧
      (names = [] ∧ owner = resource ∧ relation = first ∨
        first.isNestable ∧ ∃ target, graph.target first = .ok target ∧ graph.Leads target names owner relation) := by
  constructor
  · rintro (declared | ⟨declared, nestable, leadsTo, further⟩)
    · exact ⟨_, declared, rfl, .inl ⟨rfl, rfl, rfl⟩⟩
    · exact ⟨_, declared, rfl, .inr ⟨nestable, _, leadsTo, further⟩⟩
  · rintro ⟨first, declared, rfl, ⟨rfl, rfl, rfl⟩ | ⟨nestable, target, leadsTo, further⟩⟩
    · exact .one declared
    · exact .more declared nestable leadsTo further

/-- The last one of the names is that of the relation that they lead to. -/
theorem Leads.getLast? (leads : graph.Leads resource names owner relation) : names.getLast? = some relation.name := by
  induction leads with
  | one => rfl
  | more _ _ _ _ ih => rw [List.getLast?_cons, ih, Option.getD_some]

/-- Names that lead on lead to a relation with one target, from which the last name goes on. -/
theorem Leads.init {name : String} (leads : graph.Leads resource (names ++ [name]) owner relation) :
    names = [] ∧ owner = resource ∨ ∃ before between, graph.Leads resource names before between ∧
      between.isNestable ∧ graph.target between = .ok owner := by
  induction names generalizing resource with
  | nil =>
    obtain ⟨first, -, -, ⟨-, rfl, -⟩ | ⟨-, _, -, further⟩⟩ := leads_cons.1 leads
    · exact .inl ⟨rfl, rfl⟩
    · exact absurd rfl further.ne_nil
  | cons start rest ih =>
    obtain ⟨first, declared, rfl, ⟨empty, -, -⟩ | ⟨nestable, target, leadsTo, further⟩⟩ := leads_cons.1 leads
    · simp at empty
    · rcases ih further with ⟨rfl, rfl⟩ | ⟨before, between, onward, single, reaches⟩
      · exact .inr ⟨resource, first, .one declared, nestable, leadsTo⟩
      · exact .inr ⟨before, between, .more declared nestable leadsTo onward, single, reaches⟩

/-- The first of the names lead somewhere themselves. -/
theorem Leads.take (leads : graph.Leads resource names owner relation) {target : Resource}
    (leadsTo : graph.target relation = .ok target) {count : Nat} (short : count < names.length) :
    ∃ before between reached, graph.Leads resource (names.take (count + 1)) before between ∧
      graph.target between = .ok reached := by
  induction leads generalizing count with
  | @one resource relation declared =>
    obtain rfl : count = 0 := by simpa using short
    exact ⟨resource, relation, target, .one declared, leadsTo⟩
  | @more resource middle owner relation last rest declared nestable onward further ih =>
    cases count with
    | zero => exact ⟨resource, relation, middle, .one declared, onward⟩
    | succ count =>
      obtain ⟨before, between, reached, leads, reaches⟩ := ih leadsTo (by simpa using short)
      exact ⟨before, between, reached, .more declared nestable onward leads, reaches⟩

/-- Paths with the relations that they lead to, all behind one beginning. -/
private def Listed (graph : Graph) (resource : Resource) (start : String) (depth : Nat)
    (paths : List (String × Relation)) : Prop :=
  ∀ entry ∈ paths, ∃ names owner, graph.Leads resource names owner entry.2 ∧
    entry.1 = start ++ Path.ofNames names ∧ names.length ≤ depth

/-- The paths of a search lead to the relations that they are listed with. -/
private theorem listed_relationPaths {depth : Nat} {start : String} {paths : List (String × Relation)}
    (computed : graph.relationPaths depth resource start = .ok paths) :
    Listed graph resource start depth paths := by
  induction depth generalizing resource start paths with
  | zero =>
    cases computed
    exact fun entry member => absurd member List.not_mem_nil
  | succ depth ih =>
    rw [relationPaths] at computed
    refine @foldlM_invariant _ _ _ _ _ _ computed (Listed graph resource start (depth + 1)) ?_ ?_
    · exact fun entry member => absurd member List.not_mem_nil
    · intro relation declared before after known found
      have put : Listed graph resource start (depth + 1) (putPath before (start ++ relation.name) relation) := by
        intro entry member
        rcases mem_putPath member with old | rfl
        · exact known entry old
        · exact ⟨[relation.name], resource, .one declared, by rw [Path.ofNames_singleton], by simp⟩
      dsimp only at found
      split at found
      · next further =>
        simp only [Bool.and_eq_true, decide_eq_true_eq] at further
        simp only [bind_eq_ok, pure_eq_ok] at found
        obtain ⟨target, leads, deeper, inner, rfl⟩ := found
        intro entry member
        rcases mem_putPaths member with here | there
        · exact put entry here
        · obtain ⟨names, owner, onward, path, short⟩ := ih inner entry there
          refine ⟨relation.name :: names, owner, .more declared further.2 leads onward, ?_, by simp [short]⟩
          rw [path, ← List.singleton_append, Path.ofNames_append (List.cons_ne_nil _ _) onward.ne_nil,
            Path.ofNames_singleton]
          simp [String.append_assoc]
      · obtain rfl := pure_eq_ok.1 found
        exact put

theorem leads_of_mem_searchPaths {paths : List (String × Relation)} (computed : graph.searchPaths resource = .ok paths)
    {entry : String × Relation} (member : entry ∈ paths) :
    ∃ names owner, graph.Leads resource names owner entry.2 ∧ entry.1 = Path.ofNames names ∧ names.length ≤ 2 := by
  obtain ⟨names, owner, leads, path, short⟩ := listed_relationPaths computed entry member
  exact ⟨names, owner, leads, by simpa using path, short⟩

/-! ## Names that lead somewhere -/

theorem target_never {p : Failure → Prop} (faults : ∀ fault, ¬p (.fault fault)) (relation : Relation) :
    Never p (graph.target relation) := by
  unfold Graph.target
  split
  · exact Never.error (faults _)
  · split
    · exact Never.ok _
    · exact Never.error (faults _)

theorem behind_never (resource : Resource) (relation : Relation) :
    Never Failure.IsMismatch (graph.behind resource relation) := by
  unfold behind
  split
  · exact target_never Fault.not_isMismatch relation
  · exact Never.ok _

section Leading

variable (sound : graph.Sound) (plain : graph.PlainRelations) (member : resource ∈ graph.resources)
include member

include plain in
theorem Leads.isPlain (leads : graph.Leads resource names owner relation) : ∀ name ∈ names, Path.IsPlain name := by
  induction leads with
  | one declared =>
    intro name here
    obtain rfl := List.mem_singleton.1 here
    exact plain _ member _ declared
  | more declared _ leadsTo _ ih =>
    intro name here
    rcases List.mem_cons.1 here with rfl | later
    · exact plain _ member _ declared
    · exact ih (mem_of_target leadsTo) name later

include plain in
/-- The names of a path that leads somewhere are those that lead there. -/
theorem Leads.names_ofNames (leads : graph.Leads resource names owner relation) :
    Path.names (Path.ofNames names) = names :=
  Path.names_ofNames leads.ne_nil (leads.isPlain plain member)

theorem Leads.mem_owner (leads : graph.Leads resource names owner relation) :
    owner ∈ graph.resources ∧ relation ∈ owner.relations := by
  induction leads with
  | one declared => exact ⟨member, declared⟩
  | more _ _ leadsTo _ ih => exact ih (mem_of_target leadsTo)

include sound in
/-- Names lead to one relation only. -/
theorem Leads.unique {other : Resource} {another : Relation} (leads : graph.Leads resource names owner relation)
    (leadsToo : graph.Leads resource names other another) : owner = other ∧ relation = another := by
  induction names generalizing resource with
  | nil => exact absurd rfl leads.ne_nil
  | cons name rest ih =>
    obtain ⟨first, declared, named, onward⟩ := leads_cons.1 leads
    obtain ⟨second, declaredToo, namedToo, onwardToo⟩ := leads_cons.1 leadsToo
    have found := (sound _ member).relation?_eq declared
    rw [named, ← namedToo, (sound _ member).relation?_eq declaredToo] at found
    obtain rfl := Option.some.inj found
    rcases onward with ⟨empty, rfl, rfl⟩ | ⟨-, target, leadsTo, further⟩
    · rcases onwardToo with ⟨-, rfl, rfl⟩ | ⟨-, _, _, furtherToo⟩
      · exact ⟨rfl, rfl⟩
      · exact absurd empty furtherToo.ne_nil
    · rcases onwardToo with ⟨empty, -, -⟩ | ⟨-, target, leadsToToo, furtherToo⟩
      · exact absurd empty further.ne_nil
      · obtain rfl := Except.ok.inj (leadsTo.symm.trans leadsToToo)
        exact ih (mem_of_target leadsTo) further furtherToo

include sound in
/-- A walk along names finds the relation that they lead to, and all relations before it have one target. -/
theorem Leads.walked (leads : graph.Leads resource names owner relation) :
    Never Failure.IsMismatch (graph.walk resource names) ∧ ∀ hops, graph.walk resource names = .ok hops →
      ∃ before, hops = before ++ [(owner, relation)] ∧ before.all (·.2.isNestable) := by
  induction leads with
  | @one resource relation declared =>
    have found := (sound _ member).relation?_eq declared
    simp only [walk, found]
    refine ⟨(behind_never resource relation).bind fun _ _ => (Never.ok _).bind fun _ _ => Never.pure _, ?_⟩
    simp only [bind_eq_ok, pure_eq_ok, Except.ok.injEq, exists_eq_left']
    rintro hops ⟨next, -, rfl⟩
    exact ⟨[], rfl, rfl⟩
  | @more resource target owner relation last names declared nestable leadsTo further ih =>
    have found := (sound _ member).relation?_eq declared
    obtain ⟨never, ends⟩ := ih (mem_of_target leadsTo)
    have goesOn : graph.behind resource relation = .ok target := by rw [behind, if_pos nestable, leadsTo]
    simp only [walk, found, goesOn]
    refine ⟨(Never.ok target).bind fun _ same => ?_, ?_⟩
    · cases same
      exact never.bind fun _ _ => Never.pure _
    · simp only [bind_eq_ok, pure_eq_ok, Except.ok.injEq, exists_eq_left']
      rintro hops ⟨rest, walked, rfl⟩
      obtain ⟨before, rfl, single⟩ := ends rest walked
      exact ⟨(resource, relation) :: before, rfl, by simp [nestable, single]⟩

end Leading

/-! ## Walks -/

theorem length_of_walk {names : List String}
    {hops : List (Resource × Relation)} (walked : graph.walk resource names = .ok hops) :
    hops.length = names.length := by
  induction names generalizing resource hops with
  | nil =>
    cases walked
    rfl
  | cons name rest ih =>
    rw [walk] at walked
    split at walked
    · cases walked
    · simp only [bind_eq_ok, pure_eq_ok] at walked
      obtain ⟨next, -, further, after, rfl⟩ := walked
      simp [ih after]

/-- A path that is listed leads somewhere. -/
theorem exists_of_resolve? {path : String} {paths : List (String × Relation)}
    (computed : graph.searchPaths resource = .ok paths) (listed : path ∈ paths.map (·.1))
    {found : Option (Relation × Resource)} (resolved : graph.resolve? resource (.text path) = .ok found) :
    ∃ hops hop target, graph.hops resource path = .ok hops ∧ hops.getLast? = some hop ∧
      graph.target hop.2 = .ok target ∧ found = some (hop.2, target) := by
  obtain ⟨entry, member, rfl⟩ := List.mem_map.1 listed
  have present : paths.any (·.1 == entry.1) := List.any_eq_true.2 ⟨entry, member, by simp⟩
  simp only [resolve?, computed, bind_eq_ok, Except.ok.injEq, exists_eq_left', present, if_true] at resolved
  obtain ⟨hops, walked, after⟩ := resolved
  have nonempty : hops ≠ [] := by
    intro empty
    have same := length_of_walk walked
    rw [empty, eq_comm, List.length_nil, List.length_eq_zero_iff] at same
    exact Path.names_ne_nil _ same
  cases last : hops.getLast? with
  | none => exact absurd (List.getLast?_eq_none_iff.1 last) nonempty
  | some hop =>
    simp only [last, bind_eq_ok, pure_eq_ok] at after
    obtain ⟨target, leads, rfl⟩ := after
    exact ⟨hops, hop, target, walked, last, leads, rfl⟩

theorem resolve?_eq {path : String} {paths : List (String × Relation)}
    (computed : graph.searchPaths resource = .ok paths) (listed : path ∈ paths.map (·.1))
    {hops : List (Resource × Relation)} (walked : graph.hops resource path = .ok hops) {hop : Resource × Relation}
    (last : hops.getLast? = some hop) {target : Resource} (leadsTo : graph.target hop.2 = .ok target) :
    graph.resolve? resource (.text path) = .ok (some (hop.2, target)) := by
  obtain ⟨entry, member, rfl⟩ := List.mem_map.1 listed
  have present : paths.any (·.1 == entry.1) := List.any_eq_true.2 ⟨entry, member, by simp⟩
  simp only [resolve?, bind_eq_ok, computed, Except.ok.injEq, exists_eq_left', present, if_true, walked, last, leadsTo,
    pure_eq_ok]

end Graph

end ResourceApi
