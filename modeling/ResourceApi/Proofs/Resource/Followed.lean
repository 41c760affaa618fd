import ResourceApi.Proofs.Resource.Complete
import ResourceApi.Proofs.Told

/-!
Lookups in a complete graph. Walks along relations, the paths and the fields that a search may name are all computed from
the relations of resources; in a complete graph each of these leads somewhere, so that a lookup fails for a name that
the request has wrong, and for nothing else.
-/

namespace ResourceApi

open Outcome

namespace Graph

/-- Hops that go by relations of resources of the graph. -/
def Within (graph : Graph) (hops : List (Resource × Relation)) : Prop :=
  ∀ hop ∈ hops, hop.1 ∈ graph.resources ∧ hop.2 ∈ hop.1.relations

variable {schema : Schema} {graph : Graph} (complete : graph.Complete schema) {resource : Resource}
include complete

theorem Complete.target {relation : Relation} (member : resource ∈ graph.resources)
    (declared : relation ∈ resource.relations) : Delivers (· ∈ graph.resources) (graph.target relation) := by
  obtain ⟨target, inside, found⟩ := ((complete resource member).relations relation declared).target_eq_ok
  exact Delivers.of_eq_ok found inside

theorem Complete.behind {relation : Relation} (member : resource ∈ graph.resources)
    (declared : relation ∈ resource.relations) : Delivers (· ∈ graph.resources) (graph.behind resource relation) := by
  unfold Graph.behind
  split
  · exact complete.target member declared
  · exact member

theorem Complete.walk (member : resource ∈ graph.resources) (names : List String) :
    Delivers graph.Within (graph.walk resource names) := by
  induction names generalizing resource with
  | nil => exact List.forall_mem_nil _
  | cons name rest ih =>
    rw [Graph.walk]
    split
    · rfl
    · next relation found =>
      have declared := (Resource.mem_of_relation? found).1
      refine (complete.behind member declared).bind fun next _ inside => (ih inside).bind fun hops _ within => ?_
      exact List.forall_mem_cons.2 ⟨⟨member, declared⟩, within⟩

theorem Complete.hops (member : resource ∈ graph.resources) (path : String) :
    Delivers graph.Within (graph.hops resource path) := complete.walk member (Path.names path)

theorem Complete.relationPaths (member : resource ∈ graph.resources) (depth : Nat) (start : String) :
    Tells (graph.relationPaths depth resource start) := by
  induction depth generalizing resource start with
  | zero => trivial
  | succ depth ih =>
    rw [Graph.relationPaths]
    refine Delivers.foldlM trivial fun relation declared paths _ => ?_
    dsimp only
    split
    · refine (complete.target member declared).bind fun target _ inside => ?_
      exact (ih inside _).bind fun _ _ _ => trivial
    · trivial

theorem Complete.searchPaths (member : resource ∈ graph.resources) : Tells (graph.searchPaths resource) :=
  complete.relationPaths member pathDepth ""

theorem Complete.filterFields (member : resource ∈ graph.resources) : Tells (graph.filterFields resource) := by
  refine (Delivers.each fun relation listed => ?_).bind fun _ _ _ => trivial
  exact (complete.target member (List.mem_of_mem_filter listed)).bind fun _ _ _ => trivial

theorem Complete.resolve? (member : resource ∈ graph.resources) (path : Json) :
    Delivers (fun found => ∀ entry, found = some entry → entry.2 ∈ graph.resources) (graph.resolve? resource path) := by
  have nothing : ∀ entry : Relation × Resource, none = some entry → entry.2 ∈ graph.resources :=
    fun _ absent => absurd absent (Option.some_ne_none _).symm
  cases path with
  | text path =>
    refine (complete.searchPaths member).bind fun paths _ _ => ?_
    split
    · refine (complete.hops member path).bind fun hops _ within => ?_
      split
      · next owner relation last =>
        obtain ⟨inside, declared⟩ := within _ (List.mem_of_getLast? last)
        refine (complete.target inside declared).bind fun target _ found => ?_
        rintro _ ⟨⟩
        exact found
      · exact nothing
    · exact nothing
  | _ => exact nothing

theorem Complete.aggregatePaths (member : resource ∈ graph.resources) : Tells (graph.aggregatePaths resource) := by
  refine (complete.searchPaths member).bind fun paths _ _ => (Delivers.filterM fun entry _ => ?_).bind fun _ _ _ => trivial
  exact (complete.hops member entry.1).bind fun _ _ _ => trivial

end Graph

end ResourceApi
