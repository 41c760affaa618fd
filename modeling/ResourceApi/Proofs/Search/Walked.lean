import ResourceApi.Proofs.Resource.Followed
import ResourceApi.Proofs.Search.Returned
import ResourceApi.Proofs.Search.Steps

/-!
Steps along the paths to load. Each goes on from one that stands before it, so that in a complete graph a step fails only
for a name that is none of a relation.
-/

namespace ResourceApi.Plan

open Outcome

variable {schema : Schema} {graph : Graph} {resource : Resource}

/-- A step that goes by a relation of a resource of the graph, the one whose records the steps before it load. -/
structure Owned (graph : Graph) (resource : Resource) (hops : List Hop) (hop : Hop) : Prop where
  member : hop.owner ∈ graph.resources
  target : hop.target ∈ graph.resources
  declared : hop.step.relation ∈ hop.owner.relations
  named : hop.step.relation.name = hop.step.name
  rooted : hop.step.parentPath ≠ some ""
  follows : ownerAt resource hops (start hop.step) = .ok hop.owner

/-- The steps for some paths, in their order. -/
structure Walked (graph : Graph) (resource : Resource) (paths : List String) (hops : List Hop) : Prop where
  paths : hops.map (·.step.path) = paths
  owned : ∀ hop ∈ hops, Owned graph resource hops hop

theorem ownerAt_append {hops : List Hop} {path : String} {owner : Resource} (found : ownerAt resource hops path = .ok owner)
    (more : List Hop) : ownerAt resource (hops ++ more) path = .ok owner := by
  unfold ownerAt at found ⊢
  split
  · next empty => rwa [if_pos empty] at found
  · next nonempty =>
    rw [if_neg nonempty] at found
    rw [List.find?_append]
    split at found
    · next hop there =>
      rw [there]
      exact found
    · cases found

/-- The path that a path to load goes on from stands before it. -/
theorem mem_before_includePaths {includes : List Include} {before after : List String} {path : String}
    (split : includePaths includes = before ++ path :: after) :
    (Path.splitLast path).1 = "" ∨ (Path.splitLast path).1 ∈ before := by
  rcases Path.isPlain_or_append path with plain | ⟨parent, name, rfl, plain⟩
  · exact .inl (congrArg Prod.fst (Path.splitLast_of_isPlain plain))
  · rw [Path.splitLast_append parent plain]
    have listed := mem_includePaths_of_append plain (split ▸ List.mem_append_right before List.mem_cons_self)
    have sorted := pairwise_includePaths includes
    rw [split] at listed sorted
    have longer : Path.points parent < Path.points (parent ++ "." ++ name) := by
      rw [Path.points_append]
      omega
    rcases List.mem_append.1 listed with earlier | later
    · exact .inr earlier
    · have ordered := (List.pairwise_append.1 sorted).2.1
      rcases List.mem_cons.1 later with same | further
      · rw [← same] at longer
        omega
      · have := List.rel_of_pairwise_cons ordered further
        omega

section Stepping

variable (complete : graph.Complete schema) (member : resource ∈ graph.resources)
include complete member

omit complete in
private theorem ownerAt_delivers {hops : List Hop} (owned : ∀ hop ∈ hops, Owned graph resource hops hop) {path : String}
    (there : path = "" ∨ path ∈ hops.map (·.step.path)) : Delivers (· ∈ graph.resources) (ownerAt resource hops path) := by
  unfold ownerAt
  split
  · exact member
  · next nonempty =>
    have listed : path ∈ hops.map (·.step.path) := there.resolve_left fun empty => nonempty (by simp [empty])
    obtain ⟨hop, inside, same⟩ := List.mem_map.1 listed
    split
    · next other found => exact (owned other (List.mem_of_find?_eq_some found)).target
    · next absent => exact absurd (List.find?_eq_none.1 absent hop inside) (by simp [same])

private theorem includeHop_delivers {hops : List Hop} (owned : ∀ hop ∈ hops, Owned graph resource hops hop) {path : String}
    (there : (Path.splitLast path).1 = "" ∨ (Path.splitLast path).1 ∈ hops.map (·.step.path)) :
    Delivers (fun hop => hop.step.path = path ∧ Owned graph resource hops hop) (includeHop graph resource hops path) := by
  have stepped : Delivers (fun hop => hop.owner ∈ graph.resources ∧ hop.target ∈ graph.resources ∧
      hop.step.relation ∈ hop.owner.relations ∧ hop.step.relation.name = hop.step.name ∧ hop.step.parentPath ≠ some "" ∧
      ownerAt resource hops (Path.splitLast path).1 = .ok hop.owner) (includeHop graph resource hops path) := by
    unfold includeHop
    refine (ownerAt_delivers member owned there).bind fun owner found inside => ?_
    split
    · rfl
    · next relation known =>
      obtain ⟨declared, named⟩ := Resource.mem_of_relation? known
      refine (complete.target inside declared).bind fun target _ targetInside => ?_
      refine ⟨inside, targetInside, declared, named, fun parent => ?_, found⟩
      simp at parent
  refine stepped.mono fun hop made all => ?_
  obtain ⟨inside, targetInside, declared, named, rooted, follows⟩ := all
  obtain ⟨samePath, cut⟩ := start_of_includeHop made
  exact ⟨samePath, inside, targetInside, declared, named, rooted, by rwa [cut] at follows⟩

/-- The steps of the paths to load are found, unless a name on them is none of a relation. -/
theorem includeHops_delivers (includes : List Include) :
    Delivers (Walked graph resource (includePaths includes)) (includeHops graph resource (includePaths includes)) := by
  have loop (before after : List String) (whole : includePaths includes = before ++ after) (hops : List Hop)
      (walked : Walked graph resource before hops) : Delivers (Walked graph resource (includePaths includes))
        (after.foldlM (fun hops path => return hops ++ [← includeHop graph resource hops path]) hops) := by
    induction after generalizing before hops with
    | nil =>
      rw [List.append_nil] at whole
      rwa [whole]
    | cons path rest ih =>
      have there := mem_before_includePaths whole
      rw [← walked.paths] at there
      have further : Delivers (Walked graph resource (before ++ [path]))
          (do return hops ++ [← includeHop graph resource hops path]) := by
        refine (includeHop_delivers complete member walked.owned there).bind fun hop _ both => ⟨?_, fun other inside => ?_⟩
        · rw [List.map_append, walked.paths, List.map_singleton, both.1]
        · rcases List.mem_append.1 inside with old | new
          · have owned := walked.owned other old
            exact { owned with follows := ownerAt_append owned.follows [hop] }
          · obtain rfl := List.mem_singleton.1 new
            exact { both.2 with follows := ownerAt_append both.2.follows [other] }
      rw [List.foldlM_cons]
      exact further.bind fun hops _ walked => ih (before ++ [path]) (by simpa using whole) hops walked
  exact loop [] (includePaths includes) rfl [] ⟨rfl, List.forall_mem_nil _⟩

end Stepping

end ResourceApi.Plan
