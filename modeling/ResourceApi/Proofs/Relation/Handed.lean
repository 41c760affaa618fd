import ResourceApi.Proofs.Query.Handed
import ResourceApi.Proofs.Relation.Linked
import ResourceApi.Proofs.Resource.Followed

/-!
What statements over relations hand to the storage: the values that stand for resources in type columns, and no others.
In a complete graph the related rows of a relation can always be looked for.
-/

namespace ResourceApi

open Outcome Query

/-- The values that stand for resources in type columns fit a word. -/
def Graph.Tagged (graph : Graph) : Prop := ∀ resource ∈ graph.resources, resource.morphAlias.FitsWord

namespace Related

/-- Related rows that are looked for with values that fit a word. -/
structure Fits (related : Related) : Prop where
  source : Bound.FitAll (sourceBounds related.source)
  conditions : Bound.FitAll (allBounds related.conditions)
  told : ∀ entry, related.parentType = some entry → entry.2.FitsWord

theorem allBounds_alive (resource : Resource) (slot : Nat) : allBounds (alive resource slot) = [] := by
  unfold alive
  cases resource.deletedAt <;> rfl

section

variable {owner target : Resource} (ownTag : owner.morphAlias.FitsWord) (tag : target.morphAlias.FitsWord)

include ownTag in
private theorem ofType_delivers (link : ChildLink) (slot : Nat) :
    Delivers (fun conditions => Bound.FitAll (allBounds conditions)) (ofType owner target link slot) :=
  Cond.mapM_delivers fun _ _ => Cond.equal_delivers _ ownTag

include ownTag in
private theorem picked_delivers (link : ChildLink) (slot : Nat) :
    Delivers (fun conditions => Bound.FitAll (allBounds conditions)) (picked owner target link slot) := by
  unfold picked
  split
  · exact Bound.FitAll.nil
  · refine (ofType_delivers ownTag link 0).bind fun conditions _ fit => ?_
    simpa [Delivers, pure, Except.pure, allBounds, boundsOf, sourceBounds, allBounds_alive] using fit

include ownTag tag in
theorem ofTarget_delivers (relation : Relation) (slot : Nat) :
    Delivers (fun related => related.Fits ∧ related.target = target) (ofTarget owner relation target slot) := by
  have noSource (name : String) : Bound.FitAll (sourceBounds (.table name)) := Bound.FitAll.nil
  have alone : Bound.FitAll (allBounds (alive target slot)) := by
    rw [allBounds_alive]
    exact Bound.FitAll.nil
  unfold ofTarget
  split
  · next link _ =>
    refine (picked_delivers ownTag link slot).bind fun pick _ ofPick => ?_
    refine (ofType_delivers ownTag link slot).bind fun typed _ ofTyped => ?_
    refine ⟨⟨noSource _, ?_, fun _ told => by cases told⟩, rfl⟩
    rw [allBounds_append, allBounds_append]
    exact (alone.append ofTyped).append ofPick
  · next link _ =>
    refine ⟨⟨noSource _, alone, fun entry told => ?_⟩, rfl⟩
    obtain ⟨_, -, rfl⟩ := Option.map_eq_some_iff.1 told
    exact tag
  · next link _ =>
    refine (Cond.mapM_delivers fun entry _ => ?_).bind fun conditions _ fit => ?_
    · obtain ⟨column, _ | _⟩ := entry
      · exact Cond.equal_delivers _ ownTag
      · exact Cond.equal_delivers _ tag
    refine ⟨⟨Bound.FitAll.nil, ?_, fun _ told => by cases told⟩, rfl⟩
    rw [allBounds_append]
    exact alone.append fit
  · exact ⟨⟨Bound.FitAll.nil, alone, fun _ told => by cases told⟩, rfl⟩

end

section

variable {schema : Schema} {graph : Graph} (complete : graph.Complete schema) (tagged : graph.Tagged) {owner : Resource}
  (member : owner ∈ graph.resources) {relation : Relation} (declared : relation ∈ owner.relations)
include complete tagged member declared

theorem single_delivers (slot : Nat) :
    Delivers (fun related => related.Fits ∧ related.target ∈ graph.resources) (single graph owner relation slot) := by
  have found : Delivers (fun related => related.Fits ∧ related.target ∈ graph.resources)
      (graph.target relation >>= fun target => ofTarget owner relation target slot) := by
    refine (complete.target member declared).bind fun target _ inside => ?_
    exact (ofTarget_delivers (tagged owner member) (tagged target inside) relation slot).mono fun related _ both =>
      ⟨both.1, both.2 ▸ inside⟩
  unfold single
  split
  · rfl
  · exact found

theorem each_delivers :
    Delivers (fun all => ∀ related ∈ all, related.Fits ∧ related.target ∈ graph.resources) (each graph owner relation) := by
  have ofTarget_member {target : Resource} (inside : target ∈ graph.resources) :
      Delivers (fun related => related.Fits ∧ related.target ∈ graph.resources) (ofTarget owner relation target 0) :=
    (ofTarget_delivers (tagged owner member) (tagged target inside) relation 0).mono fun related _ both =>
      ⟨both.1, both.2 ▸ inside⟩
  unfold each
  split
  · refine Delivers.mapM fun name listed => ?_
    obtain ⟨target, found, -⟩ := ((complete owner member).relations relation declared).columns name listed
    simp only [found]
    exact ofTarget_member (Graph.mem_of_get? found)
  · refine (complete.target member declared).bind fun target _ inside => ?_
    exact (ofTarget_member inside).bind fun related _ both => List.forall_mem_singleton.2 both

end

theorem correlated_delivers {related : Related} (fits : related.Fits) (parent : Table) (frame slot : Nat) :
    Delivers (fun conditions => Bound.FitAll (allBounds conditions)) (related.correlated parent frame slot) := by
  refine (Cond.mapM_delivers fun entry listed => ?_).bind fun types _ typed => ?_
  · exact Cond.equal_delivers _ (fits.told entry (Option.mem_toList.1 listed))
  · change Bound.FitAll (allBounds (_ ++ _))
    rw [allBounds_append]
    exact fits.conditions.append typed

end Related

namespace RelatedPath

/-- Joined hops that are looked for with values that fit a word. -/
structure Fits (graph : Graph) (path : RelatedPath) : Prop where
  target : path.last.target ∈ graph.resources
  source : Bound.FitAll (sourceBounds path.source)
  conditions : Bound.FitAll (allBounds path.conditions)

variable {schema : Schema} {graph : Graph} (complete : graph.Complete schema) (tagged : graph.Tagged)
include complete tagged

private theorem extend_delivers {hops : List (Resource × Relation)} (within : graph.Within hops) {path : RelatedPath}
    (fits : path.Fits graph) (width : Nat) : Delivers (·.Fits graph) (extend graph path width hops) := by
  induction hops generalizing path width with
  | nil => exact fits
  | cons hop rest ih =>
    obtain ⟨⟨member, declared⟩, later⟩ := List.forall_mem_cons.1 within
    refine (Related.single_delivers complete tagged member declared width).bind fun next _ both => ?_
    refine ih later ?_ _
    refine ⟨both.2, ?_, fits.conditions⟩
    rw [sourceBounds, allBounds_conjuncts, allBounds]
    exact (fits.source.append both.1.source).append both.1.conditions

/-- The rows at the end of a path can be looked for. -/
theorem ofHops_delivers {hops : List (Resource × Relation)} (within : graph.Within hops) (nonempty : hops ≠ [])
    (parent : Table) (slot : Nat) : Delivers (·.Fits graph) (ofHops graph parent slot hops) := by
  cases hops with
  | nil => exact absurd rfl nonempty
  | cons hop rest =>
    obtain ⟨⟨member, declared⟩, later⟩ := List.forall_mem_cons.1 within
    refine (Related.single_delivers complete tagged member declared 0).bind fun first _ both => ?_
    refine (Related.correlated_delivers both.1 parent 1 slot).bind fun conditions _ fit => ?_
    exact extend_delivers complete tagged later ⟨both.2, both.1.source, fit⟩ _

end RelatedPath

end ResourceApi
