import Mathlib.Data.List.Nodup
import ResourceApi.Mutation.Rules
import ResourceApi.Proofs.Rule.Obeyed
import ResourceApi.Proofs.Text.Path

/-!
The rules of nodes written out. The rules for what is written through a relation stand below a path of their own, since no
two relations have one name and no name has a point; so none of them is mixed with those of another relation.
-/

namespace ResourceApi

open RuleSet

/-- Rules for what is written through a relation, its entry standing at a place. -/
def Relation.entryRules (relation : Relation) (place : String) : RuleSet :=
  let operations := (relation.kind.operations.map (·.name)).mergeSort fun a b => a ≤ b
  if relation.isMutable then
    [(place, [.sometimes, .isObject, .graph (.operationKeys relation)]),
      (place ++ ".operation", [.sometimes, .isString, .oneOf (operations.map .text)]),
      (place ++ ".operations",
        [.required, .isList] ++ if relation.kind.cardinality = .one then [.atMostItems (.int 1)] else []),
      (place ++ ".operations.*", [.isObject, .graph (.relatedNode relation)]),
      (place ++ ".operations.*.pivot",
        if relation.kind.linkPlace = .pivot then [.sometimes, .isObject, .pivotFields (relation.pivotFields.map .text)]
        else [.prohibited]),
      (place ++ ".operations.*.resource",
        if relation.kind = .morphTo then [.required, .isString, .oneOf (relation.targets.map .text)]
        else [.prohibited])]
  else [(place, [.immutable relation.name relation.kind])]

namespace Mutation

variable {resource : Resource} {relation : Relation} {path : String}

/-- The place of what a node at a path writes through a relation. -/
def entryPlace (path : String) (relation : Relation) : String := Path.under path ("relations." ++ relation.name)

theorem segments_entryPlace (path : String) (plain : Path.IsPlain relation.name) :
    Path.segments (entryPlace path relation) = Path.segments path ++ ["relations", relation.name] := by
  have names : Path.names ("relations." ++ relation.name) = ["relations", relation.name] := by
    rw [show "relations." = "relations" ++ "." from rfl, Path.names_append, Path.names_of_isPlain plain,
      Path.names_of_isPlain (by decide)]
    rfl
  rw [entryPlace, Path.segments_under path (by simp), names]

theorem entryPlace_ne (path : String) : entryPlace path relation ≠ "" := by
  unfold entryPlace Path.under
  split <;> simp

/-- The places of the rules for an entry. -/
theorem segments_entryRules (plain : Path.IsPlain relation.name) :
    (relation.entryRules (entryPlace path relation)).map (fun entry => Path.segments entry.1) =
      (if relation.isMutable then
        [[], ["operation"], ["operations"], ["operations", "*"], ["operations", "*", "pivot"],
          ["operations", "*", "resource"]]
      else [[]]).map ((Path.segments path ++ ["relations", relation.name]) ++ ·) := by
  have place := segments_entryPlace path plain
  have below (rest : String) : Path.segments (entryPlace path relation ++ ("." ++ rest)) =
      Path.segments path ++ ["relations", relation.name] ++ Path.names rest := by
    rw [← String.append_assoc, Path.segments_append (entryPlace_ne path), place]
  have operation := below "operation"
  have operations := below "operations"
  have items := below "operations.*"
  have pivot := below "operations.*.pivot"
  have target := below "operations.*.resource"
  simp only [String.reduceAppend] at operation operations items pivot target
  unfold Relation.entryRules
  split
  · simp only [List.map_cons, List.map_nil, place, operation, operations, items, pivot, target, List.append_nil]
    rfl
  · simp [place]

/-- What an entry's rules are about lies below the place of the entry. -/
theorem exists_of_mem_entryRules (plain : Path.IsPlain relation.name) {entry : String × List Constraint}
    (member : entry ∈ relation.entryRules (entryPlace path relation)) :
    ∃ rest, Path.segments entry.1 = Path.segments path ++ "relations" :: relation.name :: rest := by
  have listed := List.mem_map_of_mem (f := fun entry => Path.segments entry.1) member
  rw [segments_entryRules plain] at listed
  obtain ⟨rest, -, same⟩ := List.mem_map.1 listed
  exact ⟨rest, by simpa using same.symm⟩

theorem nodup_entryRules (plain : Path.IsPlain relation.name) :
    ((relation.entryRules (entryPlace path relation)).map (·.1)).Nodup := by
  refine List.Nodup.of_map Path.segments ?_
  rw [List.map_map]
  change ((relation.entryRules (entryPlace path relation)).map fun entry => Path.segments entry.1).Nodup
  rw [segments_entryRules plain]
  refine List.Nodup.map (fun a b same => List.append_cancel_left same) ?_
  split <;> decide

private theorem tidy_writeRules (relation : Relation) (place : String) :
    ∀ entry ∈ relation.writeRules place, Tidy entry.2 := by
  unfold Relation.writeRules Kind.writeRules
  split
  · simp [Tidy]
  · intro entry member
    simp only [List.mem_cons, List.not_mem_nil, or_false] at member
    rcases member with rfl | rfl | rfl | rfl | rfl | rfl
    · simp [Tidy, Constraint.same]
    · simp [Tidy, Constraint.same]
    · dsimp only
      split <;> simp [Tidy, Constraint.same]
    · simp [Tidy]
    · dsimp only
      split <;> simp [Tidy, Constraint.same]
    · dsimp only
      split <;> simp [Tidy, Constraint.same]

private theorem places_writeRules (relation : Relation) (place : String) :
    (relation.writeRules place).map (·.1) = (relation.entryRules place).map (·.1) := by
  unfold Relation.writeRules Kind.writeRules Relation.entryRules
  by_cases writable : relation.kind.isMutable <;> simp [Relation.isMutable, writable]

/-- The rules for an entry, joined from those for all writes and those that ask the graph. -/
theorem merge_entryRules {before : RuleSet} {place : String}
    (distinct : ((before ++ relation.entryRules place).map (·.1)).Nodup) :
    (if relation.isMutable then (before.merge (relation.writeRules place)).merge [
        (place, [.graph (.operationKeys relation)]),
        (place ++ ".operations.*", [.graph (.relatedNode relation)])]
      else before.merge (relation.writeRules place)) = before ++ relation.entryRules place := by
  have written : before.merge (relation.writeRules place) = before ++ relation.writeRules place := by
    refine merge_fresh ?_ (tidy_writeRules relation place)
    rw [List.map_append, places_writeRules, ← List.map_append]
    exact distinct
  rw [written]
  unfold Relation.entryRules Relation.writeRules Kind.writeRules at *
  by_cases writable : relation.kind.isMutable
  · simp only [Relation.isMutable, writable, if_true, Bool.not_true, Bool.false_eq_true, if_false] at distinct ⊢
    rw [merge, List.foldl_cons, extend_known (by simpa using distinct) (by simp [Tidy, Constraint.same])]
    have moved {a b c d : String × List Constraint} {rest : RuleSet} :
        before ++ a :: b :: c :: d :: rest = (before ++ [a, b, c]) ++ d :: rest := by simp
    rw [List.foldl_cons, moved, extend_known (by simpa using distinct) (by simp [Tidy, Constraint.same])]
    simp
  · simp [Relation.isMutable, writable]

/-- The rules for a node, with those for every relation below it. -/
def nodeEntries (resource : Resource) (path : String) : RuleSet :=
  resource.relations.flatMap fun relation => relation.entryRules (entryPlace path relation)

section Distinct

variable (plain : ∀ relation ∈ resource.relations, Path.IsPlain relation.name)
  (distinct : (resource.relations.map (·.name)).Nodup)
include plain

/-- What is about the relations of a node lies below the place of its relations. -/
theorem exists_of_mem_nodeEntries {entry : String × List Constraint} (member : entry ∈ nodeEntries resource path) :
    ∃ name rest, Path.segments entry.1 = Path.segments path ++ "relations" :: name :: rest := by
  obtain ⟨relation, declared, inside⟩ := List.mem_flatMap.1 member
  obtain ⟨rest, same⟩ := exists_of_mem_entryRules (plain relation declared) inside
  exact ⟨relation.name, rest, same⟩

include distinct in
private theorem nodup_nodeEntries : ((nodeEntries resource path).map (·.1)).Nodup := by
  rw [nodeEntries, List.map_flatMap, List.nodup_flatMap]
  refine ⟨fun relation declared => nodup_entryRules (plain relation declared), ?_⟩
  refine ((List.pairwise_map.1 distinct).imp_of_mem ?_)
  intro first second declared declaredToo different place inFirst inSecond
  obtain ⟨entry, member, rfl⟩ := List.mem_map.1 inFirst
  obtain ⟨other, memberToo, same⟩ := List.mem_map.1 inSecond
  obtain ⟨rest, here⟩ := exists_of_mem_entryRules (plain first declared) member
  obtain ⟨more, there⟩ := exists_of_mem_entryRules (plain second declaredToo) memberToo
  rw [same, here] at there
  have names := List.append_cancel_left there
  simp only [List.cons.injEq, true_and] at names
  exact different names.1

include distinct in
theorem nodup_nodeRules (path : String) :
    (path :: Path.under path "relations" :: (nodeEntries resource path).map (·.1)).Nodup := by
  have under : Path.segments (Path.under path "relations") = Path.segments path ++ ["relations"] :=
    Path.segments_under path (by decide)
  have apart {place : String} (inside : place ∈ (nodeEntries resource path).map (·.1)) :
      (Path.segments path).length + 2 ≤ (Path.segments place).length := by
    obtain ⟨entry, member, rfl⟩ := List.mem_map.1 inside
    obtain ⟨name, rest, same⟩ := exists_of_mem_nodeEntries plain member
    rw [same]
    simp
  refine List.nodup_cons.2 ⟨?_, List.nodup_cons.2 ⟨fun inside => ?_, nodup_nodeEntries plain distinct⟩⟩
  · intro inside
    rcases List.mem_cons.1 inside with same | later
    · have lengths := congrArg (fun place => (Path.segments place).length) same
      simp [under] at lengths
    · have := apart later
      omega
  · have := apart inside
    rw [under, List.length_append] at this
    simp at this

include distinct in
theorem nodeRules_eq (path : String) :
    nodeRules resource path =
      (path, [.graph (.fillable resource)]) ::
        (Path.under path "relations", [.sometimes, .isObject, .graph (.knownRelations resource)]) ::
        nodeEntries resource path := by
  have loop (rest : List Relation) (before : RuleSet)
      (apart : ((before ++ rest.flatMap fun relation => relation.entryRules (entryPlace path relation)).map (·.1)).Nodup) :
      rest.foldl (fun rules relation =>
        let place := Path.under path ("relations." ++ relation.name)
        let written := rules.merge (relation.writeRules place)
        if relation.isMutable then written.merge [
          (place, [.graph (.operationKeys relation)]),
          (place ++ ".operations.*", [.graph (.relatedNode relation)])]
        else written) before =
          before ++ rest.flatMap fun relation => relation.entryRules (entryPlace path relation) := by
    induction rest generalizing before with
    | nil => simp
    | cons relation rest ih =>
      rw [List.flatMap_cons, ← List.append_assoc] at apart
      have here : ((before ++ relation.entryRules (entryPlace path relation)).map (·.1)).Nodup := by
        rw [List.map_append] at apart
        exact (List.nodup_append.1 apart).1
      rw [List.foldl_cons, List.flatMap_cons, ← List.append_assoc, ← ih _ apart]
      exact congrArg (rest.foldl _) (merge_entryRules here)
  have nodup := nodup_nodeRules plain distinct path
  exact loop resource.relations [(path, [.graph (.fillable resource)]),
    (Path.under path "relations", [.sometimes, .isObject, .graph (.knownRelations resource)])] nodup

end Distinct

theorem tidy_entryRules (relation : Relation) (place : String) : ∀ entry ∈ relation.entryRules place, Tidy entry.2 := by
  unfold Relation.entryRules
  split
  · intro entry member
    simp only [List.mem_cons, List.not_mem_nil, or_false] at member
    rcases member with rfl | rfl | rfl | rfl | rfl | rfl
    · simp [Tidy, Constraint.same]
    · simp [Tidy, Constraint.same]
    · dsimp only
      split <;> simp [Tidy, Constraint.same]
    · simp [Tidy, Constraint.same]
    · dsimp only
      split <;> simp [Tidy, Constraint.same]
    · dsimp only
      split <;> simp [Tidy, Constraint.same]
  · simp [Tidy]

/-- The rules for a list of nodes are those for each, and what a list has to be. -/
theorem rules_eq (plain : ∀ relation ∈ resource.relations, Path.IsPlain relation.name)
    (distinct : (resource.relations.map (·.name)).Nodup) :
    rules resource "mutate" =
      [("mutate", [.required, .isList]), ("mutate.*", [.isObject, .graph (.fillable resource)]),
        ("mutate.*.pivot", [.prohibited]), ("mutate.*.resource", [.prohibited]),
        ("mutate.*.relations", [.sometimes, .isObject, .graph (.knownRelations resource)])] ++
        nodeEntries resource "mutate.*" := by
  have under : Path.under "mutate.*" "relations" = "mutate.*.relations" := rfl
  have items : "mutate" ++ ".*" = "mutate.*" := rfl
  have nodup := nodup_nodeRules plain distinct "mutate.*"
  rw [under] at nodup
  have fresh : ∀ place ∈ ["mutate", "mutate.*.pivot", "mutate.*.resource"],
      place ∉ (nodeEntries resource "mutate.*").map (·.1) := by
    intro place member inside
    obtain ⟨entry, among, rfl⟩ := List.mem_map.1 inside
    obtain ⟨name, rest, same⟩ := exists_of_mem_nodeEntries plain among
    have lengths := congrArg List.length same
    have start : (Path.segments "mutate.*").length = 2 := by decide
    have short : ∀ place ∈ ["mutate", "mutate.*.pivot", "mutate.*.resource"], (Path.segments place).length ≤ 3 := by decide
    have bound := short _ member
    rw [lengths, List.length_append, start, List.length_cons, List.length_cons] at bound
    omega
  have known := @extend_known [.isObject] [("mutate", [.required, .isList])]
    [("mutate.*.pivot", [.prohibited]), ("mutate.*.resource", [.prohibited])] "mutate.*" [.graph (.fillable resource)]
    (by decide) (by simp [Tidy, Constraint.same])
  have others := @merge_fresh
    [("mutate", [.required, .isList]), ("mutate.*", [.isObject, .graph (.fillable resource)]),
      ("mutate.*.pivot", [.prohibited]), ("mutate.*.resource", [.prohibited])]
    (("mutate.*.relations", [.sometimes, .isObject, .graph (.knownRelations resource)]) ::
      nodeEntries resource "mutate.*") ?_ ?_
  · rw [rules, items, nodeRules_eq plain distinct, under, merge, List.foldl_cons]
    refine (congrArg (List.foldl _ · _) known).trans (others.trans ?_)
    simp
  · simp only [List.map_cons, List.cons_append, List.nil_append]
    simp only [List.nodup_cons, List.mem_cons, not_or] at nodup ⊢
    simp only [List.forall_mem_cons] at fresh
    obtain ⟨⟨itemsFirst, itemsFresh⟩, relationsFresh, entriesNodup⟩ := nodup
    exact ⟨⟨by decide, by decide, by decide, by decide, fresh.1⟩, ⟨by decide, by decide, by decide, itemsFresh⟩,
      ⟨by decide, by decide, fresh.2.1⟩, ⟨by decide, fresh.2.2.1⟩, relationsFresh, entriesNodup⟩
  · intro entry member
    rcases List.mem_cons.1 member with rfl | inside
    · simp [Tidy, Constraint.same]
    · obtain ⟨relation, -, among⟩ := List.mem_flatMap.1 inside
      exact tidy_entryRules relation _ entry among

end Mutation

end ResourceApi
