import ResourceApi.Proofs.Mutation.WellFormed
import ResourceApi.Proofs.Resource.Listed
import ResourceApi.Proofs.Rule.Placed

/-!
Nodes that are checked wherever they stand. The rules of a resource for the nodes of a list are its rules for one node,
each below the path of the list; and a node below a relation is checked by the rules of the resource that it leads to. So
what is wrong with a node does not depend on its place, and every message of it tells the place first.
-/

namespace ResourceApi

open Outcome RuleSet

/-- Not checked at all, since nothing of the kind can be written. -/
def Outcome.IsRefused {α : Type} (result : Except Failure α) : Prop := ∃ cause, result = .error (.unsupported cause)

/-- A question about a resource, or about one of its relations. -/
def GraphRule.IsAbout (resource : Resource) : GraphRule → Prop
  | .operationKeys relation | .relatedNode relation => relation ∈ resource.relations
  | _ => True

namespace Mutation

variable {graph : Graph} {resource target : Resource} {relation : Relation} {path start : String} {levels : Nat}

/-! ## The rules of a node -/

private theorem entryRules_below (plain : Path.IsPlain relation.name) (path : String) :
    (relation.entryRules (entryPlace path relation)).map (fun entry => (Path.segments entry.1, entry.2)) =
      (relation.entryRules (entryPlace "" relation)).map fun entry =>
        (Path.segments path ++ Path.segments entry.1, entry.2) := by
  have constraints : (relation.entryRules (entryPlace path relation)).map (·.2) =
      (relation.entryRules (entryPlace "" relation)).map (·.2) := by
    unfold Relation.entryRules
    split <;> rfl
  have places : (relation.entryRules (entryPlace path relation)).map (fun entry => Path.segments entry.1) =
      (relation.entryRules (entryPlace "" relation)).map fun entry => Path.segments path ++ Path.segments entry.1 := by
    have alone := congrArg (List.map (Path.segments path ++ ·)) (@segments_entryRules relation "" plain)
    rw [List.map_map, List.map_map] at alone
    refine (segments_entryRules plain).trans (Eq.trans (List.map_congr_left fun rest _ => ?_) alone.symm)
    exact List.append_assoc _ _ _
  rw [← List.zip_map', ← List.zip_map', constraints, places]

section Rules

variable (plain : ∀ relation ∈ resource.relations, Path.IsPlain relation.name)
  (distinct : (resource.relations.map (·.name)).Nodup)
include plain distinct

/-- The rules for a node at a path are its rules, each below the path. -/
theorem nodeRules_below (path : String) :
    (nodeRules resource path).map (fun entry => (Path.segments entry.1, entry.2)) =
      (nodeRules resource "").map fun entry => (Path.segments path ++ Path.segments entry.1, entry.2) := by
  have under : Path.segments (Path.under path "relations") = Path.segments path ++ ["relations"] :=
    Path.segments_under path (by decide)
  have underNone : Path.segments (Path.under "" "relations") = ["relations"] := by decide
  have empty : Path.segments "" = [] := rfl
  rw [nodeRules_eq plain distinct, nodeRules_eq plain distinct]
  simp only [List.map_cons, under, underNone, empty, List.append_nil, nodeEntries, List.map_flatMap]
  refine congrArg _ (congrArg _ (List.flatMap_congr fun relation declared => ?_))
  exact entryRules_below (plain relation declared) path

/-- A rule for a node is one for the whole of it, or for something that it has under its relations. -/
theorem mem_nodeRules {entry : String × List Constraint} (member : entry ∈ nodeRules resource "") :
    entry = ("", [.graph (.fillable resource)]) ∨ ∃ rest, Path.segments entry.1 = "relations" :: rest := by
  rw [nodeRules_eq plain distinct] at member
  rcases List.mem_cons.1 member with rfl | member
  · exact .inl rfl
  · rcases List.mem_cons.1 member with rfl | member
    · have under : Path.segments (Path.under "" "relations") = ["relations"] := Path.segments_under "" (by decide)
      exact .inr ⟨[], under⟩
    · obtain ⟨name, rest, same⟩ := exists_of_mem_nodeEntries plain member
      exact .inr ⟨_, same⟩

theorem nodeRules_asks : (nodeRules resource path).Asks (GraphRule.IsAbout resource) := by
  rw [nodeRules_eq plain distinct]
  intro entry member question asked
  rcases List.mem_cons.1 member with rfl | member
  · cases List.mem_singleton.1 asked
    trivial
  · rcases List.mem_cons.1 member with rfl | member
    · simp only [List.mem_cons, reduceCtorEq, List.not_mem_nil, or_false, false_or] at asked
      cases asked
      trivial
    · obtain ⟨relation, declared, inside⟩ := List.mem_flatMap.1 member
      have about : question = .operationKeys relation ∨ question = .relatedNode relation := by
        unfold Relation.entryRules at inside
        split at inside
        · simp only [List.mem_cons, List.not_mem_nil, or_false] at inside
          rcases inside with rfl | rfl | rfl | rfl | rfl | rfl
          · exact .inl (by simpa using asked)
          · simp at asked
          · dsimp only at asked
            split at asked <;> simp at asked
          · exact .inr (by simpa using asked)
          · dsimp only at asked
            split at asked <;> simp at asked
          · dsimp only at asked
            split at asked <;> simp at asked
        · obtain rfl := List.mem_singleton.1 inside
          simp at asked
      rcases about with rfl | rfl <;> exact declared

end Rules

/-! ## The answers of the graph -/

theorem mem_of_relatedResource? {item : Json} (leads : relatedResource? graph relation item = .ok (some target)) :
    target ∈ graph.resources := by
  unfold relatedResource? at leads
  split at leads
  · split at leads
    · split at leads
      · exact Graph.mem_of_get? (Except.ok.inj leads)
      · cases leads
    · cases leads
  · obtain ⟨_, found, same⟩ := map_eq_ok.1 leads
    cases same
    exact Graph.mem_of_target found

private theorem missingKeys_behind (value : Json) :
    missingKeys graph relation value (start ++ path) = sayBehind start (missingKeys graph relation value path) := by
  unfold missingKeys
  split
  · split
    · rfl
    · refine flatten_mapM_behind fun item _ => ?_
      dsimp only
      split
      · rfl
      · cases relatedResource? graph relation item.1 with
        | error failure => rfl
        | ok target? =>
          cases target? with
          | none => rfl
          | some target =>
            simp only [ok_bind]
            split <;> simp [sayBehind, Except.map, pure, Except.pure, String.append_assoc, toString]
  · rfl

/-- An answer of the graph tells the path of what it is about, so that it moves with it. -/
theorem answerTo_behind (question : GraphRule) (value : Json) (worded : path ≠ "") :
    answerTo graph levels question value (start ++ "." ++ path) =
      sayBehind (start ++ ".") (answerTo graph levels question value path) := by
  have here (name : String) : Path.under path name = path ++ "." ++ name := if_neg (by simpa using worded)
  have there (name : String) : Path.under (start ++ "." ++ path) name = start ++ "." ++ path ++ "." ++ name :=
    if_neg (by simp)
  simp only [String.append_assoc] at there
  cases question with
  | fillable resource =>
    cases value <;> simp [answerTo, sayBehind, Except.map, here, there, String.append_assoc, toString]
  | knownRelations resource =>
    cases value <;> simp [answerTo, sayBehind, Except.map, here, there, String.append_assoc, toString]
  | operationKeys relation => cases levels <;> exact missingKeys_behind value
  | relatedNode relation =>
    cases levels with
    | zero => rfl
    | succ levels =>
      cases value with
      | object members =>
        simp only [answerTo]
        cases relatedResource? graph relation (.object members) with
        | error failure => rfl
        | ok target? =>
          cases target? with
          | none => rfl
          | some target =>
            simp only [ok_bind, errorsAt]
            rw [if_neg (by simp), if_neg (by simpa using worded)]
            cases RuleSet.errors (answerTo graph levels) (nodeRules target "") (.object members) <;>
              simp [sayBehind, Except.map, Bind.bind, Except.bind, pure, Except.pure, String.append_assoc]
      | _ => rfl
  | _ => cases levels <;> rfl

/-- What a node sets is told by its key alone, or behind the path of the node. -/
theorem fillable_behind (value : Json) (led : start ≠ "") :
    answerTo graph levels (.fillable resource) value start =
      sayBehind (start ++ ".") (answerTo graph levels (.fillable resource) value "") := by
  have here (name : String) : Path.under "" name = name := rfl
  have there (name : String) : Path.under start name = start ++ "." ++ name := if_neg (by simpa using led)
  cases value <;> simp [answerTo, sayBehind, Except.map, here, there, String.append_assoc, toString]

section Checks

variable (sound : graph.Sound) (named : graph.Addressable)
include sound named

/-- So many levels as a node has are all that is asked of it. -/
theorem errors_levels {node : Json} {others : Nat} (declared : resource ∈ graph.resources) (deep : node.depth ≤ levels)
    (deepToo : node.depth ≤ others) : (nodeRules resource "").errors (answerTo graph levels) node =
      (nodeRules resource "").errors (answerTo graph others) node := by
  induction levels generalizing others resource node with
  | zero =>
    have := node.depth_pos
    omega
  | succ levels ih =>
    obtain ⟨others, rfl⟩ : ∃ fewer, others = fewer + 1 := ⟨others - 1, by have := node.depth_pos; omega⟩
    have plain (relation) (listed : relation ∈ resource.relations) := (named resource declared relation listed).1
    refine errors_congr fun entry rule place reached question asked value present => ?_
    cases question with
    | relatedNode relation =>
      rcases mem_nodeRules plain (sound resource declared).distinct rule with rfl | ⟨rest, segments⟩
      · simp at asked
      · rw [Attribute.expand, segments] at reached
        have shallow := Attribute.depth_lt_of_below reached (List.cons_ne_nil _ _) present
        cases value with
        | object members =>
          simp only [answerTo]
          cases leads : relatedResource? graph relation (.object members) with
          | error failure => rfl
          | ok target? =>
            cases target? with
            | none => rfl
            | some target =>
              simp only [ok_bind, errorsAt]
              rw [ih (mem_of_relatedResource? leads) (by omega) (by omega : _ ≤ others)]
        | _ => rfl
    | _ => cases value <;> rfl

/-- A constraint on a node moves with it. -/
theorem moves_of_nodeRules {node : Json} {trail : List Step} (led : Path.ofNames (trail.map Step.text) ≠ "")
    (declared : resource ∈ graph.resources) {entry : String × List Constraint} (rule : entry ∈ nodeRules resource "")
    {place : Attribute} (reached : place ∈ Attribute.expand node entry.1) {constraint : Constraint}
    (listed : constraint ∈ entry.2) :
    Moves (answerTo graph levels) trail (Path.ofNames (trail.map Step.text) ++ ".") place constraint := by
  have plain (relation) (listed : relation ∈ resource.relations) := (named resource declared relation listed).1
  rcases mem_nodeRules plain (sound resource declared).distinct rule with rfl | ⟨rest, segments⟩
  · obtain rfl := List.mem_singleton.1 listed
    obtain rfl := List.mem_singleton.1 reached
    intro value _
    rw [Attribute.path, Attribute.behind, List.append_nil]
    exact fillable_behind value led
  · obtain ⟨more, steps⟩ : ∃ more, place.steps = .member "relations" :: more := by
      rw [Attribute.expand, segments] at reached
      exact Attribute.steps_of_below reached
    have worded : place.path ≠ "" := by
      rw [Attribute.path, steps, List.map_cons]
      exact Path.ofNames_ne (by decide) _
    have stands : (place.behind trail).path = Path.ofNames (trail.map Step.text) ++ "." ++ place.path := by
      refine Attribute.path_behind ?_ (steps ▸ List.cons_ne_nil _ _)
      rintro rfl
      exact led rfl
    cases constraint with
    | graph question =>
      intro value _
      rw [stands]
      exact answerTo_behind question value worded
    | _ => exact ⟨stands, worded⟩

/-- The checks of the nodes in a list are those of each, made where the node stands. -/
theorem checks_nodes (declared : resource ∈ graph.resources) (nodes : List Json) :
    ((nodeRules resource "mutate.*").checks (answerTo graph levels) (.object [("mutate", .list nodes)])).Perm
      (nodes.zipIdx.flatMap fun node => ((nodeRules resource "").checks (answerTo graph levels) node.1).map
        (sayBehind s!"mutate.{node.2}.")) := by
  have plain (relation) (listed : relation ∈ resource.relations) := (named resource declared relation listed).1
  have ofPairs (rules : RuleSet) (data : Json) : rules.checks (answerTo graph levels) data =
      (rules.map fun entry => (Path.segments entry.1, entry.2)).flatMap fun pair =>
        (Attribute.below [] data (pair.1.map Segment.ofText)).map (placeErrors (answerTo graph levels) pair.2) := by
    rw [List.flatMap_map]
    rfl
  have reached (names : List String) :
      Attribute.below [] (.object [("mutate", .list nodes)]) ((Path.segments "mutate.*" ++ names).map Segment.ofText) =
        nodes.zipIdx.flatMap fun node => (Attribute.below [] node.1 (names.map Segment.ofText)).map
          (Attribute.behind [.member "mutate", .index node.2]) := by
    have found : (Json.object [("mutate", .list nodes)]).get? "mutate" = some (.list nodes) := rfl
    rw [show Path.segments "mutate.*" = ["mutate", "*"] by decide, List.map_append]
    change Attribute.below [] _ (.name "mutate" :: .any :: names.map Segment.ofText) = _
    rw [Attribute.below_member found, Attribute.below_any, Json.children, List.flatMap_map]
    exact List.flatMap_congr fun node _ => Attribute.below_eq_map _ _ _
  have start (position : Nat) : Path.ofNames ([Step.member "mutate", Step.index position].map Step.text) ++ "." =
      s!"mutate.{position}." := rfl
  have each : (nodeRules resource "mutate.*").checks (answerTo graph levels) (.object [("mutate", .list nodes)]) =
      (nodeRules resource "").flatMap fun entry => nodes.zipIdx.flatMap fun node =>
        ((Attribute.expand node.1 entry.1).map (placeErrors (answerTo graph levels) entry.2)).map
          (sayBehind s!"mutate.{node.2}.") := by
    rw [ofPairs, nodeRules_below plain (sound resource declared).distinct, List.flatMap_map]
    refine List.flatMap_congr fun entry rule => ?_
    rw [reached, List.map_flatMap]
    refine List.flatMap_congr fun node _ => ?_
    rw [List.map_map, List.map_map]
    refine List.map_congr_left fun place inside => ?_
    have led : Path.ofNames ([Step.member "mutate", Step.index node.2].map Step.text) ≠ "" :=
      Path.ofNames_ne (by decide) _
    rw [Function.comp, Function.comp, ← start]
    exact placeErrors_behind fun constraint listed => moves_of_nodeRules sound named led declared rule inside listed
  rw [each]
  refine (List.flatMap_swap _ _ _).trans (.of_eq (List.flatMap_congr fun node _ => ?_))
  rw [checks, List.map_flatMap]

end Checks

/-! ## Refusals -/

/-- A failure for another reason than that something cannot be written at all. -/
def IsOther (failure : Failure) : Prop := ∀ cause, failure ≠ .unsupported cause

theorem isRefused_iff {α : Type} {result : Except Failure α} (never : Never IsOther result) :
    IsRefused result ↔ ¬∃ a, result = .ok a := by
  cases result with
  | ok a => simp [IsRefused]
  | error failure =>
    have cause := not_forall_not.1 (never failure rfl)
    simpa [IsRefused] using cause

section Refusals

variable (sound : graph.Sound) (named : graph.Addressable) (led : graph.Led)
include led

theorem relatedResource?_total (owned : resource ∈ graph.resources) (declared : relation ∈ resource.relations)
    (item : Json) : ∃ target?, relatedResource? graph relation item = .ok target? := by
  unfold relatedResource?
  split
  · split
    · split <;> exact ⟨_, rfl⟩
    · exact ⟨_, rfl⟩
  · next single =>
    obtain ⟨target, leads⟩ := led resource owned relation declared (by simp [Relation.isNestable, Kind.isNestable, single])
    exact ⟨some target, by rw [leads]; rfl⟩

theorem missingKeys_never (owned : resource ∈ graph.resources) (declared : relation ∈ resource.relations) (value : Json)
    (path : String) : Never IsOther (missingKeys graph relation value path) := by
  unfold missingKeys
  split
  · split
    · exact Never.pure _
    · refine Never.bind (Never.mapM fun item _ => ?_) fun _ _ => Never.pure _
      obtain ⟨target?, asked⟩ := relatedResource?_total led owned declared item.1
      dsimp only
      rw [asked, ok_bind]
      split
      · exact Never.pure _
      · split
        · exact Never.pure _
        · split <;> exact Never.pure _
  · exact Never.pure _

include sound named

/-- A question about a resource is refused for no other reason than that something cannot be written. -/
theorem answerTo_never {question : GraphRule} (owned : resource ∈ graph.resources) (about : question.IsAbout resource)
    (value : Json) (path : String) : Never IsOther (answerTo graph levels question value path) := by
  induction levels generalizing resource question value path with
  | zero =>
    cases question with
    | operationKeys relation => exact missingKeys_never led owned about value path
    | _ => cases value <;> exact Never.ok _
  | succ levels ih =>
    cases question with
    | operationKeys relation => exact missingKeys_never led owned about value path
    | relatedNode relation =>
      cases value with
      | object members =>
        obtain ⟨target?, asked⟩ := relatedResource?_total led owned about (.object members)
        simp only [answerTo, asked, ok_bind]
        cases target? with
        | none => exact Never.pure _
        | some target =>
          have member := mem_of_relatedResource? asked
          have plain (relation) (listed : relation ∈ target.relations) := (named target member relation listed).1
          refine Never.bind (RuleSet.errors_never (fun _ _ other => other _ rfl) (fun _ about value path => ?_)
            (nodeRules_asks plain (sound target member).distinct) _) fun _ _ => Never.pure _
          exact ih member about value path
      | _ => exact Never.ok _
    | _ => cases value <;> exact Never.ok _

/-- A node is refused for no other reason than that something cannot be written. -/
theorem errors_never (owned : resource ∈ graph.resources) (data : Json) :
    Never IsOther (errors graph (nodeRules resource path) data) :=
  RuleSet.errors_never (fun _ _ other => other _ rfl)
    (fun _ about value path => answerTo_never sound named led owned about value path)
    (nodeRules_asks (fun relation listed => (named resource owned relation listed).1) (sound resource owned).distinct) data

end Refusals

section Lists

variable (sound : graph.Sound) (named : graph.Addressable)
include sound named

/-- A list of nodes has messages if and only if every node has, and then it has all of theirs, behind their places. -/
theorem errors_nodes (owned : resource ∈ graph.resources) (nodes : List Json) :
    let alone (node : Json) := errors graph (nodeRules resource "") node
    let there := errors graph (nodeRules resource "mutate.*") (.object [("mutate", .list nodes)])
    ((∃ found, there = .ok found) ↔ ∀ node ∈ nodes, ∃ messages, alone node = .ok messages) ∧
      ∀ found, there = .ok found → found.Perm (nodes.zipIdx.flatMap fun node =>
        (said (alone node.1)).map (s!"mutate.{node.2}." ++ ·)) := by
  intro alone there
  let data : Json := .object [("mutate", .list nodes)]
  let checks (node : Json) := (nodeRules resource "").checks (answerTo graph data.depth) node
  have deep {node : Json} (member : node ∈ nodes) : node.depth ≤ data.depth := by
    have inList := Json.depth_le_depthItems member
    simp only [data, Json.depth, Json.depthMembers]
    omega
  have ofNode {node : Json} (member : node ∈ nodes) (messages : List String) : alone node = .ok messages ↔
      (∀ check ∈ checks node, ∃ messages, check = .ok messages) ∧ (checks node).flatMap said = messages := by
    rw [← errors_eq_ok, errors_levels sound named owned (deep member) (Nat.le_refl node.depth)]
    rfl
  have placed := @checks_nodes graph resource data.depth sound named owned nodes
  have ofAll (found : List String) : there = .ok found ↔ _ := errors_eq_ok
  have each : (∀ check ∈ (nodeRules resource "mutate.*").checks (answerTo graph data.depth) data,
      ∃ messages, check = .ok messages) ↔ ∀ node ∈ nodes, ∃ messages, alone node = .ok messages := by
    simp only [data, placed.mem_iff, List.mem_flatMap, List.mem_map]
    constructor
    · intro all node member
      obtain ⟨position, inside, rfl⟩ := List.getElem_of_mem member
      have listed : (nodes[position], position) ∈ nodes.zipIdx := by simp [List.mem_zipIdx_iff_getElem?]
      exact ⟨_, (ofNode member _).2 ⟨fun check made => sayBehind_eq_ok.1 (all _ ⟨_, listed, check, made, rfl⟩), rfl⟩⟩
    · rintro told _ ⟨node, listed, check, made, rfl⟩
      have inside : node.1 ∈ nodes := List.fst_mem_of_mem_zipIdx listed
      obtain ⟨messages, given⟩ := told node.1 inside
      exact sayBehind_eq_ok.2 (((ofNode inside messages).1 given).1 check made)
  refine ⟨⟨?_, ?_⟩, ?_⟩
  · rintro ⟨found, told⟩
    exact each.1 ((ofAll found).1 told).1
  · intro told
    exact ⟨_, (ofAll _).2 ⟨each.2 told, rfl⟩⟩
  · intro found told
    obtain ⟨answered, rfl⟩ := (ofAll found).1 told
    refine (placed.flatMap_right said).trans (.of_eq ?_)
    rw [List.flatMap_assoc]
    refine List.flatMap_congr fun node member => ?_
    have inside : node.1 ∈ nodes := List.fst_mem_of_mem_zipIdx member
    obtain ⟨messages, given⟩ := each.1 answered node.1 inside
    obtain ⟨-, rfl⟩ := (ofNode inside messages).1 given
    rw [given, said_ok, List.flatMap_map, List.map_flatMap]
    exact List.flatMap_congr fun check _ => said_sayBehind _ check

end Lists

/-! ## Nodes below nodes -/

/-- A node that is written through the relations of another one, with the text of the steps to it. -/
inductive Below (graph : Graph) : Resource → Json → Resource → Json → String → Prop where
  | direct {resource target : Resource} {relation : Relation} {node value entry operations : Json} {child : Step × Json}
      (declared : relation ∈ resource.relations) (relations : node.get? "relations" = some value)
      (found : value.get? relation.name = some entry) (listed : entry.get? "operations" = some operations)
      (inside : child ∈ operations.children) (object : child.2.isObject)
      (leads : relatedResource? graph relation child.2 = .ok (some target)) :
      Below graph resource node target child.2 s!"relations.{relation.name}.operations.{child.1.text}."
  | further {resource middle target : Resource} {node inner item : Json} {start rest : String}
      (first : Below graph resource node middle inner start) (second : Below graph middle inner target item rest) :
      Below graph resource node target item (start ++ rest)

theorem Below.mem_target {node item : Json} (below : Below graph resource node target item start) :
    target ∈ graph.resources := by
  induction below with
  | direct _ _ _ _ _ _ leads => exact mem_of_relatedResource? leads
  | further _ _ _ later => exact later

section Nested

variable (sound : graph.Sound) (named : graph.Addressable)
include sound named

/-- A node below a relation has the messages that it has alone, behind the path to it. -/
private theorem answerTo_relatedNode {item : Json} (object : item.isObject) (deep : item.depth ≤ levels)
    (leads : relatedResource? graph relation item = .ok (some target)) (worded : path ≠ "") :
    answerTo graph (levels + 1) (.relatedNode relation) item path =
      sayBehind (path ++ ".") (errors graph (nodeRules target "") item) := by
  obtain ⟨members, rfl⟩ := Json.isObject_iff.1 object
  simp only [answerTo, leads, ok_bind, errorsAt]
  rw [if_neg (by simpa using worded), errors,
    errors_levels sound named (mem_of_relatedResource? leads) deep (Nat.le_refl _)]
  cases RuleSet.errors (answerTo graph (Json.object members).depth) (nodeRules target "") (.object members) <;> rfl

/-- A node that has messages writes through relations that can be written, and what the graph says of the nodes there is
among the messages. -/
private theorem answer_told (owned : resource ∈ graph.resources) (declared : relation ∈ resource.relations)
    {node value entry operations : Json} (relations : node.get? "relations" = some value)
    (inEntry : value.get? relation.name = some entry) (listed : entry.get? "operations" = some operations)
    {child : Step × Json} (inside : child ∈ operations.children) (object : child.2.isObject) {found : List String}
    (told : errors graph (nodeRules resource "") node = .ok found) :
    child.2.depth < node.depth ∧
      ∃ messages, answerTo graph node.depth (.relatedNode relation) child.2
        s!"relations.{relation.name}.operations.{child.1.text}" = .ok messages ∧ messages.Sublist found := by
  have plain (relation) (listed : relation ∈ resource.relations) := (named resource owned relation listed).1
  obtain ⟨single, noStar⟩ := named resource owned relation declared
  obtain ⟨entries, rfl⟩ : ∃ entries : Members, value = .object entries := by
    cases value with
    | object entries => exact ⟨entries, rfl⟩
    | _ => cases inEntry
  have checked {entry : String × List Constraint} (rule : entry ∈ relation.entryRules (entryPlace "" relation))
      {place : Attribute} (reached : place ∈ Attribute.expand node entry.1) := by
    refine told_of_errors told (mem_checks ?_ reached)
    rw [nodeRules_eq plain (sound resource owned).distinct]
    exact List.mem_cons_of_mem _ (List.mem_cons_of_mem _ (List.mem_flatMap.2 ⟨relation, declared, rule⟩))
  have atEntry : ⟨[.member "relations", .member relation.name], some entries, some entry⟩ ∈
      Attribute.expand node (entryPlace "" relation) :=
    (mem_expand_entryPlace single noStar).2 ⟨_, List.mem_singleton.2 rfl, node, rfl, entries, relations,
      by rw [← inEntry]; rfl⟩
  have writable : relation.isMutable := by
    by_contra frozen
    have rule : (entryPlace "" relation, [.immutable relation.name relation.kind]) ∈
        relation.entryRules (entryPlace "" relation) := by
      rw [Relation.entryRules, if_neg frozen]
      exact List.mem_singleton.2 rfl
    obtain ⟨messages, given, -⟩ := checked rule atEntry
    cases given
  have rule : (entryPlace "" relation ++ "." ++ "operations.*", [.isObject, .graph (.relatedNode relation)]) ∈
      relation.entryRules (entryPlace "" relation) := by
    rw [Relation.entryRules, if_pos writable, String.append_assoc]
    simp
  have atChild : ⟨[.member "relations", .member relation.name, .member "operations", child.1], none, some child.2⟩ ∈
      Attribute.expand node (entryPlace "" relation ++ "." ++ "operations.*") := by
    refine (Attribute.mem_expand_append (entryPlace_ne "") _).2 ⟨_, atEntry, entry, rfl, ?_⟩
    rw [show (Path.names "operations.*").map Segment.ofText = [.name "operations", .any] by decide,
      Attribute.below_member listed, Attribute.below_any]
    exact List.mem_flatMap.2 ⟨child, inside, List.mem_singleton.2 rfl⟩
  have path : Attribute.path ⟨[.member "relations", .member relation.name, .member "operations", child.1], none,
      some child.2⟩ = s!"relations.{relation.name}.operations.{child.1.text}" := by
    rw [← String.toList_inj]
    simp [Attribute.path, Step.text, Path.ofNames, String.intercalate_cons_cons, toString]
  refine ⟨?_, ?_⟩
  · exact Attribute.depth_lt_of_below atChild (by simp [Path.segments_append (entryPlace_ne ""), Path.names_ne_nil]) rfl
  · obtain ⟨messages, given, among⟩ := checked rule atChild
    rw [placeErrors_object object, path] at given
    exact ⟨messages, given, among⟩

/-- A node below another one is checked where it stands. -/
theorem Below.told {node item : Json} (below : Below graph resource node target item start)
    (owned : resource ∈ graph.resources) {found : List String}
    (told : errors graph (nodeRules resource "") node = .ok found) :
    ∃ messages, errors graph (nodeRules target "") item = .ok messages ∧ (messages.map (start ++ ·)).Sublist found := by
  induction below generalizing found with
  | @direct resource target relation node value entry operations child declared relations inEntry listed inside object
      leads =>
    obtain ⟨shallow, messages, given, among⟩ :=
      answer_told sound named owned declared relations inEntry listed inside object told
    obtain ⟨levels, deep⟩ : ∃ levels, node.depth = levels + 1 := ⟨node.depth - 1, by omega⟩
    rw [deep, answerTo_relatedNode sound named object (by omega) leads (by simp [toString])] at given
    obtain ⟨own, alone, rfl⟩ := map_eq_ok.1 given
    exact ⟨own, alone, among⟩
  | @further _ _ _ _ _ _ start _ first second ih later =>
    obtain ⟨messages, toldInner, sublist⟩ := ih owned told
    obtain ⟨others, toldItem, sublistToo⟩ := later first.mem_target toldInner
    refine ⟨others, toldItem, List.Sublist.trans ?_ sublist⟩
    have moved := sublistToo.map (start ++ ·)
    rw [List.map_map] at moved
    simpa [Function.comp_def, String.append_assoc] using moved

end Nested

/-- What is wrong with a node does not depend on where it stands. A list of nodes is refused if and only if one of them is
that stands alone; if not, the messages are those of each node alone, behind its place in the list. And a node that is
written through the relations of another one, however deep, is refused only with it, and has its own messages among those
of the other one, behind the steps to it. -/
theorem told_wherever_placed {schema : Schema} {declarations : List ResourceDeclaration}
    (built : Graph.build schema declarations = .ok graph)
    (led : ∀ declaration ∈ declarations, ∀ relation ∈ declaration.relations, relation.IsLed)
    (named : graph.Addressable) (owned : resource ∈ graph.resources) (nodes : List Json) :
    (IsRefused (errors graph (nodeRules resource "mutate.*") (.object [("mutate", .list nodes)])) ↔
      ∃ node ∈ nodes, IsRefused (errors graph (nodeRules resource "") node)) ∧
    (¬IsRefused (errors graph (nodeRules resource "mutate.*") (.object [("mutate", .list nodes)])) →
      ∃ found each, errors graph (nodeRules resource "mutate.*") (.object [("mutate", .list nodes)]) = .ok found ∧
        List.Forall₂ (fun node messages => errors graph (nodeRules resource "") node = .ok messages) nodes each ∧
        found.Perm (each.zipIdx.flatMap fun said => said.1.map (s!"mutate.{said.2}." ++ ·))) ∧
    ∀ node target item start, Below graph resource node target item start →
      (IsRefused (errors graph (nodeRules target "") item) → IsRefused (errors graph (nodeRules resource "") node)) ∧
        ∀ found, errors graph (nodeRules resource "") node = .ok found →
          ∃ messages, errors graph (nodeRules target "") item = .ok messages ∧
            (messages.map (start ++ ·)).Sublist found := by
  have sound := Graph.sound_of_build built
  have leads := Graph.led_of_build built led
  have never {resource : Resource} (owned : resource ∈ graph.resources) (path : String) (data : Json) :=
    @errors_never graph resource path sound named leads owned data
  obtain ⟨answered, told⟩ := errors_nodes sound named owned nodes
  refine ⟨?_, fun accepted => ?_, ?_⟩
  · simp only [isRefused_iff (never owned _ _), answered, not_forall, exists_prop]
  · rw [isRefused_iff (never owned _ _), not_not] at accepted
    obtain ⟨found, given⟩ := accepted
    have each := answered.1 ⟨found, given⟩
    refine ⟨found, nodes.map fun node => said (errors graph (nodeRules resource "") node), given, ?_, ?_⟩
    · rw [List.forall₂_map_right_iff, List.forall₂_same]
      intro node member
      obtain ⟨messages, alone⟩ := each node member
      dsimp only at alone
      rw [alone, said_ok]
    · rw [List.zipIdx_map, List.flatMap_map]
      exact told found given
  · intro node target item start below
    have told {found : List String} := @Below.told _ _ _ _ sound named _ _ below owned found
    refine ⟨fun refused => ?_, fun found => told⟩
    rw [isRefused_iff (never owned _ _)]
    rintro ⟨found, accepted⟩
    obtain ⟨messages, alone, -⟩ := told accepted
    exact (isRefused_iff (never below.mem_target _ _)).1 refused ⟨messages, alone⟩

namespace Remarks

/-- A remark with a note, of which remarks have none. -/
def noted (more : Members) : Json := .object (more ++ [("note", .int 1)])

/-- A remark on a remark with a note. -/
def reply : Json :=
  .object [("relations", .object [("subject",
    .object [("operations", .list [noted [("resource", .text "Remark")]])])])]

/-- The note is told of wherever the remark with it stands. -/
theorem told_of_notes :
    ∃ found, errors ⟨[remark]⟩ (nodeRules remark "mutate.*") (.object [("mutate", .list [noted [], reply])]) = .ok found ∧
      found.Perm ["mutate.0.note: field is not fillable on Remark",
        "mutate.1.relations.subject.operations.0.note: field is not fillable on Remark"] := by
  have built : Graph.build schema [declaration] = .ok ⟨[remark]⟩ := rfl
  have led : ∀ declared ∈ [declaration], ∀ relation ∈ declared.relations, relation.IsLed := by
    simp [declaration, RelationDeclaration.IsLed]
  obtain ⟨refused, told, -⟩ :=
    told_wherever_placed built led (by decide) List.mem_cons_self [noted [], reply]
  have first : errors ⟨[remark]⟩ (nodeRules remark "") (noted []) = .ok ["note: field is not fillable on Remark"] := rfl
  have second : errors ⟨[remark]⟩ (nodeRules remark "") reply =
      .ok ["relations.subject.operations.0.note: field is not fillable on Remark"] := rfl
  obtain ⟨found, each, given, alone, among⟩ := told (refused.not.2 (by simp [first, second, IsRefused]))
  refine ⟨found, given, ?_⟩
  cases alone with
  | cons one rest => cases rest with
    | cons two rest =>
      cases rest
      rw [first] at one
      rw [second] at two
      cases one
      cases two
      exact among

end Remarks

end Mutation

end ResourceApi
