import ResourceApi.Proofs.Relation.Linked
import ResourceApi.Proofs.Resource.Paths

/-!
Records at the end of relation paths. A query that joins the tables along a path finds a row there exactly when following
the relations one by one finds it.
-/

namespace ResourceApi

open Outcome Query

namespace Graph

/-- The records to which some hops lead from a record, one hop after the other. -/
def reached (graph : Graph) (rows : String → List Row) : List (Resource × Relation) → Row → List Row
  | [], record => [record]
  | (owner, relation) :: rest, record =>
    match graph.target relation with
    | .ok target =>
      (relation.link.related rows owner target record).flatMap fun frame => graph.reached rows rest (frame.getD 0 [])
    | .error _ => []

/-- Hops each of which starts where the one before it ends. -/
def Chained (graph : Graph) : Resource → List (Resource × Relation) → Prop
  | _, [] => True
  | resource, (owner, relation) :: rest =>
    owner = resource ∧ relation ∈ resource.relations ∧
      (relation.isNestable → ∀ target, graph.target relation = .ok target → graph.Chained target rest)

variable {graph : Graph} {resource : Resource}

theorem chained_of_walk {names : List String} {hops : List (Resource × Relation)}
    (walked : graph.walk resource names = .ok hops) : graph.Chained resource hops := by
  induction names generalizing resource hops with
  | nil =>
    cases walked
    trivial
  | cons name rest ih =>
    rw [walk] at walked
    split at walked
    · cases walked
    · next relation found =>
      simp only [bind_eq_ok, pure_eq_ok] at walked
      obtain ⟨next, goesOn, further, after, rfl⟩ := walked
      refine ⟨rfl, (Resource.mem_of_relation? found).1, fun nestable target leads => ?_⟩
      rw [behind, if_pos nestable, leads] at goesOn
      cases goesOn
      exact ih after

/-- A walk that begins with a relation to one resource goes on from there. -/
theorem walk_cons {relation : Relation} {target : Resource} (sound : resource.Sound graph)
    (declared : relation ∈ resource.relations) (nestable : relation.isNestable)
    (leadsTo : graph.target relation = .ok target) (names : List String) :
    graph.walk resource (relation.name :: names) = (graph.walk target names).map ((resource, relation) :: ·) := by
  rw [walk, sound.relation?_eq declared]
  simp only [behind, if_pos nestable, leadsTo, ok_bind]
  cases graph.walk target names <;> rfl

end Graph

/-- Records do not tell the type of what a relation to one resource leads to. -/
theorem Relation.Sound.leadsTo {graph : Graph} {owner : Resource} {relation : Relation} (sound : relation.Sound graph owner)
    (single : relation.kind ≠ .morphTo) (target : Resource) (parent : Row) :
    relation.link.leadsTo owner target parent := by
  cases same : relation.link with
  | parent link => simp [Link.leadsTo, sound.untyped link same single]
  | child link | pivot link | through link => rfl

namespace RelatedPath

variable {graph : Graph} {ground : Ground} {outer : List Frame} {hops : List (Resource × Relation)}

/-- A hop that a query joins leads to one resource, and its records do not tell the type of what they lead to. -/
private theorem hop_of_single {owner : Resource} {relation : Relation} {slot : Nat} {related : Related}
    (sound : relation.Sound graph owner) (built : Related.single graph owner relation slot = .ok related) :
    relation.isNestable ∧ graph.target relation = .ok related.target ∧
      Related.ofTarget owner relation related.target slot = .ok related ∧ related.slot = slot ∧
        related.parentType = none ∧ ∀ parent, relation.link.leadsTo owner related.target parent := by
  unfold Related.single at built
  split at built
  · cases built
  · next single =>
    obtain ⟨target, leads, made⟩ := bind_eq_ok.1 built
    obtain ⟨-, sameTarget, sameSlot⟩ := Related.ofTarget_eq_ok made
    refine ⟨by simpa [Relation.isNestable, Kind.isNestable] using single, sameTarget ▸ leads, sameTarget ▸ made, sameSlot,
      ?_, sound.leadsTo single _⟩
    unfold Related.ofTarget at made
    cases same : relation.link with
    | child link =>
      simp only [same, Related.ofChild, bind_eq_ok, pure_eq_ok] at made
      obtain ⟨_, -, _, -, rfl⟩ := made
      rfl
    | parent link =>
      simp only [same] at made
      cases made
      simp [Related.ofParent, sound.untyped link same single]
    | pivot link =>
      simp only [same, Related.ofPivot, bind_eq_ok, pure_eq_ok] at made
      obtain ⟨_, -, rfl⟩ := made
      rfl
    | through link =>
      simp only [same] at made
      cases made
      rfl

/-- Joining one more hop goes on from the record at the end of a row to those that the hop links with it. -/
private theorem extend_hop {owner : Resource} {relation : Relation} {path : RelatedPath} {next : Related} {joined : Frame}
    (built : Related.ofTarget owner relation next.target joined.length = .ok next) (same : owner = path.last.target)
    (leads : ∀ parent, relation.link.leadsTo owner next.target parent) (placed : path.last.slot < joined.length) :
    (Query.extend ground outer next.source joined).filter (fun both => Truth.holds (Truth.all (truths ground (both :: outer)
        (Cond.conjuncts (.linked next.matching (path.last.target.table.ref 0 path.last.slot next.parentColumn) ::
          next.conditions))))) =
      (relation.link.related ground.rows owner next.target (joined.getD path.last.slot [])).map (joined ++ ·) := by
  subst same
  rw [Related.extend_source built rfl, List.filter_map, Link.related]
  refine congrArg (List.map _) (List.filter_congr fun frame inside => ?_)
  have whole := Link.length_of_mem_frames inside
  have matched : holds ground ((joined ++ frame) :: outer)
      (.linked next.matching (path.last.target.table.ref 0 path.last.slot next.parentColumn)) =
        relation.link.ties path.last.target next.target (joined.getD path.last.slot []) frame := by
    have row : (joined ++ frame).getD path.last.slot [] = joined.getD path.last.slot [] := by
      rw [List.getD_eq_getElem?_getD, List.getElem?_append_left placed, List.getD_eq_getElem?_getD]
    rw [← row]
    simpa using Related.holds_matching built rfl whole [] 0 path.last.slot
  have accepted : next.conditions.all (holds ground ((joined ++ frame) :: outer)) =
      relation.link.accepts ground.rows path.last.target next.target frame := by
    rw [← Related.all_conditions built rfl whole [], List.append_nil]
  rw [Function.comp_apply, holds_truths, all_conjuncts, List.all_cons, matched, accepted, leads, Bool.and_true]

/-- Joining further hops to a path adds the records that they reach, and keeps what is asked of the rows before. -/
private theorem filter_extend (sound : graph.Sound) (path : RelatedPath) {joined : RelatedPath} {width : Nat}
    (member : path.last.target ∈ graph.resources) (chained : graph.Chained path.last.target hops)
    (extended : extend graph path width hops = .ok joined) (placed : path.last.slot < width)
    (uniform : ∀ frame ∈ Query.extend ground outer path.source [], frame.length = width) (asked : Frame → Bool)
    (stable : ∀ frame later, frame.length = width → asked (frame ++ later) = asked frame) :
    joined.conditions = path.conditions ∧
      ((Query.extend ground outer joined.source []).filter asked).map (·.getD joined.last.slot []) =
        ((Query.extend ground outer path.source []).filter asked).flatMap fun frame =>
          graph.reached ground.rows hops (frame.getD path.last.slot []) := by
  induction hops generalizing path width with
  | nil =>
    cases extended
    simp [Graph.reached, List.map_eq_flatMap]
  | cons hop rest ih =>
    obtain ⟨owner, relation⟩ := hop
    obtain ⟨rfl, declared, later⟩ := chained
    obtain ⟨next, made, further⟩ := bind_eq_ok.1 extended
    have relationSound := (sound _ member).relations relation declared
    obtain ⟨nestable, leads, built, atWidth, -, free⟩ := hop_of_single relationSound made
    have brought : Query.extend ground outer (.join path.source next.source (Cond.conjuncts (.linked next.matching
        (path.last.target.table.ref 0 path.last.slot next.parentColumn) :: next.conditions))) [] =
        (Query.extend ground outer path.source []).flatMap fun front =>
          (relation.link.related ground.rows path.last.target next.target (front.getD path.last.slot [])).map
            (front ++ ·) := by
      rw [Query.extend]
      refine List.flatMap_congr fun front inside => ?_
      have length := uniform front inside
      exact extend_hop (length ▸ built) rfl free (length ▸ placed)
    have wider : next.slot < width + next.width := by
      rw [atWidth, Related.width_eq built]
      cases relation.link <;> simp [Link.width]
    have lengths : ∀ frame ∈ Query.extend ground outer (.join path.source next.source (Cond.conjuncts (.linked next.matching
        (path.last.target.table.ref 0 path.last.slot next.parentColumn) :: next.conditions))) [],
          frame.length = width + next.width := by
      intro frame inside
      rw [brought] at inside
      obtain ⟨front, before, further⟩ := List.mem_flatMap.1 inside
      obtain ⟨added, related, rfl⟩ := List.mem_map.1 further
      rw [List.length_append, uniform front before, Related.width_eq built,
        Link.length_of_mem_frames (List.mem_of_mem_filter related)]
    have stillStable (frame later : Frame) (length : frame.length = width + next.width) :
        asked (frame ++ later) = asked frame := by
      have cut : (frame.take width).length = width := by
        rw [List.length_take]
        omega
      rw [← List.take_append_drop width frame, List.append_assoc, stable _ _ cut, stable _ _ cut]
    obtain ⟨sameConditions, found⟩ := ih _ (Graph.mem_of_target leads) (later nestable _ leads) further wider lengths
      stillStable
    refine ⟨sameConditions, found.trans ?_⟩
    rw [brought, List.filter_flatMap, List.flatMap_assoc, flatMap_filter]
    refine List.flatMap_congr fun front inside => ?_
    have length := uniform front inside
    have first (added : Frame) : (front ++ added).getD next.slot [] = added.getD 0 [] := by
      simp [List.getD_eq_getElem?_getD, List.getElem?_append, atWidth, ← length]
    simp only [List.filter_map, Function.comp_def, stable _ _ length, List.flatMap_map, first, Graph.reached, leads]
    cases asked front <;> simp

/-- The rows that a query finds at the end of some hops are those that following the hops finds. -/
theorem filter_ofHops (sound : graph.Sound) {parent : Resource} (member : parent ∈ graph.resources)
    (chained : graph.Chained parent hops) {slot : Nat} {path : RelatedPath}
    (joined : ofHops graph parent.table slot hops = .ok path) :
    ((Query.extend ground outer path.source []).filter fun frame => path.conditions.all (holds ground (frame :: outer))).map
        (·.getD path.last.slot []) =
      graph.reached ground.rows hops ((outer.getD 0 []).getD slot []) := by
  cases hops with
  | nil => cases joined
  | cons hop rest =>
    obtain ⟨owner, relation⟩ := hop
    obtain ⟨rfl, declared, later⟩ := chained
    obtain ⟨first, made, extended⟩ := bind_eq_ok.1 joined
    obtain ⟨conditions, correlated, further⟩ := bind_eq_ok.1 extended
    obtain ⟨nestable, leads, built, start, untyped, free⟩ := hop_of_single ((sound _ member).relations relation declared) made
    have width := Related.width_eq built
    have all (frame later : Frame) (length : frame.length = first.width) :
        conditions.all (holds ground ((frame ++ later) :: outer)) =
          (relation.link.ties owner first.target ((outer.getD 0 []).getD slot []) frame &&
            relation.link.accepts ground.rows owner first.target frame) := by
      simp only [Related.correlated, untyped, Option.toList_none, List.mapM_nil, bind_eq_ok, pure_eq_ok,
        exists_eq_left', List.append_nil] at correlated
      have whole := length.trans width
      have matched : holds ground (([] ++ frame ++ later) :: outer)
          (.linked first.matching (owner.table.ref 1 slot first.parentColumn)) =
            relation.link.ties owner first.target (((([] ++ frame ++ later) :: outer).getD 1 []).getD slot []) frame :=
        Related.holds_matching built rfl whole later 1 slot
      have accepted : first.conditions.all (holds ground (([] ++ frame ++ later) :: outer)) =
          relation.link.accepts ground.rows owner first.target frame :=
        Related.all_conditions built rfl whole later
      rw [List.nil_append] at matched accepted
      rw [← correlated, List.all_cons, matched, accepted, List.getD_cons_succ]
    have alone : Query.extend ground outer first.source [] = relation.link.frames ground.rows first.target := by
      rw [Related.extend_source built rfl]
      exact List.map_id _
    have lengths : ∀ frame ∈ Query.extend ground outer first.source [], frame.length = first.width := by
      intro frame inside
      rw [alone] at inside
      rw [width, Link.length_of_mem_frames inside]
    have placed : first.slot < first.width := by
      rw [start, width]
      cases relation.link <;> simp [Link.width]
    have stable (frame later : Frame) (length : frame.length = first.width) :
        conditions.all (holds ground ((frame ++ later) :: outer)) = conditions.all (holds ground (frame :: outer)) := by
      rw [all frame later length, ← all frame [] length, List.append_nil]
    obtain ⟨sameConditions, found⟩ := filter_extend sound ⟨first, first.source, conditions⟩ (Graph.mem_of_target leads)
      (later nestable _ leads) further placed lengths (fun frame => conditions.all (holds ground (frame :: outer))) stable
    rw [sameConditions, found]
    simp only [alone, Graph.reached, leads, Link.related, start]
    refine congrArg (List.flatMap _) (List.filter_congr fun frame inside => ?_)
    have held := all frame [] ((Link.length_of_mem_frames inside).trans width.symm)
    rw [List.append_nil] at held
    rw [held, free, Bool.and_true]

/-- A row at the end of some hops is found by a query exactly when following the hops finds it. -/
theorem any_ofHops (sound : graph.Sound) {parent : Resource} (member : parent ∈ graph.resources)
    (chained : graph.Chained parent hops) {slot : Nat} {path : RelatedPath}
    (joined : ofHops graph parent.table slot hops = .ok path) (wanted : Row → Bool) :
    ((Query.extend ground outer path.source []).any fun frame =>
      path.conditions.all (holds ground (frame :: outer)) && wanted (frame.getD path.last.slot [])) =
      (graph.reached ground.rows hops ((outer.getD 0 []).getD slot [])).any wanted := by
  rw [← filter_ofHops sound member chained joined, List.any_map, List.any_filter]
  rfl

end RelatedPath

end ResourceApi
