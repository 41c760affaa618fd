import ResourceApi.Proofs.Query.Truth
import ResourceApi.Query.Related

/-!
Which records a relation links. Two records are linked by columns of theirs that agree, through the rows of a table
between them if there is one; what queries bring in for a relation is exactly that.
-/

namespace ResourceApi

open Outcome Query

/-! ## Rows that are linked -/

/-- Whether a column holds a value. -/
def Table.holds (table : Table) (row : Row) (column : String) (value : Json) : Bool :=
  Truth.holds (Comparison.equal.outcome (table.ref 0 0 column).type (row.cell column) value)

/-- Whether two columns have one value; null is no value. -/
def Table.agrees (table : Table) (row : Row) (column : String) (other : Table) (record : Row) (key : String) : Bool :=
  row.cell column != .null && record.cell key != .null &&
    Cell.orderBetween (table.ref 0 0 column).type.affinity (other.ref 0 0 key).type.affinity (row.cell column)
      (record.cell key) == .eq

/-- Whether a record is not marked as deleted. -/
def Resource.isLive (resource : Resource) (row : Row) : Bool :=
  resource.deletedAt.all fun column => row.cell column == .null

namespace Link

variable (rows : String → List Row) (owner target : Resource)

/-- The records of the target, each with the row of the table between if there is one. -/
def frames : Link → List Frame
  | .child _ | .parent _ => (rows target.table.name).map fun record => [record]
  | .pivot link => (rows target.table.name).flatMap fun record =>
      ((rows link.table.name).filter fun between =>
        link.table.agrees between link.relatedKey target.table record link.targetKey).map fun between => [record, between]
  | .through link => (rows target.table.name).flatMap fun record =>
      ((rows link.table.name).filter fun between =>
        target.table.agrees record link.secondKey link.table between link.secondLocalKey).map fun between =>
          [record, between]

/-- Whether the link leads from a record of the owner to a record of the target. -/
def ties (parent : Row) (frame : Frame) : Link → Bool
  | .child link => target.table.agrees (frame.getD 0 []) link.foreignKey owner.table parent link.localKey
  | .parent link => target.table.agrees (frame.getD 0 []) link.ownerKey owner.table parent link.foreignKey
  | .pivot link => link.table.agrees (frame.getD 1 []) link.foreignKey owner.table parent link.localKey
  | .through link => link.table.agrees (frame.getD 1 []) link.firstKey owner.table parent link.localKey

/-- Whether the related side tells the right type, if it tells any. -/
def isOfType (frame : Frame) : Link → Bool
  | .child link => link.morphType.all fun column => target.table.holds (frame.getD 0 []) column owner.morphAlias
  | .pivot link => link.morph.all fun (column, side) =>
      link.table.holds (frame.getD 1 []) column (if side = .parent then owner.morphAlias else target.morphAlias)
  | _ => true

/-- Whether the record of the owner tells the type of the target, if it tells any. -/
def leadsTo (parent : Row) : Link → Bool
  | .parent link => link.morphType.all fun column => owner.table.holds parent column target.morphAlias
  | _ => true

/-- Whether the record is the one that the link picks out of those that belong to the same record, if it picks one. -/
def picks (frame : Frame) : Link → Bool
  | .child link => link.pick.all fun pick =>
      let record := frame.getD 0 []
      let rivals := (rows target.table.name).filter fun rival =>
        target.table.agrees rival link.foreignKey target.table record link.foreignKey && target.isLive rival &&
          Link.isOfType owner target [rival] (.child link)
      Truth.holds (compare .equal (target.table.ref 0 0 pick.column).type.affinity (record.cell pick.column)
        (extremeOf pick.extreme (rivals.map (·.cell pick.column))))
  | _ => true

/-- Whether the related side is as the link demands: there, of the right type, and picked. -/
def accepts (link : Link) (frame : Frame) : Bool :=
  target.isLive (frame.getD 0 []) && link.isOfType owner target frame && link.picks rows owner target frame

/-- The records of the target that the link leads to from a record of the owner. -/
def related (link : Link) (parent : Row) : List Frame :=
  (link.frames rows target).filter fun frame =>
    link.ties owner target parent frame && link.leadsTo owner target parent && link.accepts rows owner target frame

end Link

/-- How many rows a related record is given by. -/
def Link.width : Link → Nat
  | .child _ | .parent _ => 1
  | .pivot _ | .through _ => 2

theorem Link.length_of_mem_frames {rows : String → List Row} {target : Resource} {link : Link} {frame : Frame}
    (inside : frame ∈ link.frames rows target) : frame.length = link.width := by
  cases link with
  | child link | parent link =>
    obtain ⟨record, -, rfl⟩ := List.mem_map.1 inside
    rfl
  | pivot link | through link =>
    obtain ⟨record, -, further⟩ := List.mem_flatMap.1 inside
    obtain ⟨between, -, rfl⟩ := List.mem_map.1 further
    rfl

/-! ## What queries bring in -/

namespace Query

variable {ground : Ground} {frames : List Frame}

theorem holds_linked (ref other : ColumnRef) :
    holds ground frames (.linked ref other) =
      (cellOf frames ref != .null && cellOf frames other != .null &&
        Cell.orderBetween ref.type.affinity other.type.affinity (cellOf frames ref) (cellOf frames other) == .eq) := by
  change Truth.holds (if cellOf frames ref = .null || cellOf frames other = .null then none else
    some (Cell.orderBetween ref.type.affinity other.type.affinity (cellOf frames ref) (cellOf frames other) == .eq)) = _
  by_cases first : cellOf frames ref = .null
  · simp [first, Truth.holds]
  · by_cases second : cellOf frames other = .null
    · simp [second, Truth.holds]
    · cases Cell.orderBetween ref.type.affinity other.type.affinity (cellOf frames ref) (cellOf frames other) == .eq <;>
        simp [first, second, Truth.holds]

/-- Columns of two tables are linked by the rows that stand in their places. -/
theorem holds_linked_ref {table other : Table} {frame slot place position : Nat} {column key : String} :
    holds ground frames (.linked (table.ref frame slot column) (other.ref place position key)) =
      table.agrees ((frames.getD frame []).getD slot []) column other ((frames.getD place []).getD position []) key :=
  holds_linked _ _

theorem holds_typed {table : Table} {slot : Nat} {column : String} {morphAlias : Json} {condition : Cond}
    (made : Related.typed table slot column morphAlias = .ok condition) :
    holds ground frames condition = table.holds ((frames.getD 0 []).getD slot []) column morphAlias := by
  rw [holds, Comparison.truth_ofComparison made]
  rfl

theorem all_alive (resource : Resource) (slot : Nat) :
    (Related.alive resource slot).all (holds ground frames) = resource.isLive ((frames.getD 0 []).getD slot []) := by
  unfold Related.alive Resource.isLive
  cases resource.deletedAt with
  | none => rfl
  | some column => simp [holds_isNull, cellOf, Table.ref]

end Query

namespace Related

variable {owner target : Resource} {relation : Relation} {slot : Nat} {related : Related} {ground : Ground}
  {outer : List Frame} {front : Frame}

/-- Two tables joined: the rows of the second that meet the condition with a row of the first. -/
private theorem extend_join {first second : String} {on : Cond} {meets : Row → Row → Bool}
    (decided : ∀ record between, holds ground ((front ++ [record] ++ [between]) :: outer) on = meets record between) :
    extend ground outer (.join (.table first) (.table second) [on]) front =
      ((ground.rows first).flatMap fun record =>
        ((ground.rows second).filter (meets record)).map fun between => [record, between]).map (front ++ ·) := by
  simp only [extend, List.flatMap_map, List.map_flatMap, List.map_map, List.filter_map, holds_truths, List.all_cons,
    List.all_nil, Bool.and_true]
  refine congrArg (List.flatMap · _) (funext fun record => ?_)
  have same : (fun both => holds ground (both :: outer) on) ∘ (fun between => front ++ [record] ++ [between]) =
      meets record := funext fun between => decided record between
  rw [same]
  simp [Function.comp_def]

private theorem getD_at (front frame later : Frame) (place : Nat) (inside : place < frame.length) :
    (front ++ frame ++ later).getD (front.length + place) [] = frame.getD place [] := by
  have notBefore : ¬front.length + place < front.length := by omega
  simp [List.getD_eq_getElem?_getD, List.getElem?_append, inside, notBefore]

/-- The rows of a source are those of the link, behind the rows in hand. -/
theorem extend_source (built : ofTarget owner relation target slot = .ok related) (place : front.length = slot) :
    extend ground outer related.source front = (relation.link.frames ground.rows target).map (front ++ ·) := by
  unfold ofTarget at built
  cases same : relation.link with
  | child link =>
    simp only [same, ofChild, bind_eq_ok, pure_eq_ok] at built
    obtain ⟨_, -, _, -, rfl⟩ := built
    simp [extend, Link.frames, Function.comp_def]
  | parent link =>
    simp only [same] at built
    cases built
    simp [ofParent, extend, Link.frames, Function.comp_def]
  | pivot link =>
    simp only [same, ofPivot, bind_eq_ok, pure_eq_ok] at built
    obtain ⟨_, -, rfl⟩ := built
    refine extend_join fun record between => ?_
    rw [holds_linked_ref]
    subst place
    simp
  | through link =>
    simp only [same] at built
    cases built
    refine extend_join fun record between => ?_
    rw [holds_linked_ref]
    subst place
    simp

theorem ofTarget_eq_ok (built : ofTarget owner relation target slot = .ok related) :
    related.relation = relation ∧ related.target = target ∧ related.slot = slot := by
  unfold ofTarget at built
  split at built
  · simp only [ofChild, bind_eq_ok, pure_eq_ok] at built
    obtain ⟨_, -, _, -, rfl⟩ := built
    exact ⟨rfl, rfl, rfl⟩
  · cases built
    exact ⟨rfl, rfl, rfl⟩
  · simp only [ofPivot, bind_eq_ok, pure_eq_ok] at built
    obtain ⟨_, -, rfl⟩ := built
    exact ⟨rfl, rfl, rfl⟩
  · cases built
    exact ⟨rfl, rfl, rfl⟩

theorem width_eq (built : ofTarget owner relation target slot = .ok related) : related.width = relation.link.width := by
  unfold ofTarget at built
  cases same : relation.link with
  | child link =>
    simp only [same, ofChild, bind_eq_ok, pure_eq_ok] at built
    obtain ⟨_, -, _, -, rfl⟩ := built
    rfl
  | parent link | through link =>
    simp only [same] at built
    cases built
    rfl
  | pivot link =>
    simp only [same, ofPivot, bind_eq_ok, pure_eq_ok] at built
    obtain ⟨_, -, rfl⟩ := built
    rfl

theorem all_ofType {link : ChildLink} {frames : List Frame} {conditions : List Cond}
    (made : ofType owner target link slot = .ok conditions) :
    conditions.all (holds ground frames) =
      Link.isOfType owner target [(frames.getD 0 []).getD slot []] (.child link) := by
  unfold ofType at made
  cases morph : link.morphType with
  | none =>
    rw [morph] at made
    cases made
    simp [Link.isOfType, morph]
  | some column =>
    simp only [morph, Option.toList_some, List.mapM_cons, List.mapM_nil, bind_eq_ok, pure_eq_ok] at made
    obtain ⟨condition, typed, _, rfl, rfl⟩ := made
    simp [holds_typed typed, Link.isOfType, morph]

private theorem holds_pick {ref of : ColumnRef} {extreme : Extreme} {source : Source} {conditions : List Cond}
    {frames : List Frame} :
    holds ground frames (.picked ref extreme of source conditions) =
      Truth.holds (Query.compare .equal ref.type.affinity (cellOf frames ref) (extremeOf extreme
        ((Query.matching ground frames source conditions).map fun frame => cellOf (frame :: frames) of))) :=
  rfl

theorem all_picked {link : ChildLink} {frame : Frame} {conditions : List Cond}
    (made : picked owner target link slot = .ok conditions) :
    conditions.all (holds ground (frame :: outer)) =
      Link.picks ground.rows owner target [frame.getD slot []] (.child link) := by
  unfold picked at made
  cases pick : link.pick with
  | none =>
    rw [pick] at made
    cases made
    simp [Link.picks, pick]
  | some choice =>
    simp only [pick, bind_eq_ok, pure_eq_ok] at made
    obtain ⟨types, typed, rfl⟩ := made
    simp only [List.all_cons, List.all_nil, Bool.and_true, holds_pick, Link.picks, pick, Option.all_some]
    have outside : { target.table.ref 0 slot link.foreignKey with frame := 1 } = target.table.ref 1 slot link.foreignKey :=
      rfl
    have rivals : (Query.matching ground (frame :: outer) (.table target.table.name)
        (.linked (target.table.ref 0 0 link.foreignKey) (target.table.ref 1 slot link.foreignKey) ::
          alive target 0 ++ types)) =
        ((ground.rows target.table.name).filter fun rival =>
          target.table.agrees rival link.foreignKey target.table (frame.getD slot []) link.foreignKey &&
            target.isLive rival && Link.isOfType owner target [rival] (.child link)).map fun rival => [rival] := by
      rw [matching_eq_filter, extend]
      simp only [List.nil_append, List.filter_map]
      refine congrArg (List.map _) (List.filter_congr fun rival _ => ?_)
      simp only [Function.comp_apply, List.all_append, List.all_cons, all_alive, all_ofType typed, holds_linked_ref,
        List.getD_cons_zero, List.getD_cons_succ, Bool.and_assoc]
    rw [outside, rivals, List.map_map]
    rfl

section Held

variable (built : ofTarget owner relation target slot = .ok related) (placed : front.length = slot) {frame : Frame}
  (whole : frame.length = relation.link.width)

include placed whole in
private theorem getD_record (later : Frame) : (front ++ frame ++ later).getD slot [] = frame.getD 0 [] := by
  have nonempty : 0 < frame.length := by
    rw [whole]
    cases relation.link <;> simp [Link.width]
  simpa [placed] using getD_at front frame later 0 nonempty

include placed whole in
private theorem getD_between (later : Frame) (double : relation.link.width = 2) :
    (front ++ frame ++ later).getD (slot + 1) [] = frame.getD 1 [] := by
  rw [← placed]
  exact getD_at front frame later 1 (by omega)

include built placed whole

/-- The matching columns agree when the link ties the two rows. -/
theorem holds_matching (later : Frame) (place position : Nat) :
    holds ground ((front ++ frame ++ later) :: outer)
        (.linked related.matching (owner.table.ref place position related.parentColumn)) =
      relation.link.ties owner target
        ((((front ++ frame ++ later) :: outer).getD place []).getD position []) frame := by
  have record := getD_record placed whole later
  unfold ofTarget at built
  cases same : relation.link with
  | child link =>
    simp only [same, ofChild, bind_eq_ok, pure_eq_ok] at built
    obtain ⟨_, -, _, -, rfl⟩ := built
    rw [holds_linked_ref, List.getD_cons_zero, record]
    rfl
  | parent link =>
    simp only [same] at built
    cases built
    rw [ofParent, holds_linked_ref, List.getD_cons_zero, record]
    rfl
  | pivot link =>
    have between := getD_between placed whole later (by rw [same]; rfl)
    simp only [same, ofPivot, bind_eq_ok, pure_eq_ok] at built
    obtain ⟨_, -, rfl⟩ := built
    rw [holds_linked_ref, List.getD_cons_zero, between]
    rfl
  | through link =>
    have between := getD_between placed whole later (by rw [same]; rfl)
    simp only [same] at built
    cases built
    rw [ofThrough, holds_linked_ref, List.getD_cons_zero, between]
    rfl

/-- The conditions on the related side are what the link demands of it. -/
theorem all_conditions (later : Frame) :
    related.conditions.all (holds ground ((front ++ frame ++ later) :: outer)) =
      relation.link.accepts ground.rows owner target frame := by
  have record := getD_record placed whole later
  have live : (alive target slot).all (holds ground ((front ++ frame ++ later) :: outer)) =
      target.isLive (frame.getD 0 []) := by
    rw [all_alive, List.getD_cons_zero, record]
  unfold ofTarget at built
  cases same : relation.link with
  | child link =>
    simp only [same, ofChild, bind_eq_ok, pure_eq_ok] at built
    obtain ⟨pick, picked, types, typed, rfl⟩ := built
    simp only [List.all_append, live, Link.accepts, all_ofType typed, all_picked picked, List.getD_cons_zero, record]
    rfl
  | parent link =>
    simp only [same] at built
    cases built
    simp only [ofParent, live, Link.accepts, Link.isOfType, Link.picks, Bool.and_true]
  | pivot link =>
    have between := getD_between placed whole later (by rw [same]; rfl)
    simp only [same, ofPivot, bind_eq_ok, pure_eq_ok] at built
    obtain ⟨types, typed, rfl⟩ := built
    simp only [List.all_append, live, Link.accepts, Link.picks, Bool.and_true, Link.isOfType]
    congr 1
    cases morph : link.morph with
    | none =>
      rw [morph] at typed
      cases typed
      rfl
    | some entry =>
      obtain ⟨column, side⟩ := entry
      simp only [morph, Option.toList_some, List.mapM_cons, List.mapM_nil, bind_eq_ok, pure_eq_ok] at typed
      obtain ⟨condition, made, _, rfl, rfl⟩ := typed
      simp only [List.all_cons, List.all_nil, Bool.and_true, holds_typed made, List.getD_cons_zero, between, Option.all_some]
      cases side <;> rfl
  | through link =>
    simp only [same] at built
    cases built
    simp only [ofThrough, live, Link.accepts, Link.isOfType, Link.picks, Bool.and_true]

end Held

end Related

end ResourceApi
