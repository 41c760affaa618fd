import ResourceApi.Proofs.Relation.Linked

/-!
Records that queries bring in for one record through a relation. They are the ones that the link leads to from it, and for
each kind of link it is plain which those are.
-/

namespace ResourceApi

open Outcome

/-! ## Records that queries bring in -/

namespace Related

variable {owner target : Resource} {relation : Relation} {slot : Nat}

/-- The records of a target that a query brings in for a record, which stands alone in the query around it. -/
def broughtIn (owner target : Resource) (relation : Relation) (database : Database) (parent : Row) :
    Except Failure (List Row) := do
  let related ← ofTarget owner relation target 0
  let conditions ← related.correlated owner.table 1 0
  return (Query.matching ⟨database.rows, []⟩ [[parent]] related.source conditions).map (·.getD 0 [])

/-- A column can be compared for equality with any values. -/
private theorem mapM_equal {α : Type} (entries : List α) (column : α → ColumnRef) (value : α → Json) :
    ∃ conditions, entries.mapM (fun entry => Cond.ofComparison .equal (column entry) (value entry)) = .ok conditions := by
  have each (entry : α) : ∃ condition, Cond.ofComparison .equal (column entry) (value entry) = .ok condition := by
    cases value entry <;> exact ⟨_, rfl⟩
  obtain ⟨conditions, made⟩ := exists_forall₂ fun entry (_ : entry ∈ entries) => each entry
  exact ⟨conditions, mapM_eq_ok.2 made⟩

theorem ofTarget_total (owner target : Resource) (relation : Relation) (slot : Nat) :
    ∃ related, ofTarget owner relation target slot = .ok related := by
  unfold ofTarget
  cases relation.link with
  | child link =>
    have ofType (slot : Nat) : ∃ conditions, Related.ofType owner target link slot = .ok conditions := mapM_equal _ _ _
    obtain ⟨pick, picked⟩ : ∃ pick, Related.picked owner target link slot = .ok pick := by
      unfold Related.picked
      cases link.pick with
      | none => exact ⟨_, rfl⟩
      | some pick =>
        obtain ⟨conditions, made⟩ := ofType 0
        exact ⟨_, bind_eq_ok.2 ⟨conditions, made, rfl⟩⟩
    obtain ⟨conditions, made⟩ := ofType slot
    exact ⟨_, bind_eq_ok.2 ⟨pick, picked, bind_eq_ok.2 ⟨conditions, made, rfl⟩⟩⟩
  | parent link | through link => exact ⟨_, rfl⟩
  | pivot link =>
    obtain ⟨conditions, made⟩ := mapM_equal link.morph.toList (fun entry => link.table.ref 0 (slot + 1) entry.1)
      fun entry => if entry.2 = .parent then owner.morphAlias else target.morphAlias
    refine ⟨_, bind_eq_ok.2 ⟨conditions, ?_, rfl⟩⟩
    rw [← made]
    congr 1
    funext entry
    obtain ⟨column, side⟩ := entry
    cases side <;> rfl

theorem correlated_total (related : Related) (parent : Table) (frame slot : Nat) :
    ∃ conditions, related.correlated parent frame slot = .ok conditions := by
  obtain ⟨types, typed⟩ := mapM_equal related.parentType.toList (fun entry => parent.ref frame slot entry.1) (·.2)
  exact ⟨_, bind_eq_ok.2 ⟨types, typed, rfl⟩⟩

/-- The conditions on the record itself are that the link leads to the target. -/
private theorem all_parentType {ground : Ground} {frame : Frame} {parent : Row} {related : Related} {types : List Cond}
    (built : ofTarget owner relation target slot = .ok related)
    (typed : related.parentType.toList.mapM (fun entry => Cond.ofComparison .equal (owner.table.ref 1 0 entry.1) entry.2) =
      .ok types) :
    types.all (Query.holds ground [frame, [parent]]) = relation.link.leadsTo owner target parent := by
  unfold ofTarget at built
  cases same : relation.link with
  | child link =>
    simp only [same, ofChild, bind_eq_ok, pure_eq_ok] at built
    obtain ⟨_, -, _, -, rfl⟩ := built
    cases typed
    rfl
  | pivot link =>
    simp only [same, ofPivot, bind_eq_ok, pure_eq_ok] at built
    obtain ⟨_, -, rfl⟩ := built
    cases typed
    rfl
  | through link =>
    simp only [same] at built
    cases built
    cases typed
    rfl
  | parent link =>
    simp only [same] at built
    cases built
    cases morph : link.morphType with
    | none =>
      simp only [ofParent, morph] at typed
      cases typed
      simp [Link.leadsTo, morph]
    | some column =>
      simp only [ofParent, morph, Option.map_some, Option.toList_some, List.mapM_cons, List.mapM_nil, bind_eq_ok,
        pure_eq_ok] at typed
      obtain ⟨condition, made, _, rfl, rfl⟩ := typed
      simp only [Link.leadsTo, morph, Option.all_some, List.all_cons, List.all_nil, Bool.and_true]
      rw [Query.holds, Comparison.truth_ofComparison made]
      rfl

/-- What a query brings in for a record is what the link leads to from it. -/
theorem broughtIn_eq (owner target : Resource) (relation : Relation) (database : Database) (parent : Row) :
    broughtIn owner target relation database parent =
      .ok ((relation.link.related database.rows owner target parent).map (·.getD 0 [])) := by
  obtain ⟨related, built⟩ := ofTarget_total owner target relation 0
  obtain ⟨types, typed⟩ := mapM_equal related.parentType.toList (fun entry => owner.table.ref 1 0 entry.1) (·.2)
  have correlated : related.correlated owner.table 1 0 =
      .ok (.linked related.matching (owner.table.ref 1 0 related.parentColumn) :: related.conditions ++ types) :=
    bind_eq_ok.2 ⟨types, typed, rfl⟩
  rw [broughtIn, built, ok_bind, correlated, ok_bind]
  change Except.ok _ = _
  rw [Query.matching_eq_filter, extend_source built rfl, Link.related]
  congr 2
  rw [show (fun frame : Frame => ([] : Frame) ++ frame) = id from rfl, List.map_id]
  refine List.filter_congr fun frame inside => ?_
  have whole := Link.length_of_mem_frames inside
  have matched : Query.holds ⟨database.rows, []⟩ (([] ++ frame ++ []) :: [[parent]]) _ = _ :=
    holds_matching built rfl whole [] 1 0
  have accepted : related.conditions.all (Query.holds ⟨database.rows, []⟩ (([] ++ frame ++ []) :: [[parent]])) = _ :=
    all_conditions built rfl whole []
  rw [List.nil_append, List.append_nil] at matched accepted
  rw [List.cons_append, List.all_cons, List.all_append, matched, accepted, all_parentType built typed]
  simp only [List.getD_cons_succ, List.getD_cons_zero]
  rw [Bool.and_assoc, Bool.and_comm (Link.accepts _ _ _ _ _)]

end Related

/-! ## Rows that are linked -/

namespace Link

variable {rows : String → List Row} {owner target : Resource} {parent row : Row}

theorem mem_related_child {link : ChildLink} (inside : row ∈ rows target.table.name) (live : target.isLive row = true)
    (agrees : target.table.agrees row link.foreignKey owner.table parent link.localKey = true)
    (typed : ∀ column, link.morphType = some column → target.table.holds row column owner.morphAlias = true)
    (all : link.pick = none) : row ∈ ((Link.child link).related rows owner target parent).map (·.getD 0 []) := by
  refine List.mem_map.2 ⟨[row], List.mem_filter.2 ⟨List.mem_map.2 ⟨row, inside, rfl⟩, ?_⟩, rfl⟩
  have told : isOfType owner target [row] (.child link) = true := by
    rw [isOfType, Option.all_eq_true]
    exact typed
  simp [ties, leadsTo, accepts, picks, agrees, live, told, all]

theorem mem_related_parent {link : ParentLink} (inside : row ∈ rows target.table.name) (live : target.isLive row = true)
    (agrees : target.table.agrees row link.ownerKey owner.table parent link.foreignKey = true)
    (typed : ∀ column, link.morphType = some column → owner.table.holds parent column target.morphAlias = true) :
    row ∈ ((Link.parent link).related rows owner target parent).map (·.getD 0 []) := by
  refine List.mem_map.2 ⟨[row], List.mem_filter.2 ⟨List.mem_map.2 ⟨row, inside, rfl⟩, ?_⟩, rfl⟩
  have told : leadsTo owner target parent (.parent link) = true := by
    rw [leadsTo, Option.all_eq_true]
    exact typed
  simp [ties, isOfType, accepts, picks, agrees, live, told]

theorem mem_related_pivot {link : PivotLink} {between : Row} (inside : row ∈ rows target.table.name)
    (there : between ∈ rows link.table.name) (live : target.isLive row = true)
    (owned : link.table.agrees between link.foreignKey owner.table parent link.localKey = true)
    (leads : link.table.agrees between link.relatedKey target.table row link.targetKey = true)
    (typed : ∀ entry, link.morph = some entry → link.table.holds between entry.1
      (if entry.2 = .parent then owner.morphAlias else target.morphAlias) = true) :
    row ∈ ((Link.pivot link).related rows owner target parent).map (·.getD 0 []) := by
  refine List.mem_map.2 ⟨[row, between], List.mem_filter.2 ⟨List.mem_flatMap.2 ⟨row, inside, ?_⟩, ?_⟩, rfl⟩
  · exact List.mem_map.2 ⟨between, List.mem_filter.2 ⟨there, leads⟩, rfl⟩
  · have told : isOfType owner target [row, between] (.pivot link) = true := by
      rw [isOfType, Option.all_eq_true]
      exact typed
    simp [ties, leadsTo, accepts, picks, owned, live, told]

theorem of_mem_related_child {link : ChildLink}
    (brought : row ∈ ((Link.child link).related rows owner target parent).map (·.getD 0 [])) :
    target.table.agrees row link.foreignKey owner.table parent link.localKey = true := by
  obtain ⟨frame, related, rfl⟩ := List.mem_map.1 brought
  have met := (List.mem_filter.1 related).2
  simp only [Bool.and_eq_true] at met
  exact met.1.1

theorem of_mem_related_parent {link : ParentLink}
    (brought : row ∈ ((Link.parent link).related rows owner target parent).map (·.getD 0 [])) :
    target.table.agrees row link.ownerKey owner.table parent link.foreignKey = true := by
  obtain ⟨frame, related, rfl⟩ := List.mem_map.1 brought
  have met := (List.mem_filter.1 related).2
  simp only [Bool.and_eq_true] at met
  exact met.1.1

theorem of_mem_related_pivot {link : PivotLink}
    (brought : row ∈ ((Link.pivot link).related rows owner target parent).map (·.getD 0 [])) :
    ∃ between ∈ rows link.table.name, link.table.agrees between link.relatedKey target.table row link.targetKey = true ∧
      link.table.agrees between link.foreignKey owner.table parent link.localKey = true ∧
      ∀ entry, link.morph = some entry → link.table.holds between entry.1
        (if entry.2 = .parent then owner.morphAlias else target.morphAlias) = true := by
  obtain ⟨frame, related, rfl⟩ := List.mem_map.1 brought
  obtain ⟨framed, met⟩ := List.mem_filter.1 related
  obtain ⟨record, -, joined⟩ := List.mem_flatMap.1 framed
  obtain ⟨between, there, rfl⟩ := List.mem_map.1 joined
  obtain ⟨there, leads⟩ := List.mem_filter.1 there
  simp only [accepts, Bool.and_eq_true] at met
  have told := met.2.1.2
  rw [isOfType, Option.all_eq_true] at told
  exact ⟨between, there, leads, met.1.1, told⟩

end Link

end ResourceApi
