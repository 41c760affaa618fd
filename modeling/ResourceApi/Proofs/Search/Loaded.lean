import ResourceApi.Proofs.Json.Members
import ResourceApi.Proofs.Outcome
import ResourceApi.Search.Execution

/-!
Loading included records. Running a query leaves the state as it was; what is put into records on the way stands under
the names of relations, and leaves everything else in them.
-/

namespace ResourceApi.Plan

open Outcome

variable {work after : Work}

/-! ## Queries -/

/-- A query that gave its rows took its values, and changed nothing. -/
theorem run_eq_ok {query : Query} {parents : List Bound} {rows : List Members}
    (ran : (run query parents).runOn work = (.ok rows, after)) :
    after = work ∧ Bound.acceptAll (query.bounds ++ parents) = .ok () ∧
      query.results (ground work.database (parents.map Bound.cell)) = .ok rows := by
  obtain ⟨-, ran⟩ := Job.discard_bind_eq_ok.1 ran
  dsimp only at ran
  split at ran
  · obtain ⟨_, _, failed, -⟩ := Job.bind_eq_ok.1 ran
    cases failed
  · obtain ⟨_, taken, ran⟩ := Job.of_bind_eq_ok.1 ran
    obtain ⟨database, _, read, ran⟩ := Job.bind_eq_ok.1 ran
    rw [Job.of_runOn, Prod.mk.injEq] at ran
    cases read
    exact ⟨ran.2.symm, taken, ran.1⟩

/-- The number that a plan gives is that of the rows that meet its conditions. -/
theorem total_eq_ok {plan : Plan} {total : Int} (ran : plan.total.runOn work = (.ok total, after)) :
    after = work ∧
      total = (Query.matching (ground work.database []) [] (.table plan.resource.table.name) plan.counted).length := by
  obtain ⟨_, -, ran⟩ := Job.of_bind_eq_ok.1 ran
  obtain ⟨database, _, read, ran⟩ := Job.bind_eq_ok.1 ran
  cases read
  cases ran
  exact ⟨rfl, rfl⟩

/-! ## Putting records into others -/

/-- The path of the records that a step goes on from. -/
def start (step : IncludeStep) : String := step.parentPath.getD ""

/-- What some steps put into the records of a path. -/
def Puts (steps : List IncludeStep) (path key : String) : Prop :=
  ∃ step ∈ steps, start step = path ∧ step.name = key

/-- A record that differs from what it was in some members only. -/
def Loaded.Kept (changed : String → Prop) (old new : Loaded) : Prop :=
  new.parent = old.parent ∧ ∀ key, ¬changed key → new.row.get? key = old.row.get? key

theorem Loaded.Kept.refl (changed : String → Prop) (loaded : Loaded) : loaded.Kept changed loaded :=
  ⟨rfl, fun _ _ => rfl⟩

theorem Loaded.Kept.trans {first second changed : String → Prop} {a b c : Loaded} (early : a.Kept first b)
    (late : b.Kept second c) (ofFirst : ∀ key, first key → changed key) (ofSecond : ∀ key, second key → changed key) :
    a.Kept changed c := by
  refine ⟨late.1.trans early.1, fun key same => ?_⟩
  rw [late.2 key fun altered => same (ofSecond key altered), early.2 key fun altered => same (ofFirst key altered)]

/-- Records of a path as they are after some steps. -/
def Grown (steps : List IncludeStep) (before after : String × List Loaded) : Prop :=
  after.1 = before.1 ∧ List.Forall₂ (Loaded.Kept (Puts steps before.1)) before.2 after.2

theorem Grown.refl (steps : List IncludeStep) (entry : String × List Loaded) : Grown steps entry entry :=
  ⟨rfl, List.forall₂_same.2 fun _ _ => .refl _ _⟩

theorem Grown.trans {first second steps : List IncludeStep} {a b c : String × List Loaded} (early : Grown first a b)
    (late : Grown second b c) (ofFirst : first ⊆ steps) (ofSecond : second ⊆ steps) : Grown steps a c := by
  obtain ⟨samePath, early⟩ := early
  obtain ⟨samePathToo, late⟩ := late
  refine ⟨samePathToo.trans samePath, forall₂_trans early late fun _ _ _ before after => ?_⟩
  refine before.trans after ?_ ?_
  · rintro key ⟨step, inside, starts, named⟩
    exact ⟨step, ofFirst inside, starts, named⟩
  · rintro key ⟨step, inside, starts, named⟩
    exact ⟨step, ofSecond inside, samePath ▸ starts, named⟩

/-- The records of a path as they are after some steps. -/
theorem kept_of_grown {steps : List IncludeStep} {before after : Shelf} (grown : List.Forall₂ (Grown steps) before after)
    (path : String) : List.Forall₂ (Loaded.Kept (Puts steps path)) (rowsAt before path) (rowsAt after path) := by
  unfold rowsAt
  induction grown with
  | nil => exact .nil
  | @cons old new before after here _ ih =>
    obtain ⟨standing, rows⟩ := old
    obtain ⟨other, grown⟩ := new
    obtain ⟨samePath, kept⟩ := here
    have samePath : other = standing := samePath
    subst samePath
    rw [List.lookup_cons, List.lookup_cons]
    cases same : path == other with
    | true =>
      obtain rfl : path = other := by simpa using same
      exact kept
    | false => exact ih

/-- Items that are changed with their places stand where they stood. -/
private theorem forall₂_map_zipIdx {α β : Type} {r : α → β → Prop} {items : List α} {f : α × Nat → β}
    (each : ∀ item place, r item (f (item, place))) : List.Forall₂ r items (items.zipIdx.map f) := by
  refine List.forall₂_iff_get.2 ⟨by simp, fun place _ _ => ?_⟩
  simpa using each _ _

theorem attach_kept (step : IncludeStep) (children parents : List Loaded) :
    List.Forall₂ (Loaded.Kept (· = step.name)) parents (attach step children parents) :=
  forall₂_map_zipIdx fun _ _ => ⟨rfl, fun _ other => Members.get?_put_of_ne other _ _⟩

/-- Records are attached to the latest ones of the path that a step goes on from. -/
theorem attachAt_cons (step : IncludeStep) (children : List Loaded) (entry : String × List Loaded) (shelf : Shelf) :
    attachAt step children (entry :: shelf) =
      if entry.1 = start step then (entry.1, attach step children entry.2) :: shelf
      else entry :: attachAt step children shelf := by
  obtain ⟨path, rows⟩ := entry
  unfold attachAt
  dsimp only
  rw [setRows, ← start]
  by_cases same : path = start step
  · simp [rowsAt, same]
  · have unequal : (start step == path) = false := beq_eq_false_iff_ne.2 (Ne.symm same)
    simp [rowsAt, List.lookup_cons, unequal, same]

theorem rowsAt_attachAt (step : IncludeStep) (children : List Loaded) (shelf : Shelf) (path : String) :
    rowsAt (attachAt step children shelf) path =
      if start step = path then attach step children (rowsAt shelf path) else rowsAt shelf path := by
  induction shelf with
  | nil => simp [attachAt, setRows, rowsAt, attach]
  | cons entry rest ih =>
    obtain ⟨at_, rows⟩ := entry
    rw [attachAt_cons]
    dsimp only
    by_cases here : at_ = start step
    · subst here
      rw [if_pos rfl]
      by_cases same : start step = path
      · simp [rowsAt, same]
      · have other : (path == start step) = false := beq_eq_false_iff_ne.2 (Ne.symm same)
        simp [rowsAt, List.lookup_cons, other, same]
    · rw [if_neg here]
      by_cases same : at_ = path
      · subst same
        simp [rowsAt, Ne.symm here]
      · have other : (path == at_) = false := beq_eq_false_iff_ne.2 (Ne.symm same)
        simpa [rowsAt, List.lookup_cons, other] using ih

theorem attachAt_grown (step : IncludeStep) (children : List Loaded) (shelf : Shelf) :
    List.Forall₂ (Grown [step]) shelf (attachAt step children shelf) := by
  induction shelf with
  | nil => exact .nil
  | cons entry rest ih =>
    rw [attachAt_cons]
    split
    · next same =>
      refine .cons ⟨rfl, ?_⟩ (List.forall₂_same.2 fun _ _ => .refl _ _)
      refine (attach_kept step children entry.2).imp fun old new kept => ?_
      exact ⟨kept.1, fun key other => kept.2 key fun named => other ⟨step, List.mem_cons_self, same.symm, named.symm⟩⟩
    · exact .cons (.refl _ _) ih

/-! ## All steps -/

theorem loadAll_nil_eq_ok {shelf completed : Shelf} (ran : (loadAll [] shelf).runOn work = (.ok completed, after)) :
    completed = shelf ∧ after = work := by
  cases ran
  exact ⟨rfl, rfl⟩

/-- The first step is loaded, the others after it, and then the records of the first are attached again. -/
theorem loadAll_cons_eq_ok {step : IncludeStep} {rest : List IncludeStep} {shelf completed : Shelf}
    (ran : (loadAll (step :: rest) shelf).runOn work = (.ok completed, after)) :
    ∃ found middle later,
      (step.queries.mapM (loadQuery step ((rowsAt shelf (start step)).map (·.row)))).runOn work = (.ok found, middle) ∧
        (loadAll rest ((step.path, found.flatten) :: attachAt step found.flatten shelf)).runOn middle =
          (.ok later, after) ∧
        completed = match later with
          | [] => []
          | (_, children) :: shelf => attachAt step children shelf := by
  rw [loadAll] at ran
  obtain ⟨found, middle, loaded, ran⟩ := Job.bind_eq_ok.1 ran
  obtain ⟨later, _, others, ran⟩ := Job.bind_eq_ok.1 ran
  refine ⟨found, middle, later, loaded, ?_⟩
  split at ran
  · cases ran
    exact ⟨others, rfl⟩
  · cases ran
    exact ⟨others, rfl⟩

/-- Loading leaves every path where it is, with its records, in which nothing is changed but what the steps put there. -/
theorem loadAll_grown {steps : List IncludeStep} {shelf completed : Shelf}
    (ran : (loadAll steps shelf).runOn work = (.ok completed, after)) : List.Forall₂ (Grown steps) shelf completed := by
  induction steps generalizing shelf completed work with
  | nil =>
    obtain ⟨rfl, -⟩ := loadAll_nil_eq_ok ran
    exact List.forall₂_same.2 fun _ _ => .refl _ _
  | cons step rest ih =>
    obtain ⟨found, middle, later, -, others, rfl⟩ := loadAll_cons_eq_ok ran
    obtain ⟨entry, shelf', -, grown, rfl⟩ := List.forall₂_cons_left_iff.1 (ih others)
    have attached := forall₂_trans (attachAt_grown step found.flatten shelf) grown fun _ _ _ early late =>
      early.trans late (List.cons_subset_cons step (List.nil_subset rest)) (List.subset_cons_self step rest)
    exact forall₂_trans attached (attachAt_grown step entry.2 shelf') fun _ _ _ early late =>
      early.trans late (List.Subset.refl _) (List.cons_subset_cons step (List.nil_subset rest))

end ResourceApi.Plan
