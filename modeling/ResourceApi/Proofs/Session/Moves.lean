import ResourceApi.Mutation.Execution
import ResourceApi.Proofs.Session.Records

/-!
How work moves on. Whatever is written, at whatever depth, the state changes by steps of a few sorts only: the database is
replaced, records are taken in hand or let go, something is told, a policy is asked. A relation between states that
allows these steps is kept by every write, whether it succeeds or fails.
-/

namespace ResourceApi

/-- A relation between a state and a later one that allows every step of a write. -/
structure Work.Allows (r : Work → Work → Prop) : Prop where
  refl : ∀ work, r work work
  trans : ∀ {before middle after}, r before middle → r middle after → r before after
  stores : ∀ work database, r work { work with database }
  holds : ∀ work records next, r work { work with records, next }
  tells : ∀ work event, r work { work with events := work.events ++ [event] }
  asks : ∀ work call, r work { work with calls := work.calls ++ [call] }

/-- Writes leave it open or not whether there is a transaction to return to. -/
theorem Work.allows_opened : Work.Allows fun before after => after.opened = before.opened where
  refl _ := rfl
  trans early late := late.trans early
  stores _ _ := rfl
  holds _ _ _ := rfl
  tells _ _ := rfl
  asks _ _ := rfl

variable {α β : Type} {r : Work → Work → Prop}

namespace Job

/-- A job that moves every state on by a relation, in success and in failure. -/
def Moves (r : Work → Work → Prop) (job : Job α) : Prop := ∀ work, r work (job.runOn work).2

namespace Moves

variable (allowed : Work.Allows r)
include allowed

/-! ### Ways to build a job -/

theorem of (result : Except Failure α) : Moves r (Job.of result) := fun work => allowed.refl work

theorem pure (a : α) : Moves r (Pure.pure a : Job α) := fun work => allowed.refl work

theorem fail (failure : Failure) : Moves r (Job.fail failure : Job α) := fun work => allowed.refl work

theorem get : Moves r (get : Job Work) := fun work => allowed.refl work

theorem bind {job : Job α} {next : α → Job β} (first : Moves r job) (second : ∀ a, Moves r (next a)) :
    Moves r (job >>= next) := by
  intro work
  have early := first work
  rw [bind_runOn]
  cases ran : job.runOn work with
  | mk result middle =>
    rw [ran] at early
    cases result with
    | error failure => exact early
    | ok a => exact allowed.trans early (second a middle)

omit allowed in
theorem modify {f : Work → Work} (step : ∀ work, r work (f work)) : Moves r (modify f : Job Unit) := step

omit allowed in
theorem ite {condition : Prop} [Decidable condition] {first second : Job α} (holds : condition → Moves r first)
    (fails : ¬condition → Moves r second) : Moves r (if condition then first else second) := by
  split
  · exact holds ‹_›
  · exact fails ‹_›

/-- A job that goes on only if nothing is wrong. -/
theorem guarded {condition : Prop} [Decidable condition] {failure : Failure} {next : Unit → Job α}
    (after : ∀ u, Moves r (next u)) : Moves r (if condition then Job.fail failure >>= next else next ()) :=
  ite (fun _ => bind allowed (fail allowed failure) after) fun _ => after ()

theorem mapM {f : α → Job β} {items : List α} (each : ∀ item ∈ items, Moves r (f item)) :
    Moves r (items.mapM f) := by
  induction items with
  | nil => exact pure allowed []
  | cons item rest ih =>
    rw [List.mapM_cons]
    have later : Moves r (rest.mapM f) := ih fun other member => each other (List.mem_cons_of_mem item member)
    apply bind allowed (each item List.mem_cons_self)
    intro result
    exact bind allowed later fun _ => pure allowed _

theorem forIn {f : α → β → Job (ForInStep β)} {items : List α} (each : ∀ item b, Moves r (f item b)) (b : β) :
    Moves r (ForIn.forIn items b f) := by
  induction items generalizing b with
  | nil => exact pure allowed b
  | cons item rest ih =>
    rw [List.forIn_cons]
    apply bind allowed (each item b)
    intro step
    cases step with
    | done result => exact pure allowed result
    | yield next => exact ih next

end Moves

variable (allowed : Work.Allows r)
include allowed

/-! ### Records in hand -/

theorem database_moves : Moves r database := (Moves.get allowed).bind allowed fun _ => Moves.pure allowed _

theorem setDatabase_moves (database : Database) : Moves r (setDatabase database) :=
  Moves.modify fun work => allowed.stores work database

theorem stored_moves (result : Except StorageCause α) : Moves r (stored result) := Moves.of allowed _

theorem tell_moves (event : Event) : Moves r (tell event) := Moves.modify fun work => allowed.tells work event

theorem record_moves (number : Nat) : Moves r (record number) :=
  (Moves.get allowed).bind allowed fun _ => Moves.pure allowed _

theorem setRecord_moves (number : Nat) (record : Record) : Moves r (setRecord number record) :=
  Moves.modify fun work => allowed.holds work _ work.next

theorem take_moves (record : Record) : Moves r (take record) := fun work => allowed.holds work _ _

theorem release_moves (number : Nat) : Moves r (release number) := Moves.modify fun work => allowed.holds work _ work.next

theorem releaseFrom_moves (number : Nat) : Moves r (releaseFrom number) :=
  Moves.modify fun work => allowed.holds work _ work.next

theorem setValues_moves (number : Nat) (values : Values) : Moves r (setValues number values) :=
  (record_moves allowed number).bind allowed fun _ => setRecord_moves allowed _ _

theorem writeChanges_moves (number : Nat) : Moves r (writeChanges number) := by
  apply (record_moves allowed number).bind allowed
  intro record
  apply Moves.ite (fun _ => Moves.pure allowed _)
  intro _
  refine Moves.ite (fun _ => ?_) fun _ => setRecord_moves allowed _ _
  apply (Moves.of allowed _).bind allowed
  intro cells
  apply (database_moves allowed).bind allowed
  intro database
  apply Moves.guarded allowed
  intro _
  apply (stored_moves allowed _).bind allowed
  intro changed
  exact (setDatabase_moves allowed _).bind allowed fun _ => setRecord_moves allowed _ _

theorem writeAll_moves : Moves r writeAll := by
  apply (Moves.get allowed).bind allowed
  intro work
  refine (Moves.forIn allowed (fun entry _ => ?_) _).bind allowed fun _ => Moves.pure allowed _
  exact (writeChanges_moves allowed entry.1).bind allowed fun _ => Moves.pure allowed _

theorem add_moves (number : Nat) : Moves r (add number) := by
  apply (record_moves allowed number).bind allowed
  intro record
  apply (Moves.of allowed _).bind allowed
  intro cells
  apply (database_moves allowed).bind allowed
  intro database
  apply (stored_moves allowed _).bind allowed
  intro inserted
  apply (setDatabase_moves allowed _).bind allowed
  intro _
  have finish (known : Values) : Moves r (setRecord number
      (known.foldl (fun record entry => record.set entry.1 entry.2) record).settled) := setRecord_moves allowed _ _
  split
  · apply Moves.ite
    · intro _
      apply (Moves.of allowed _).bind allowed
      intro value
      exact (Moves.pure allowed _).bind allowed fun _ => finish _
    · intro _
      exact (Moves.pure allowed _).bind allowed fun _ => finish _
  · exact (Moves.pure allowed _).bind allowed fun _ => finish _

theorem flush_moves (number : Nat) : Moves r (flush number) := by
  apply (writeAll_moves allowed).bind allowed
  intro _
  apply (record_moves allowed number).bind allowed
  intro record
  exact Moves.ite (fun _ => add_moves allowed number) fun _ => Moves.pure allowed _

theorem takeRow_moves (table : Table) (values : Values) : Moves r (takeRow table values) := by
  apply (Moves.get allowed).bind allowed
  intro work
  split
  · exact (setRecord_moves allowed _ _).bind allowed fun _ => Moves.pure allowed _
  · exact take_moves allowed _

omit allowed in
theorem unattributed_moves {job : Job Unit} (moves : Moves r job) : Moves r (unattributed job) := by
  intro work
  have same : ((unattributed job).runOn work).2 = (job.runOn work).2 := by
    rw [unattributed_eq]
    split
    · next ran => rw [ran]
    · rfl
  rw [same]
  exact moves work

theorem find_moves (resource : Resource) (key : Json) (withDeleted : Bool) : Moves r (find resource key withDeleted) := by
  unfold find
  dsimp only
  apply Moves.guarded allowed
  intro _
  apply (Moves.of allowed _).bind allowed
  intro named
  apply (unattributed_moves (writeAll_moves allowed)).bind allowed
  intro _
  apply (Moves.of allowed _).bind allowed
  intro _
  apply (database_moves allowed).bind allowed
  intro database
  split
  · exact Moves.fail allowed _
  · refine (Moves.mapM allowed fun column _ => ?_).bind allowed fun values => takeRow_moves allowed _ _
    exact (Moves.of allowed _).bind allowed fun _ => Moves.pure allowed _
  · exact Moves.fail allowed _

theorem remove_moves (number : Nat) : Moves r (remove number) := by
  apply (record_moves allowed number).bind allowed
  intro record
  apply (Moves.of allowed _).bind allowed
  intro keys
  apply (database_moves allowed).bind allowed
  intro database
  apply Moves.guarded allowed
  intro _
  exact (stored_moves allowed _).bind allowed fun _ => setDatabase_moves allowed _

theorem keyOf_moves (resource : Resource) (number : Nat) : Moves r (keyOf resource number) :=
  (record_moves allowed number).bind allowed fun _ => Moves.pure allowed _

theorem authorize_moves (context : Context) (action : Action) (resource : Resource) (key : Option Json) :
    Moves r (authorize context action resource key) := by
  apply Moves.ite (fun _ => Moves.pure allowed _)
  intro _
  have decided (permitted : Bool) : Moves r (if !permitted then do
      tell (.denied action.name resource.name)
      fail (.denied action.name resource.name) else Pure.pure ()) :=
    Moves.ite (fun _ => (tell_moves allowed _).bind allowed fun _ => Moves.fail allowed _) fun _ => Moves.pure allowed _
  split
  · exact (Moves.pure allowed _).bind allowed fun _ => decided _
  · refine Moves.bind allowed (Moves.modify fun work => allowed.asks work _) fun _ => ?_
    exact (Moves.pure allowed _).bind allowed fun _ => decided _

end Job

/-! ## Rows of join tables -/

namespace JoinRows

open Job

variable (allowed : Work.Allows r)
include allowed

theorem add_moves (rows : JoinRows) (related : Value) (extra : Members) : Moves r (rows.add related extra) := by
  unfold add
  dsimp only
  apply Moves.guarded allowed
  intro _
  apply (Moves.of allowed _).bind allowed
  intro assigned
  apply (Moves.of allowed _).bind allowed
  intro cells
  apply (database_moves allowed).bind allowed
  intro database
  exact (stored_moves allowed _).bind allowed fun _ => setDatabase_moves allowed _

theorem change_moves (rows : JoinRows) (related : Value) (extra : Members) : Moves r (rows.change related extra) := by
  apply (Moves.of allowed _).bind allowed
  intro conditions
  apply (Moves.of allowed _).bind allowed
  intro assigned
  apply (Moves.of allowed _).bind allowed
  intro cells
  apply (Moves.of allowed _).bind allowed
  intro _
  apply (database_moves allowed).bind allowed
  intro database
  exact (stored_moves allowed _).bind allowed fun _ => setDatabase_moves allowed _

theorem remove_moves (rows : JoinRows) (related : List Value) : Moves r (rows.remove related) := by
  apply (Moves.of allowed _).bind allowed
  intro conditions
  apply (Moves.of allowed _).bind allowed
  intro _
  apply (database_moves allowed).bind allowed
  intro database
  exact (stored_moves allowed _).bind allowed fun _ => setDatabase_moves allowed _

theorem relatedKeys_moves (rows : JoinRows) : Moves r rows.relatedKeys := by
  apply (Moves.of allowed _).bind allowed
  intro conditions
  apply (Moves.of allowed _).bind allowed
  intro _
  apply (database_moves allowed).bind allowed
  intro database
  exact (Moves.mapM allowed fun _ _ => Moves.of allowed _).bind allowed fun _ => Moves.pure allowed _

end JoinRows

/-! ## Nodes -/

namespace Mutation

open Job

variable (allowed : Work.Allows r) {context : Context}
include allowed

theorem resultOf_moves (resource : Resource) (number : Nat) (operation : String)
    (relations : List (String × List WriteResult)) : Moves r (resultOf resource number operation relations) :=
  (record_moves allowed number).bind allowed fun _ => Moves.pure allowed _

theorem replace_moves (start : Nat) (old : Option Nat) (new : Nat) : Moves r (replace start old new) := by
  unfold replace
  split
  · exact Moves.ite (fun _ => release_moves allowed _) fun _ => Moves.pure allowed _
  · exact Moves.pure allowed _

theorem findLinked_moves (target : Resource) (node : Node) (operation : Operation) :
    Moves r (findLinked context target node operation) := by
  apply (find_moves allowed _ _ _).bind allowed
  intro number
  apply (keyOf_moves allowed _ _).bind allowed
  intro key
  exact (authorize_moves allowed _ _ _ _).bind allowed fun _ => Moves.pure allowed _

theorem dropStale_moves (target : Resource) (rows : JoinRows) (stale : List Value) (start : Nat) :
    Moves r (dropStale context target rows stale start) := by
  apply Moves.ite (fun _ => Moves.pure allowed _)
  intro _
  refine (Moves.forIn allowed (fun key last => ?_) _).bind allowed fun _ => rows.remove_moves allowed _
  apply (find_moves allowed _ _ _).bind allowed
  intro number
  apply (replace_moves allowed _ _ _).bind allowed
  intro _
  apply (keyOf_moves allowed _ _).bind allowed
  intro key
  exact (authorize_moves allowed _ _ _ _).bind allowed fun _ => Moves.pure allowed _

theorem syncNodes_moves (target : Resource) (rows : JoinRows) (start : Nat) (nodes : List Node)
    (existing desired : List Value) (last : Option Nat) :
    Moves r (syncNodes context target rows start existing nodes desired last) := by
  induction nodes generalizing existing desired last with
  | nil =>
    apply (Moves.get allowed).bind allowed
    intro work
    exact (dropStale_moves allowed _ _ _ _).bind allowed fun _ => Moves.pure allowed _
  | cons node rest ih =>
    apply (findLinked_moves allowed _ _ _).bind allowed
    intro number
    apply (replace_moves allowed _ _ _).bind allowed
    intro _
    apply (record_moves allowed _).bind allowed
    intro record
    have later (existing desired : List Value) (last : Option Nat) : Moves r (do
        let result ← resultOf target number "sync" []
        return result :: (← syncNodes context target rows start existing rest desired last)) :=
      (resultOf_moves allowed _ _ _ _).bind allowed fun _ => (ih _ _ _).bind allowed fun _ => Moves.pure allowed _
    apply Moves.ite
    · intro known
      apply Moves.ite
      · exact fun _ => (rows.change_moves allowed _ _).bind allowed fun _ => later _ _ _
      · exact fun _ => (Moves.pure allowed _).bind allowed fun _ => later _ _ _
    · exact fun unknown => (rows.add_moves allowed _ _).bind allowed fun _ => later _ _ _

mutual
theorem writeNode_moves (resource : Resource) (link : Values) :
    ∀ node : Node, Moves r (writeNode context resource link node)
  | .mk attributes pivot tag relations => by
    rw [writeNode]
    apply (Moves.of allowed _).bind allowed
    intro _
    apply (Moves.get allowed).bind allowed
    intro work
    have entries (number : Nat) (kept : Bool) : Moves r (writeEntries context resource number kept relations) :=
      writeEntries_moves resource number kept relations
    have written (number : Nat) : Moves r (do
        let before ← writeEntries context resource number true relations
        let given := resource.fillable.filterMap fun name =>
          (Members.get? attributes name).map fun j => (name, Value.plain j)
        setValues number (given ++ link)
        flush number
        let after ← writeEntries context resource number false relations
        let result ← resultOf resource number
          (if ((Members.get? attributes resource.key).getD .null).isNull then "create" else "update") (before ++ after)
        releaseFrom work.next
        return result) := by
      apply (entries _ _).bind allowed
      intro before
      apply (setValues_moves allowed _ _).bind allowed
      intro _
      apply (flush_moves allowed _).bind allowed
      intro _
      apply (entries _ _).bind allowed
      intro after
      apply (resultOf_moves allowed _ _ _ _).bind allowed
      intro result
      exact (releaseFrom_moves allowed _).bind allowed fun _ => Moves.pure allowed _
    apply Moves.ite
    · intro isNew
      apply (authorize_moves allowed _ _ _ _).bind allowed
      intro _
      exact (take_moves allowed _).bind allowed written
    · intro known
      apply (find_moves allowed _ _ _).bind allowed
      intro number
      apply (keyOf_moves allowed _ _).bind allowed
      intro key
      apply (authorize_moves allowed _ _ _ _).bind allowed
      intro _
      exact (Moves.pure allowed _).bind allowed written

theorem writeEntries_moves (resource : Resource) (number : Nat) (kept : Bool) :
    ∀ entries : List (String × Entry), Moves r (writeEntries context resource number kept entries)
  | [] => Moves.pure allowed []
  | (name, entry) :: rest => by
    have others := writeEntries_moves resource number kept rest
    rw [writeEntries]
    split
    · exact others
    · next relation known =>
      apply Moves.ite
      · intro _
        apply (writeEntry_moves resource number relation entry).bind allowed
        intro results
        exact others.bind allowed fun _ => Moves.pure allowed _
      · exact fun _ => others

theorem writeEntry_moves (resource : Resource) (number : Nat) (relation : Relation) :
    ∀ entry : Entry, Moves r (writeEntry context resource number relation entry)
  | .mk operation nodes => by
    rw [writeEntry]
    apply Moves.guarded allowed
    intro _
    apply (Moves.get allowed).bind allowed
    intro work
    have released (results : List WriteResult) : Moves r (do
        releaseFrom work.next
        return results) := (releaseFrom_moves allowed _).bind allowed fun _ => Moves.pure allowed _
    split
    · exact (writeParents_moves number relation _ operation _ nodes none).bind allowed released
    · apply (Moves.of allowed _).bind allowed
      intro target
      apply (record_moves allowed number).bind allowed
      intro record
      exact (writeChildren_moves target _ operation _ nodes none).bind allowed released
    · apply (Moves.of allowed _).bind allowed
      intro target
      apply (record_moves allowed number).bind allowed
      intro record
      apply Moves.ite
      · intro _
        apply (JoinRows.relatedKeys_moves allowed _).bind allowed
        intro existing
        exact (syncNodes_moves allowed target _ _ nodes existing [] none).bind allowed released
      · exact fun _ => (writeJoined_moves target _ operation _ nodes none).bind allowed released
    · exact (Moves.fail allowed _).bind allowed released

theorem writeParents_moves (number : Nat) (relation : Relation) (link : ParentLink) (operation : Operation)
    (start : Nat) : ∀ (nodes : List Node) (last : Option Nat),
      Moves r (writeParents context number relation link operation start last nodes)
  | [], _ => Moves.pure allowed []
  | node :: rest, last => by
    have others (last : Option Nat) := writeParents_moves number relation link operation start rest last
    rw [writeParents]
    apply (Moves.of allowed _).bind allowed
    intro target
    apply Moves.ite
    · intro _
      apply (writeNode_moves target [] node).bind allowed
      intro result
      apply (setValues_moves allowed _ _).bind allowed
      intro _
      exact (others _).bind allowed fun _ => Moves.pure allowed _
    · intro _
      apply (findLinked_moves allowed _ _ _).bind allowed
      intro found
      apply (replace_moves allowed _ _ _).bind allowed
      intro _
      apply (record_moves allowed _).bind allowed
      intro record
      apply (resultOf_moves allowed _ _ _ _).bind allowed
      intro result
      apply (setValues_moves allowed _ _).bind allowed
      intro _
      exact (others _).bind allowed fun _ => Moves.pure allowed _

theorem writeChildren_moves (target : Resource) (values : Values) (operation : Operation) (start : Nat) :
    ∀ (nodes : List Node) (last : Option Nat),
      Moves r (writeChildren context target values operation start last nodes)
  | [], _ => Moves.pure allowed []
  | node :: rest, last => by
    have others (last : Option Nat) := writeChildren_moves target values operation start rest last
    rw [writeChildren]
    apply Moves.ite
    · intro _
      apply (writeNode_moves target values node).bind allowed
      intro result
      exact (others _).bind allowed fun _ => Moves.pure allowed _
    · intro _
      apply (findLinked_moves allowed _ _ _).bind allowed
      intro found
      apply (replace_moves allowed _ _ _).bind allowed
      intro _
      apply (setValues_moves allowed _ _).bind allowed
      intro _
      apply (flush_moves allowed _).bind allowed
      intro _
      apply (resultOf_moves allowed _ _ _ _).bind allowed
      intro result
      exact (others _).bind allowed fun _ => Moves.pure allowed _

theorem writeJoined_moves (target : Resource) (rows : JoinRows) (operation : Operation) (start : Nat) :
    ∀ (nodes : List Node) (last : Option Nat),
      Moves r (writeJoined context target rows operation start last nodes)
  | [], _ => Moves.pure allowed []
  | node :: rest, last => by
    have others (last : Option Nat) := writeJoined_moves target rows operation start rest last
    rw [writeJoined]
    apply Moves.ite
    · intro _
      apply (writeNode_moves target [] node).bind allowed
      intro result
      apply (rows.add_moves allowed _ _).bind allowed
      intro _
      exact (others _).bind allowed fun _ => Moves.pure allowed _
    · intro _
      apply (findLinked_moves allowed _ _ _).bind allowed
      intro found
      apply (replace_moves allowed _ _ _).bind allowed
      intro _
      apply (record_moves allowed _).bind allowed
      intro record
      apply (resultOf_moves allowed _ _ _ _).bind allowed
      intro result
      have finish (last : Option Nat) : Moves r (do
          return result :: (← writeJoined context target rows operation start last rest)) :=
        (others _).bind allowed fun _ => Moves.pure allowed _
      apply Moves.ite
      · exact fun _ => (rows.remove_moves allowed _).bind allowed fun _ => finish _
      · exact fun _ => (rows.add_moves allowed _ _).bind allowed fun _ => finish _
end

end Mutation

end ResourceApi
