import ResourceApi.Mutation.JoinRows
import ResourceApi.Proofs.Query.Truth

/-!
How work on records fails. Records that are not there, what the storage refuses, values that no column takes and what
policies deny are the only failures, whatever is written.
-/

namespace ResourceApi

/-- A sort of failures that has none of those with which values and tables refuse a write. -/
structure Failure.OfStorage (p : Failure → Prop) : Prop where
  fault : ∀ cause, ¬p (.fault cause)
  storage : ∀ cause, ¬p (.storage cause)

/-- A sort of failures that work on records has none of. -/
structure Failure.OfRequests (p : Failure → Prop) : Prop extends Failure.OfStorage p where
  notFound : ∀ resource key, ¬p (.notFound resource key)
  denied : ∀ action resource, ¬p (.denied action resource)

variable {α : Type} {p : Failure → Prop} (foreign : Failure.OfStorage p)
include foreign

/-! ## Values -/

section Values

open Outcome

theorem Cell.ofJson_never (value : Json) : Never p (Cell.ofJson value) := by
  unfold Cell.ofJson
  split
  any_goals exact Never.ok _
  · split
    · exact Never.ok _
    · exact Never.error (foreign.fault _)
  any_goals exact Never.error (foreign.storage _)

theorem Bound.formed_never (bound : Bound) : Never p bound.formed := by
  have refused : Never p (.error (.storage .statement) : Except Failure Json) := Never.error (foreign.storage _)
  unfold Bound.formed
  repeat' split
  all_goals first
    | exact refused
    | apply Never.ok

theorem Bound.acceptAll_never (bounds : List Bound) : Never p (acceptAll bounds) := by
  refine Never.bind (Never.mapM fun bound _ => bound.formed_never foreign) fun formed _ => ?_
  refine Never.bind (Never.forIn (fun value _ => ?_) ()) fun _ _ => Never.pure _
  exact Never.bind (Never.bind (Cell.ofJson_never foreign value) fun _ _ => Never.pure _) fun _ _ => Never.pure _

theorem Value.ofCell_never (type : ColumnType) (cell : Cell) : Never p (Value.ofCell type cell) := by
  refine Never.bind ?_ fun shown _ => ?_
  · unfold Cell.shown
    split
    any_goals exact Never.ok _
    · split
      · exact Never.ok _
      · exact Never.error (foreign.fault _)
    · exact Never.error (foreign.fault _)
  · split <;> exact Never.pure _

theorem Value.formedFor_never (type : ColumnType) (value : Value) : Never p (value.formedFor type) := by
  cases value with
  | plain j => exact Bound.formed_never foreign _
  | moment text zoned =>
    cases type with
    | float => exact Never.error (foreign.storage _)
    | _ => exact Never.ok _

theorem Value.cells_never (values : List (Column × Value)) : Never p (Value.cells values) := by
  refine Never.bind (Never.mapM fun entry _ => ?_) fun formed _ => Never.mapM fun entry _ => ?_
  · exact (Value.formedFor_never foreign _ _).bind fun _ _ => Never.pure _
  · exact (Cell.ofJson_never foreign _).bind fun _ _ => Never.pure _

end Values

/-! ## Records in hand -/

namespace Job

omit foreign in
theorem record_never (number : Nat) : Never p (record number) := Never.get.bind fun _ => Never.pure _

omit foreign in
theorem database_never : Never p database := Never.get.bind fun _ => Never.pure _

theorem stored_never (result : Except StorageCause α) : Never p (stored result) := by
  refine Never.of ?_
  cases result with
  | error cause => exact Outcome.Never.error (foreign.storage cause)
  | ok a => exact Outcome.Never.ok a

omit foreign in
theorem setValues_never (number : Nat) (values : Values) : Never p (setValues number values) :=
  (record_never number).bind fun _ => Never.modify _

omit foreign in
theorem setRecord_never (number : Nat) (record : Record) : Never p (setRecord number record) := Never.modify _

omit foreign in
theorem setDatabase_never (database : Database) : Never p (setDatabase database) := Never.modify _

theorem writeChanges_never (number : Nat) : Never p (writeChanges number) := by
  refine (record_never number).bind fun record => Never.ite (fun _ => Never.pure _) fun _ => ?_
  refine Never.ite (fun _ => ?_) fun _ => setRecord_never _ _
  refine (Never.of (Value.cells_never foreign _)).bind fun cells => database_never.bind fun database => ?_
  refine Never.guarded (foreign.storage _) fun _ => ?_
  exact (stored_never foreign _).bind fun _ => (setDatabase_never _).bind fun _ => setRecord_never _ _

theorem writeAll_never : Never p writeAll := by
  refine Never.get.bind fun work => (Never.forIn (fun entry _ => ?_) _).bind fun _ => Never.pure _
  exact (writeChanges_never foreign entry.1).bind fun _ => Never.pure _

theorem add_never (number : Nat) : Never p (add number) := by
  refine (record_never number).bind fun record => (Never.of (Value.cells_never foreign _)).bind fun cells => ?_
  refine database_never.bind fun database => (stored_never foreign _).bind fun inserted => ?_
  refine (setDatabase_never _).bind fun _ => ?_
  have finish (known : Values) : Never p (setRecord number
      (known.foldl (fun record entry => record.set entry.1 entry.2) record).settled) := setRecord_never _ _
  split
  · refine Never.ite (fun _ => ?_) fun _ => (Never.pure _).bind fun _ => finish _
    exact (Never.of (Value.ofCell_never foreign _ _)).bind fun _ => (Never.pure _).bind fun _ => finish _
  · exact (Never.pure _).bind fun _ => finish _

theorem flush_never (number : Nat) : Never p (flush number) := by
  refine (writeAll_never foreign).bind fun _ => (record_never number).bind fun record => ?_
  exact Never.ite (fun _ => add_never foreign number) fun _ => Never.pure _

omit foreign in
theorem takeRow_never (table : Table) (values : Values) : Never p (takeRow table values) := by
  refine Never.get.bind fun work => ?_
  split
  · exact (setRecord_never _ _).bind fun _ => Never.pure _
  · exact Never.modifyGet _

omit foreign in
/-- What the storage refuses in an unattributed job is the fault of no resource. -/
theorem unattributed_eq (job : Job Unit) (work : Work) : (unattributed job).runOn work =
    match job.runOn work with
    | (.error (.storage _), after) => (.error (.storage .statement), after)
    | result => result := rfl

theorem unattributed_never {job : Job Unit} (never : Never p job) : Never p (unattributed job) := by
  intro work failure after fails
  rw [unattributed_eq] at fails
  split at fails
  · cases fails
    exact foreign.storage _
  · next result other => exact never work failure after fails

omit foreign in
theorem find_never (foreign : Failure.OfRequests p) (resource : Resource) (key : Json) (withDeleted : Bool) :
    Never p (find resource key withDeleted) := by
  have only := foreign.toOfStorage
  unfold find
  dsimp only
  refine Never.guarded (foreign.fault _) fun _ => ?_
  refine (Never.of (Cond.ofComparison_never foreign.fault _ _ _)).bind fun named => ?_
  refine (unattributed_never only (writeAll_never only)).bind fun _ => ?_
  refine (Never.of (Bound.acceptAll_never only _)).bind fun _ => database_never.bind fun database => ?_
  split
  · exact Never.fail (foreign.notFound _ _)
  · refine Never.bind (Never.mapM fun column _ => ?_) fun values => takeRow_never _ _
    exact (Never.of (Value.ofCell_never only _ _)).bind fun _ => Never.pure _
  · exact Never.fail (foreign.storage _)

omit foreign in
theorem keyOf_never (resource : Resource) (number : Nat) : Never p (keyOf resource number) :=
  (record_never number).bind fun _ => Never.pure _

omit foreign in
theorem authorize_never (foreign : Failure.OfRequests p) (context : Context) (action : Action) (resource : Resource)
    (key : Option Json) : Never p (authorize context action resource key) := by
  refine Never.ite (fun _ => Never.pure _) fun _ => ?_
  have decided (allowed : Bool) : Never p (if !allowed then do
      tell (.denied action.name resource.name)
      fail (.denied action.name resource.name) else Pure.pure ()) :=
    Never.ite (fun _ => (Never.modify _).bind fun _ => Never.fail (foreign.denied _ _)) fun _ => Never.pure _
  split
  · exact (Never.pure _).bind fun _ => decided _
  · exact (Never.modify _).bind fun _ => (Never.pure _).bind fun _ => decided _

end Job

/-! ## Rows of join tables -/

namespace JoinRows

theorem owned_never (rows : JoinRows) : Outcome.Never p rows.owned :=
  Outcome.Never.mapM fun _ _ => Cond.ofComparison_never foreign.fault _ _ _

theorem linking_never (rows : JoinRows) (keys : List Value) : Outcome.Never p (rows.linking keys) :=
  (Cond.ofComparison_never foreign.fault _ _ _).bind fun _ _ => (rows.owned_never foreign).bind fun _ _ =>
    Outcome.Never.pure _

theorem assigned_never (rows : JoinRows) (values : List (String × Value)) : Outcome.Never p (rows.assigned values) := by
  refine Outcome.Never.mapM fun entry _ => ?_
  dsimp only
  split
  · exact Outcome.Never.ok _
  · exact Outcome.Never.error (foreign.storage _)

open Job

theorem add_never (rows : JoinRows) (related : Value) (extra : Members) : Never p (rows.add related extra) := by
  unfold add
  dsimp only
  refine Never.guarded (foreign.fault _) fun _ => ?_
  refine (Never.of (rows.assigned_never foreign _)).bind fun assigned => ?_
  refine (Never.of (Value.cells_never foreign _)).bind fun cells => database_never.bind fun database => ?_
  exact (stored_never foreign _).bind fun _ => setDatabase_never _

theorem change_never (rows : JoinRows) (related : Value) (extra : Members) : Never p (rows.change related extra) := by
  refine (Never.of (rows.linking_never foreign _)).bind fun conditions => ?_
  refine (Never.of (rows.assigned_never foreign _)).bind fun assigned => ?_
  refine (Never.of (Value.cells_never foreign _)).bind fun cells => ?_
  refine (Never.of (Bound.acceptAll_never foreign _)).bind fun _ => database_never.bind fun database => ?_
  exact (stored_never foreign _).bind fun _ => setDatabase_never _

theorem remove_never (rows : JoinRows) (related : List Value) : Never p (rows.remove related) := by
  refine (Never.of (rows.linking_never foreign _)).bind fun conditions => ?_
  refine (Never.of (Bound.acceptAll_never foreign _)).bind fun _ => database_never.bind fun database => ?_
  exact (stored_never foreign _).bind fun _ => setDatabase_never _

theorem relatedKeys_never (rows : JoinRows) : Never p rows.relatedKeys := by
  refine (Never.of (rows.owned_never foreign)).bind fun conditions => ?_
  refine (Never.of (Bound.acceptAll_never foreign _)).bind fun _ => database_never.bind fun database => ?_
  exact (Never.mapM fun row _ => Never.of (Value.ofCell_never foreign _ _)).bind fun _ => Never.pure _

end JoinRows

end ResourceApi
