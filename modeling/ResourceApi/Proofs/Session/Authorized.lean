import ResourceApi.Proofs.Session.Found
import ResourceApi.Proofs.Session.Records

/-!
What was allowed. Before something is done with a record the policy of its resource is asked, if there is one. What was
asked stays on record, and work goes on only if the answer was yes.
-/

namespace ResourceApi

open Outcome

namespace Context

variable (context : Context) (action : Action) (resource : Resource) (key : Option Json)

/-- Whether something may be done with the record of a key, or with no record yet. -/
def allows : Bool :=
  !resource.gates || match context.access.policies.lookup resource.name with
    | none => context.access.default
    | some policy => policy.allows action key context.principal

/-- What is asked before something is done with a record. -/
def questions : List PolicyCall :=
  if resource.gates && (context.access.policies.lookup resource.name).isSome then [⟨resource.name, action, key⟩] else []

theorem action_of_questions {context : Context} {action : Action} {resource : Resource} {key : Option Json}
    {question : PolicyCall} (listed : question ∈ context.questions action resource key) : question.action = action := by
  unfold questions at listed
  split at listed
  · rw [List.mem_singleton.1 listed]
  · cases listed

end Context

/-- What was asked about an action. -/
def PolicyCall.about (action : Action) (calls : List PolicyCall) : List PolicyCall :=
  calls.filter fun call => call.action = action

namespace PolicyCall

variable {context : Context} {action other : Action} {resource : Resource} {key : Option Json}

theorem about_append (action : Action) (calls more : List PolicyCall) :
    about action (calls ++ more) = about action calls ++ about action more := List.filter_append _ _

theorem about_other (unlike : other ≠ action) : about action (context.questions other resource key) = [] :=
  List.filter_eq_nil_iff.2 fun _ listed => by simpa [Context.action_of_questions listed] using unlike

end PolicyCall

/-- The key of a row as policies see it. -/
def Resource.keyOf (resource : Resource) (row : Row) : Json :=
  ((Value.ofCell (resource.table.ref 0 0 resource.key).type (row.cell resource.key)).toOption.getD .null).json "+00:00"

/-- Failures that say that there is no such record. -/
def Failure.IsNotFound (failure : Failure) : Prop := ∃ resource key, failure = .notFound resource key

theorem Failure.isNotFound_ofStorage : Failure.OfStorage Failure.IsNotFound where
  fault _ := by simp [IsNotFound]
  storage _ := by simp [IsNotFound]

/-- A record that shows a row has the key of the row. -/
theorem Record.Shows.keyOf_eq {record : Record} {row : Row} {resource : Resource} (shows : record.Shows row)
    (nodup : record.table.columnNames.Nodup) (same : record.table = resource.table)
    (has : resource.table.hasColumn resource.key = true) :
    (record.value resource.key).json "+00:00" = resource.keyOf row := by
  obtain ⟨column, found⟩ := Option.isSome_iff_exists.1 has
  obtain ⟨listed, named⟩ := Table.mem_of_column? found
  have type : (resource.table.ref 0 0 resource.key).type = column.type := by rw [Table.ref, found]; rfl
  rw [← same] at listed
  have read := (shows.read_value nodup listed).1
  rw [named] at read
  rw [Resource.keyOf, type, read]
  rfl

namespace Job

variable {work after : Work} {number : Nat} {resource : Resource} {key : Json} {withDeleted : Bool}

/-- Asking whether something may be done. -/
theorem authorize_runOn (context : Context) (action : Action) (resource : Resource) (key : Option Json) (work : Work) :
    (authorize context action resource key).runOn work =
      if context.allows action resource key then
        (.ok (), { work with calls := work.calls ++ context.questions action resource key })
      else (.error (.denied action.name resource.name), { work with
        calls := work.calls ++ context.questions action resource key
        events := work.events ++ [.denied action.name resource.name] }) := by
  have decided (allowed : Bool) (state : Work) : (if !allowed then do
        tell (.denied action.name resource.name)
        fail (.denied action.name resource.name) else Pure.pure () : Job Unit).runOn state =
      if allowed then (.ok (), state) else
        (.error (.denied action.name resource.name),
          { state with events := state.events ++ [.denied action.name resource.name] }) := by
    cases allowed <;> rfl
  unfold authorize Context.allows Context.questions
  cases gates : resource.gates with
  | false => simp
  | true =>
    cases found : context.access.policies.lookup resource.name with
    | none =>
      simp only [Bool.not_true, Bool.false_eq_true, if_false, pure_bind, Bool.false_or, Option.isSome_none, Bool.and_false,
        List.append_nil]
      exact decided _ _
    | some policy =>
      simp only [Bool.not_true, Bool.false_eq_true, if_false, Bool.false_or, Option.isSome_some, Bool.and_true, if_true]
      rw [bind_runOn]
      exact decided _ _

/-- Work goes on after it was asked for leave, which is put on record; a refusal is no record that is not found. -/
theorem authorize_comesTo (context : Context) (action : Action) (resource : Resource) (key : Option Json) (work : Work)
    {bad : Prop} : (authorize context action resource key).ComesTo work
      (fun _ after => context.allows action resource key = true ∧
        after = { work with calls := work.calls ++ context.questions action resource key })
      fun failure _ => failure.IsNotFound → bad := by
  constructor <;> intro _ after ran <;> rw [authorize_runOn] at ran <;> split at ran <;> cases ran
  · next may => exact ⟨may, rfl⟩
  · rintro ⟨_, _, other⟩
    cases other

/-- Nothing is asked where a row is taken in hand. -/
theorem takeRow_calls {table : Table} {values : Values} (ran : (takeRow table values).runOn work = (.ok number, after)) :
    after.calls = work.calls := by
  unfold takeRow at ran
  rw [bind_runOn, get_runOn] at ran
  dsimp only at ran
  split at ran
  · obtain ⟨_, _, set, given⟩ := bind_eq_ok.1 ran
    cases given
    cases set
    rfl
  · cases ran
    rfl

/-- Records are found only by a key that the table has. -/
theorem hasColumn_of_find (ran : (find resource key withDeleted).runOn work = (.ok number, after)) :
    resource.table.hasColumn resource.key = true := by
  unfold find at ran
  dsimp only at ran
  split at ran
  · cases ran
  · next has => simpa using has

section InStep

variable (inStep : work.InStep)
include inStep

/-- Records in hand that are in step with the database leave nothing to be written. -/
private theorem quiet (entry : Nat × Record) (listed : entry ∈ work.records) :
    entry.2.isStored = true → entry.2.IsWritten := by
  obtain ⟨keeps, -, row, inside, shows⟩ := inStep.shows entry listed
  exact fun _ => ⟨shows.kept, shows.changes_eq_nil keeps inside⟩

/-- Nothing is asked where a record is found. -/
theorem find_calls (ran : (find resource key withDeleted).runOn work = (.ok number, after)) : after.calls = work.calls := by
  obtain ⟨_, _, -, -, taken⟩ := find_eq_ok_of_quiet inStep.nodup (quiet inStep) ran
  exact takeRow_calls taken

/-- A record is not found only if there is no row for its key. -/
theorem find_eq_notFound {failure : Failure} (ran : (find resource key withDeleted).runOn work = (.error failure, after))
    (notFound : failure.IsNotFound) : (work.database.rows resource.table.name).filter (resource.isFor key withDeleted) = [] := by
  have only := Failure.isNotFound_ofStorage
  -- steps that cannot fail in this way
  have never {α : Type} {job : Job α} {state last : Work} (steps : Job.Never Failure.IsNotFound job)
      (ran : job.runOn state = (.error failure, last)) : False := steps state failure last ran notFound
  unfold find at ran
  dsimp only at ran
  split at ran
  · exact absurd notFound (by cases ran; exact only.fault _)
  rcases bind_eq_error.1 ran with failed | ⟨named, _, made, ran⟩
  · exact (never (Never.of (Cond.ofComparison_never only.fault _ _ _)) failed).elim
  obtain ⟨formed, rfl⟩ := Prod.mk.inj made
  rcases bind_eq_error.1 ran with failed | ⟨_, _, wrote, ran⟩
  · exact (never (unattributed_never only (writeAll_never only)) failed).elim
  rw [unattributed_runOn (writeAll_of_inStep inStep)] at wrote
  cases wrote
  rcases bind_eq_error.1 ran with failed | ⟨_, _, accepted, ran⟩
  · exact (never (Never.of (Bound.acceptAll_never only _)) failed).elim
  obtain ⟨-, rfl⟩ := Prod.mk.inj accepted
  rcases bind_eq_error.1 ran with failed | ⟨_, _, got, ran⟩
  · exact (never database_never failed).elim
  cases got
  rw [matching_eq formed] at ran
  split at ran
  · next none => exact List.map_eq_nil_iff.1 none
  · refine (never (Never.bind (Never.mapM fun column _ => ?_) fun values => takeRow_never _ _) ran).elim
    exact (Never.of (Value.ofCell_never only _ _)).bind fun _ => Never.pure _
  · exact absurd notFound (by cases ran; exact only.storage _)

end InStep

end Job

end ResourceApi
