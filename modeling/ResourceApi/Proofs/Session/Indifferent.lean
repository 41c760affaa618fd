import ResourceApi.Proofs.Outcome

/-!
Work that two databases answer alike. A job that only reads, and reads the same in both, gives one result and leaves each
as it was.
-/

namespace ResourceApi.Job

variable {α β : Type} {database other : Database}

/-- A job that gives the same result on two databases, and leaves them as they are. -/
def Indifferent (database other : Database) (job : Job α) : Prop :=
  ∀ work another : Work, work.database = database → another.database = other →
    (job.runOn work).1 = (job.runOn another).1 ∧ (job.runOn work).2.database = database ∧
      (job.runOn another).2.database = other

namespace Indifferent

theorem of (result : Except Failure α) : Indifferent database other (Job.of result) :=
  fun _ _ here there => ⟨rfl, here, there⟩

theorem pure (a : α) : Indifferent database other (Pure.pure a : Job α) := of (.ok a)

theorem fail (failure : Failure) : Indifferent database other (Job.fail failure : Job α) := of (.error failure)

theorem modify {f : Work → Work} (kept : ∀ work, (f work).database = work.database) :
    Indifferent database other (modify f : Job Unit) :=
  fun work another here there => ⟨rfl, (kept work).trans here, (kept another).trans there⟩

theorem tell (event : Event) : Indifferent database other (Job.tell event) := modify fun _ => rfl

theorem bind {job : Job α} {next : α → Job β} (first : Indifferent database other job)
    (second : ∀ a, Indifferent database other (next a)) : Indifferent database other (job >>= next) := by
  intro work another here there
  have early := first work another here there
  rcases ran : job.runOn work with ⟨result, after⟩
  rcases ranToo : job.runOn another with ⟨resultToo, afterToo⟩
  rw [ran, ranToo] at early
  rw [bind_runOn, bind_runOn, ran, ranToo]
  obtain ⟨same, kept, keptToo⟩ := early
  obtain rfl : result = resultToo := same
  cases result with
  | error failure => exact ⟨rfl, kept, keptToo⟩
  | ok a => exact second a after afterToo kept keptToo

/-- A result in hand is all that a job goes on from. -/
theorem of_bind {result : Except Failure α} {next : α → Job β}
    (second : ∀ a, result = .ok a → Indifferent database other (next a)) :
    Indifferent database other (Job.of result >>= next) := by
  cases result with
  | error failure => exact fail failure
  | ok a => exact second a rfl

theorem discard (result : Except Failure α) : Indifferent database other (discard (Job.of result) : Job PUnit) := by
  cases result with
  | error failure => exact fail failure
  | ok a => exact pure _

/-- What is read of the databases is used only for what they answer alike. -/
theorem database_bind {next : Database → Job β} (same : next database = next other)
    (second : Indifferent database other (next database)) : Indifferent database other (Job.database >>= next) := by
  intro work another here there
  have result := second work another here there
  subst here
  subst there
  rw [bind_runOn, bind_runOn, database_runOn, database_runOn]
  simp only [← same]
  exact result

theorem ite {condition : Prop} [Decidable condition] {first second : Job α}
    (holds : condition → Indifferent database other first) (fails : ¬condition → Indifferent database other second) :
    Indifferent database other (if condition then first else second) := by
  split
  · exact holds ‹_›
  · exact fails ‹_›

theorem mapM {f : α → Job β} {items : List α} (each : ∀ item ∈ items, Indifferent database other (f item)) :
    Indifferent database other (items.mapM f) := by
  induction items with
  | nil => exact pure []
  | cons item rest ih =>
    rw [List.mapM_cons]
    obtain ⟨here, later⟩ := List.forall_mem_cons.1 each
    exact bind here fun _ => bind (ih later) fun _ => pure _

/-- Policies are not asked about what is stored. -/
theorem authorize (context : Context) (action : Action) (resource : Resource) (key : Option Json) :
    Indifferent database other (Job.authorize context action resource key) := by
  apply ite (fun _ => pure _)
  intro _
  have decided (permitted : Bool) : Indifferent database other (if !permitted then do
      Job.tell (.denied action.name resource.name)
      Job.fail (.denied action.name resource.name) else Pure.pure ()) :=
    ite (fun _ => bind (tell _) fun _ => fail _) fun _ => pure _
  split
  · exact bind (pure _) fun _ => decided _
  · exact bind (modify fun _ => rfl) fun _ => bind (pure _) fun _ => decided _

end Indifferent

end ResourceApi.Job
