import ResourceApi.Proofs.Session.Moves
import ResourceApi.Session.Operations

/-!
Writes are all or nothing. Every operation that writes does so under one transaction. Beside each operation stands the
same operation under another guard, or under none: what it does without a guard, step after step, is what the guarded
one does as a whole or not at all.
-/

namespace ResourceApi

variable {α β γ : Type}

/-- Something that is put around the steps of a write. -/
abbrev Guard := {α : Type} → Job α → Job α

namespace Operations

/-! ## Operations under a guard -/

def mutateUnder (guard : Guard) (context : Context) (name : String) (body : Json) : Job MutationResult := do
  let resource ← Job.resource context name
  let nodes ← Job.of (Mutation.validate context.graph resource body)
  let results ← guard (nodes.mapM (Mutation.writeNode context resource []))
  let isNew (result : WriteResult) : Bool := result.operation == "create"
  let created := (results.filter isNew).map WriteResult.key
  let updated := (results.filter (!isNew ·)).map WriteResult.key
  Job.tell (.written context.request resource.name (created.map (Value.json "+00:00"))
    (updated.map (Value.json "+00:00")))
  return ⟨created, updated, results⟩

def destroyUnder (guard : Guard) (context : Context) (name : String) (key : Json) : Job WriteResult := do
  let resource ← Job.resource context name
  let result ← guard do
    let number ← Job.find resource key false
    Job.authorize context .delete resource (some (← Job.keyOf resource number))
    match resource.deletedAt with
    | some column =>
      Job.setValues number [(column, context.now)]
      Job.writeAll
    | none => Job.remove number
    exposed resource number key "delete"
  Job.tell (.deleted context.request resource.name key resource.softDeletes)
  return result

def restoreUnder (guard : Guard) (context : Context) (name : String) (key : Json) : Job WriteResult := do
  let resource ← Job.resource context name
  match resource.deletedAt with
  | none => Job.fail (.unsupported (.softDeletes resource.name))
  | some column =>
    let result ← guard do
      let number ← Job.find resource key true
      Job.authorize context .restore resource (some (← Job.keyOf resource number))
      Job.setValues number [(column, .null)]
      Job.writeAll
      exposed resource number key "restore"
    Job.tell (.restored context.request resource.name key)
    return result

def forceDeleteUnder (guard : Guard) (context : Context) (name : String) (key : Json) : Job WriteResult := do
  let resource ← Job.resource context name
  let result ← guard do
    let number ← Job.find resource key true
    Job.authorize context .forceDelete resource (some (← Job.keyOf resource number))
    let result ← exposed resource number key "force_delete"
    Job.remove number
    return result
  Job.tell (.destroyed context.request resource.name key)
  return result

/-- No guard: what is stored before a failure stays stored. -/
def unguarded : Guard := fun job => job

variable (context : Context) (name : String)

theorem mutate_eq (body : Json) : mutate context name body = mutateUnder Job.transaction context name body := by
  unfold mutate mutateUnder Mutation.execute
  rfl

theorem destroy_eq (key : Json) : destroy context name key = destroyUnder Job.transaction context name key := rfl

theorem restore_eq (key : Json) : restore context name key = restoreUnder Job.transaction context name key := rfl

theorem forceDelete_eq (key : Json) : forceDelete context name key = forceDeleteUnder Job.transaction context name key :=
  rfl

end Operations

namespace Job

/-! ## All or nothing -/

/-- What has to be true of the state after a write: the database is the given one, and the transaction that was open is the
one that is open, so that its owner alone can still take the write back. -/
structure Leaves (before after : Work) (database : Database) : Prop where
  database : after.database = database
  opened : after.opened = before.opened

/-- A job that stores all that some steps store if they succeed, and if they fail fails alike and stores nothing. -/
structure AllOrNothing (job steps : Job α) : Prop where
  all : ∀ {work written result}, steps.runOn work = (.ok result, written) →
    ∃ after, job.runOn work = (.ok result, after) ∧ Leaves work after written.database
  nothing : ∀ {work written failure}, steps.runOn work = (.error failure, written) →
    ∃ after, job.runOn work = (.error failure, after) ∧ Leaves work after work.database

/-- At the end of a session what was written in a transaction of its own stays; what was written in the transaction of a
caller stays if the caller keeps it, and otherwise the database is the one that the caller began with. -/
theorem Leaves.ended {before after : Work} {database : Database} (left : Leaves before after database) :
    after.commit.database = database ∧ after.rollback.database = before.opened.getD database := by
  constructor
  · exact left.database
  · rw [Work.rollback, left.opened, left.database]

namespace AllOrNothing

private theorem transaction_runOn (steps : Job α) (work : Work) : (Job.transaction steps).runOn work =
    match steps.runOn work with
    | (.ok result, after) => (.ok result, { after with records := [] })
    | (.error failure, after) => (.error failure,
      { after with database := work.database, records := [], events := after.events ++ [.rolledBack failure] }) := rfl

/-- A transaction does all of its steps or none, provided that these leave it to others to end transactions. -/
theorem transaction {steps : Job α} (within : Moves (fun before after => after.opened = before.opened) steps) :
    AllOrNothing (Job.transaction steps) steps := by
  constructor
  · intro work written result ran
    have opened := within work
    rw [ran] at opened
    refine ⟨{ written with records := [] }, ?_, rfl, opened⟩
    rw [transaction_runOn, ran]
  · intro work written failure ran
    have opened := within work
    rw [ran] at opened
    refine ⟨{ written with
      database := work.database, records := [], events := written.events ++ [.rolledBack failure] }, ?_, rfl, opened⟩
    rw [transaction_runOn, ran]

/-- What comes before the steps and touches nothing is of no account. -/
theorem behind {first : Job β} {job steps : β → Job α} (still : ∀ work, (first.runOn work).2 = work)
    (each : ∀ b, AllOrNothing (job b) (steps b)) : AllOrNothing (first >>= job) (first >>= steps) := by
  constructor
  · intro work written result ran
    obtain ⟨b, middle, here, later⟩ := bind_eq_ok.1 ran
    obtain rfl : middle = work := by simpa [here] using still work
    obtain ⟨after, kept, left⟩ := (each b).all later
    exact ⟨after, bind_eq_ok.2 ⟨b, middle, here, kept⟩, left⟩
  · intro work written failure ran
    rcases bind_eq_error.1 ran with early | ⟨b, middle, here, later⟩
    · refine ⟨written, bind_eq_error.2 (.inl early), ?_⟩
      obtain rfl : written = work := by simpa [early] using still work
      exact ⟨rfl, rfl⟩
    · obtain rfl : middle = work := by simpa [here] using still work
      obtain ⟨after, undone, left⟩ := (each b).nothing later
      exact ⟨after, bind_eq_error.2 (.inr ⟨b, middle, here, undone⟩), left⟩

/-- A word about what was done, and the result made of it, come after the steps and cannot fail. -/
theorem told {job steps : Job α} (result : α → β) (event : α → Event) (whole : AllOrNothing job steps) :
    AllOrNothing
      (job >>= fun a => do
        tell (event a)
        return result a)
      (steps >>= fun a => do
        tell (event a)
        return result a) := by
  have last (a : α) (work : Work) : (do
      tell (event a)
      return result a : Job β).runOn work = (.ok (result a), { work with events := work.events ++ [event a] }) := rfl
  constructor
  · intro work written b ran
    obtain ⟨a, middle, here, later⟩ := bind_eq_ok.1 ran
    rw [last] at later
    cases later
    obtain ⟨after, kept, left⟩ := whole.all here
    exact ⟨_, bind_eq_ok.2 ⟨a, after, kept, last a after⟩, left.database, left.opened⟩
  · intro work written failure ran
    rcases bind_eq_error.1 ran with early | ⟨a, middle, here, later⟩
    · obtain ⟨after, undone, left⟩ := whole.nothing early
      exact ⟨after, bind_eq_error.2 (.inl undone), left⟩
    · rw [last] at later
      cases later

theorem refused (failure : Failure) : AllOrNothing (Job.fail failure : Job α) (Job.fail failure) := by
  constructor
  · intro work written result ran
    cases ran
  · intro work written cause ran
    cases ran
    exact ⟨work, rfl, rfl, rfl⟩

end AllOrNothing

private theorem resource_still (context : Context) (name : String) (work : Work) :
    ((Job.resource context name).runOn work).2 = work := by
  unfold Job.resource
  split <;> rfl

end Job

namespace Operations

open Job

variable (context : Context) (name : String)

theorem exposed_moves {r : Work → Work → Prop} (allowed : Work.Allows r) (resource : Resource) (number : Nat) (key : Json)
    (operation : String) : Moves r (exposed resource number key operation) :=
  (record_moves allowed number).bind allowed fun _ => Moves.pure allowed _

/-- A write to one record: it is found, the write is allowed, and then it is done. -/
private theorem single_moves {r : Work → Work → Prop} (allowed : Work.Allows r) (resource : Resource) (key : Json)
    (withDeleted : Bool) (action : Action) {next : Nat → Job α} (written : ∀ number, Moves r (next number)) :
    Moves r (do
      let number ← find resource key withDeleted
      authorize context action resource (some (← keyOf resource number))
      next number) := by
  apply (find_moves allowed _ _ _).bind allowed
  intro number
  apply (keyOf_moves allowed _ _).bind allowed
  intro shown
  exact (authorize_moves allowed _ _ _ _).bind allowed fun _ => written number

/-- Setting a column of a record and writing it. -/
private theorem marked_moves {r : Work → Work → Prop} (allowed : Work.Allows r) (resource : Resource) (key : Json)
    (operation column : String) (value : Value) (number : Nat) : Moves r (do
      setValues number [(column, value)]
      writeAll
      exposed resource number key operation) := by
  apply (setValues_moves allowed _ _).bind allowed
  intro _
  exact (writeAll_moves allowed).bind allowed fun _ => exposed_moves allowed _ _ _ _

/-- Mutating, destroying, restoring and deleting for good store all that their steps store, or fail as their steps do and
leave the database as it was, whatever the failure and whether or not a transaction was open. -/
theorem writes_all_or_nothing :
    (∀ body, AllOrNothing (mutate context name body) (mutateUnder unguarded context name body)) ∧
    (∀ key, AllOrNothing (destroy context name key) (destroyUnder unguarded context name key)) ∧
    (∀ key, AllOrNothing (restore context name key) (restoreUnder unguarded context name key)) ∧
    ∀ key, AllOrNothing (forceDelete context name key) (forceDeleteUnder unguarded context name key) := by
  have allowed := Work.allows_opened
  refine ⟨fun body => ?_, fun key => ?_, fun key => ?_, fun key => ?_⟩
  · rw [mutate_eq]
    apply AllOrNothing.behind (resource_still context name)
    intro resource
    apply AllOrNothing.behind fun _ => rfl
    intro nodes
    apply AllOrNothing.told
    apply AllOrNothing.transaction
    exact Moves.mapM allowed fun node _ => Mutation.writeNode_moves allowed resource [] node
  · rw [destroy_eq]
    apply AllOrNothing.behind (resource_still context name)
    intro resource
    apply AllOrNothing.told id
    apply AllOrNothing.transaction
    apply single_moves context allowed
    intro number
    split
    · exact marked_moves allowed resource key _ _ _ number
    · exact (remove_moves allowed _).bind allowed fun _ => exposed_moves allowed _ _ _ _
  · rw [restore_eq]
    apply AllOrNothing.behind (resource_still context name)
    intro resource
    split
    · exact AllOrNothing.refused _
    · apply AllOrNothing.told id
      apply AllOrNothing.transaction
      apply single_moves context allowed
      exact marked_moves allowed resource key _ _ _
  · rw [forceDelete_eq]
    apply AllOrNothing.behind (resource_still context name)
    intro resource
    apply AllOrNothing.told id
    apply AllOrNothing.transaction
    apply single_moves context allowed
    intro number
    apply (exposed_moves allowed _ _ _ _).bind allowed
    intro result
    exact (remove_moves allowed _).bind allowed fun _ => Moves.pure allowed _

end Operations

end ResourceApi
