import ResourceApi.Mutation.Execution
import ResourceApi.Proofs.Resource.Built
import ResourceApi.Proofs.Session.Authorized

/-!
Requests that go through one relation of one record. Nothing is written until the relation is: the record is found, what
it takes of the request is nothing, and the relation is written on a state whose records are in step.
-/

namespace ResourceApi

/-- States that differ in nothing but what was told and asked. -/
def Work.Alike (before after : Work) : Prop :=
  ∃ events calls, after = { before with events := events, calls := calls }

namespace Work.Alike

variable {before after : Work}

theorem database (alike : before.Alike after) : after.database = before.database := by
  obtain ⟨_, _, rfl⟩ := alike
  rfl

theorem records (alike : before.Alike after) : after.records = before.records := by
  obtain ⟨_, _, rfl⟩ := alike
  rfl

theorem next (alike : before.Alike after) : after.next = before.next := by
  obtain ⟨_, _, rfl⟩ := alike
  rfl

theorem opened (alike : before.Alike after) : after.opened = before.opened := by
  obtain ⟨_, _, rfl⟩ := alike
  rfl

theorem inStep (alike : before.Alike after) (inStep : before.InStep) : after.InStep := by
  obtain ⟨_, _, rfl⟩ := alike
  exact ⟨inStep.fresh, inStep.nodup, inStep.shows⟩

theorem grown (alike : before.Alike after) : before.Grown after := by
  obtain ⟨_, _, rfl⟩ := alike
  exact ⟨rfl, rfl, le_rfl, fun _ _ => id⟩

end Work.Alike

namespace Job

variable {work after : Work} {number : Nat} {record : Record}

theorem transaction_runOn {α : Type} (steps : Job α) (work : Work) :
    (Job.transaction steps).runOn work = match steps.runOn work with
      | (.ok result, after) => (.ok result, { after with records := [] })
      | (.error failure, after) => (.error failure, { after with
        database := work.database, records := [], events := after.events ++ [.rolledBack failure] }) := rfl

theorem authorize_eq_ok {context : Context} {action : Action} {resource : Resource} {key : Option Json} {u : Unit}
    (ran : (authorize context action resource key).runOn work = (.ok u, after)) : work.Alike after := by
  rw [authorize_runOn] at ran
  split at ran
  · cases ran
    exact ⟨_, _, rfl⟩
  · cases ran

theorem keyOf_runOn (resource : Resource) (found : work.records.lookup number = some record) :
    (keyOf resource number).runOn work = (.ok ((record.value resource.key).json "+00:00"), work) := by
  rw [keyOf, bind_runOn, record_runOn found]
  rfl

theorem setValues_runOn (found : work.records.lookup number = some record) (values : Values) :
    (setValues number values).runOn work = (.ok (), { work with
      records := work.records.map fun entry => if entry.1 == number then
        (number, values.foldl (fun record entry => record.set entry.1 entry.2) record) else entry }) := by
  rw [setValues, bind_runOn, record_runOn found]
  rfl

theorem setValues_nil (nodup : (work.records.map (·.1)).Nodup) (found : work.records.lookup number = some record) :
    (setValues number []).runOn work = (.ok (), work) := by
  rw [setValues_runOn found]
  change (_, { work with records := work.records.map fun entry => if entry.1 == number then (number, record) else entry }) =
    (_ : Except Failure Unit × Work)
  rw [map_replace_same nodup found]

/-- Finds a record and asks whether something may be done with it. -/
def findFor (context : Context) (action : Action) (resource : Resource) (key : Json) (withDeleted : Bool) : Job Nat := do
  let number ← find resource key withDeleted
  authorize context action resource (some (← keyOf resource number))
  return number

/-- A record that is found may be what was asked for, or else work ends there; it ends as well if there is no such
record. -/
theorem findFor_comesTo {context : Context} {action : Action} {resource : Resource} {key : Json} {withDeleted : Bool}
    (inStep : work.InStep) (keeps : work.database.Keeps resource.table) (keyed : resource.table.keyColumns ≠ []) :
    (findFor context action resource key withDeleted).ComesTo work
      (fun number after => ∃ row,
        (work.database.rows resource.table.name).filter (resource.isFor key withDeleted) = [row] ∧
        after.InStep ∧ work.Grown after ∧ work.Adds after resource.table ∧
        (∃ record, after.records.lookup number = some record ∧ record.table = resource.table ∧ record.Shows row) ∧
        context.allows action resource (some (resource.keyOf row)) = true ∧
        after.calls = work.calls ++ context.questions action resource (some (resource.keyOf row)))
      fun failure _ => failure.IsNotFound →
        (work.database.rows resource.table.name).filter (resource.isFor key withDeleted) = [] := by
  refine .bind ⟨fun number found looked => ?_, fun failure last failed notFound => find_eq_notFound inStep failed notFound⟩
  obtain ⟨row, alone, stepped, grown, adds, record, there, same, shows⟩ := find_eq_ok inStep keeps keyed looked
  refine .bind_of_ok (keyOf_runOn resource there) (.bind ?_)
  rw [shows.keyOf_eq (same ▸ keeps.nodup) same (hasColumn_of_find looked), ← find_calls inStep looked]
  refine (authorize_comesTo _ _ _ _ _).mono ?_ fun _ _ => id
  rintro _ last ⟨may, rfl⟩
  exact .pure ⟨row, alone, ⟨stepped.fresh, stepped.nodup, stepped.shows⟩,
    ⟨grown.database, grown.opened, grown.next, grown.records⟩, adds, ⟨record, there, same, shows⟩, may, rfl⟩

/-- There is nothing to write of a stored record as long as nothing was set. -/
theorem flush_of_inStep (inStep : work.InStep) (found : work.records.lookup number = some record) :
    (flush number).runOn work = (.ok (), work) := by
  obtain ⟨-, -, row, -, shows⟩ := inStep.shows _ (mem_of_lookup found)
  rw [flush, bind_runOn, writeAll_of_inStep inStep]
  dsimp only
  have stored : record.isStored = true := shows.stored
  rw [bind_runOn, record_runOn found]
  simp [stored]

end Job

namespace Mutation

open Job

variable {context : Context} {work after : Work} {number : Nat} {record : Record} {owner target : Resource}

theorem resultOf_runOn (resource : Resource) (operation : String) (relations : List (String × List WriteResult))
    (found : work.records.lookup number = some record) :
    (resultOf resource number operation relations).runOn work =
      (.ok (.mk resource.name operation (record.value resource.key) record.inOrder relations), work) := by
  rw [resultOf, bind_runOn, record_runOn found]
  rfl

/-- What is asked about a record that a node links or unlinks. -/
def actionOf (operation : Operation) : Action := if operation = .detach then .detach else .attach

theorem findLinked_eq (context : Context) (target : Resource) (node : Node) (operation : Operation) :
    findLinked context target node operation =
      findFor context (actionOf operation) target ((Members.get? node.attributes target.key).getD .null) false := rfl

/-- The record that a node links or unlinks is found as any record is. -/
theorem findLinked_eq_ok {node : Node} {operation : Operation} (inStep : work.InStep)
    (keeps : work.database.Keeps target.table) (keyed : target.table.keyColumns ≠ [])
    (ran : (findLinked context target node operation).runOn work = (.ok number, after)) :
    ∃ row, (work.database.rows target.table.name).filter
        (target.isFor ((Members.get? node.attributes target.key).getD .null) false) = [row] ∧
      after.InStep ∧ work.Grown after ∧ work.Adds after target.table ∧
        ∃ record, after.records.lookup number = some record ∧ record.table = target.table ∧ record.Shows row := by
  rw [findLinked_eq] at ran
  obtain ⟨row, alone, stepped, grown, adds, found, -⟩ := (findFor_comesTo inStep keeps keyed).1 _ _ ran
  exact ⟨row, alone, stepped, grown, adds, found⟩

/-- The records of a graph as the storage keeps them. -/
structure Kept (graph : Graph) (database : Database) : Prop where
  keeps : ∀ resource ∈ graph.resources, database.Keeps resource.table
  keyed : ∀ resource ∈ graph.resources, resource.table.keyColumns ≠ []

/-- A node that is found by its key, takes no values, and goes through one relation. -/
structure Through (owner : Resource) (relation : Relation) (entry : Entry) (key : Json) (node : Node) : Prop where
  known : owner.relation? relation.name = some relation
  named : Members.get? node.attributes owner.key = some key
  notNull : key.isNull = false
  nothing : ∀ name ∈ owner.fillable, Members.get? node.attributes name = none
  through : node.relations = [(relation.name, entry)]

variable {relation : Relation} {entry : Entry} {key : Json} {node : Node}

/-- A relation whose link the record does not keep leads to one resource, whatever a node says. -/
theorem targetOf_of_target {graph : Graph} {tag : Option String} (leads : graph.target relation = .ok target)
    (below : relation.kind.linkPlace ≠ .parent) : targetOf graph relation tag = .ok target := by
  rw [targetOf, if_neg]
  · exact leads
  · intro polymorphic
    rw [polymorphic] at below
    exact below rfl

/-- A single relation is written with those that are written before the record or with those after it. -/
theorem writeEntries_single {kept : Bool} {results : List (String × List WriteResult)}
    (known : owner.relation? relation.name = some relation)
    (ran : (writeEntries context owner number kept [(relation.name, entry)]).runOn work = (.ok results, after)) :
    if (relation.kind.linkPlace == .parent) = kept then
      ∃ written, (writeEntry context owner number relation entry).runOn work = (.ok written, after) ∧
        results = [(relation.name, written)]
    else after = work ∧ results = [] := by
  rw [writeEntries, known] at ran
  dsimp only at ran
  split at ran
  · next here =>
    rw [if_pos (eq_of_beq here)]
    obtain ⟨written, middle, wrote, ran⟩ := bind_eq_ok.1 ran
    rw [writeEntries] at ran
    cases ran
    exact ⟨written, wrote, rfl⟩
  · next elsewhere =>
    rw [if_neg (by simpa using elsewhere)]
    rw [writeEntries] at ran
    cases ran
    exact ⟨rfl, rfl⟩

/-- What a node gives to the columns that clients may write. -/
def given (resource : Resource) (attributes : Members) : Values :=
  resource.fillable.filterMap fun name => (Members.get? attributes name).map fun j => (name, Value.plain j)

/-- Takes the record of a node in hand: the one of its key, or a new one. -/
def takeRecord (context : Context) (resource : Resource) (key : Json) : Job Nat :=
  if key.isNull then do
    Job.authorize context .create resource none
    Job.take (Record.new resource.table)
  else findFor context .update resource key false

/-- The steps in which a node is written: its record is taken in hand, the relations whose links it keeps are written, then
the record, then the other relations. -/
theorem writeNode_eq (context : Context) (resource : Resource) (link : Values) (node : Node) :
    writeNode context resource link node = (do
      Job.of (checkRelations resource (node.relations.map (·.1)))
      let start := (← get).next
      let number ← takeRecord context resource ((Members.get? node.attributes resource.key).getD .null)
      let before ← writeEntries context resource number true node.relations
      Job.setValues number (given resource node.attributes ++ link)
      Job.flush number
      let after ← writeEntries context resource number false node.relations
      let result ← resultOf resource number
        (if ((Members.get? node.attributes resource.key).getD .null).isNull then "create" else "update") (before ++ after)
      Job.releaseFrom start
      return result) := by
  obtain ⟨attributes, pivot, tag, relations⟩ := node
  rw [writeNode]
  dsimp only [Node.attributes, Node.relations]
  unfold takeRecord findFor given
  by_cases null : ((Members.get? attributes resource.key).getD .null).isNull = true <;>
    simp only [null, Bool.false_eq_true, if_true, if_false, bind_assoc, pure_bind]

theorem writeNode_steps {link : Values} {result : WriteResult}
    (ran : (writeNode context owner link node).runOn work = (.ok result, after)) :
    ∃ number taken above before set flushed below last ended,
      (takeRecord context owner ((Members.get? node.attributes owner.key).getD .null)).runOn work = (.ok number, taken) ∧
      (writeEntries context owner number true node.relations).runOn taken = (.ok above, before) ∧
      (setValues number (given owner node.attributes ++ link)).runOn before = (.ok (), set) ∧
      (flush number).runOn set = (.ok (), flushed) ∧
      (writeEntries context owner number false node.relations).runOn flushed = (.ok below, last) ∧
      (resultOf owner number
          (if ((Members.get? node.attributes owner.key).getD .null).isNull then "create" else "update")
          (above ++ below)).runOn last = (.ok result, ended) ∧
      after = { ended with records := ended.records.filter (·.1 < work.next) } := by
  rw [writeNode_eq] at ran
  obtain ⟨_, -, ran⟩ := of_bind_eq_ok.1 ran
  rw [bind_runOn, get_runOn] at ran
  dsimp only at ran
  obtain ⟨number, taken, took, ran⟩ := bind_eq_ok.1 ran
  obtain ⟨above, before, wroteAbove, ran⟩ := bind_eq_ok.1 ran
  obtain ⟨_, set, setGiven, ran⟩ := bind_eq_ok.1 ran
  obtain ⟨_, flushed, wrote, ran⟩ := bind_eq_ok.1 ran
  obtain ⟨below, last, wroteBelow, ran⟩ := bind_eq_ok.1 ran
  obtain ⟨result, ended, shown, ran⟩ := bind_eq_ok.1 ran
  cases ran
  exact ⟨number, taken, above, before, set, flushed, below, last, ended, took, wroteAbove, setGiven, wrote, wroteBelow, shown,
    rfl⟩

/-- Writing a node that goes through one relation: its record is found, the relation is written if the record keeps the
link, the record is written, and the relation is written if something else keeps the link. -/
theorem writeNode_eq_ok {result : WriteResult} (through : Through owner relation entry key node) (inStep : work.InStep)
    (keeps : work.database.Keeps owner.table) (keyed : owner.table.keyColumns ≠ [])
    (ran : (writeNode context owner [] node).runOn work = (.ok result, after)) :
    ∃ row number found record, (work.database.rows owner.table.name).filter (owner.isFor key false) = [row] ∧
      found.InStep ∧ work.Grown found ∧ work.Adds found owner.table ∧ found.records.lookup number = some record ∧
      record.table = owner.table ∧ record.Shows row ∧
      ∃ above below before set flushed last,
        (writeEntries context owner number true [(relation.name, entry)]).runOn found = (.ok above, before) ∧
        (setValues number []).runOn before = (.ok (), set) ∧ (flush number).runOn set = (.ok (), flushed) ∧
        (writeEntries context owner number false [(relation.name, entry)]).runOn flushed = (.ok below, last) ∧
        after.database = last.database ∧ after.opened = last.opened := by
  obtain ⟨number, asked, above, before, set, flushed, below, last, ended, took, wroteAbove, setNone, wrote, wroteBelow, shown,
    rfl⟩ := writeNode_steps ran
  have nothing : given owner node.attributes = [] :=
    List.filterMap_eq_nil_iff.2 fun name listed => by rw [through.nothing name listed, Option.map_none]
  rw [through.through] at wroteAbove wroteBelow
  rw [nothing, List.append_nil] at setNone
  rw [through.named, Option.getD_some, takeRecord, through.notNull, if_neg (by simp)] at took
  obtain ⟨number, found, searched, took⟩ := bind_eq_ok.1 took
  obtain ⟨row, alone, stepped, grown, adds, record, there, same, shows⟩ := find_eq_ok inStep keeps keyed searched
  rw [bind_runOn, keyOf_runOn _ there] at took
  dsimp only at took
  obtain ⟨_, _, allowed, took⟩ := bind_eq_ok.1 took
  cases took
  cases shown
  have alike := authorize_eq_ok allowed
  exact ⟨row, number, asked, record, alone, alike.inStep stepped, grown.trans alike.grown,
    fun entry listed => adds entry (alike.records ▸ listed), alike.records ▸ there, same, shows, above, below, before, set,
    flushed, _, wroteAbove, setNone, wrote, wroteBelow, rfl, rfl⟩

/-- Writing a node that goes through a relation whose link the record does not keep comes to writing the relation. -/
theorem writeNode_eq_ok_of_below {result : WriteResult} (through : Through owner relation entry key node)
    (below : relation.kind.linkPlace ≠ .parent) (inStep : work.InStep)
    (keeps : work.database.Keeps owner.table) (keyed : owner.table.keyColumns ≠ [])
    (ran : (writeNode context owner [] node).runOn work = (.ok result, after)) :
    ∃ row number found record, (work.database.rows owner.table.name).filter (owner.isFor key false) = [row] ∧
      found.InStep ∧ work.Grown found ∧ work.Adds found owner.table ∧ found.records.lookup number = some record ∧
      record.table = owner.table ∧ record.Shows row ∧
      ∃ results last, (writeEntry context owner number relation entry).runOn found = (.ok results, last) ∧
        after.database = last.database ∧ after.opened = last.opened := by
  obtain ⟨row, number, found, record, alone, stepped, grown, adds, there, same, shows, _, _, before, set, flushed, last,
    above, setNone, wrote, below', database, opened⟩ := writeNode_eq_ok through inStep keeps keyed ran
  have above := writeEntries_single through.known above
  have after := writeEntries_single through.known below'
  have elsewhere : (relation.kind.linkPlace == .parent) = false := by simpa using below
  rw [elsewhere] at above after
  rw [if_neg (by simp)] at above
  rw [if_pos rfl] at after
  obtain ⟨rfl, -⟩ := above
  rw [setValues_nil stepped.nodup there] at setNone
  cases setNone
  rw [flush_of_inStep stepped there] at wrote
  cases wrote
  obtain ⟨results, wrote, -⟩ := after
  exact ⟨row, number, _, record, alone, stepped, grown, adds, there, same, shows, results, last, wrote, database, opened⟩

/-- Relations that cannot be written are no records that are not found. -/
private theorem checkRelations_never (resource : Resource) (names : List String) :
    Outcome.Never Failure.IsNotFound (checkRelations resource names) := by
  unfold checkRelations
  induction names with
  | nil => exact Outcome.Never.ok ()
  | cons name rest ih =>
    refine Outcome.Never.bind ?_ fun _ _ => ih
    dsimp only
    have refused (cause : Unsupported) : Outcome.Never Failure.IsNotFound (.error (.unsupported cause) : Except Failure Unit) :=
      Outcome.Never.error (by simp [Failure.IsNotFound])
    split
    · exact refused _
    · split
      · exact Outcome.Never.ok ()
      · exact refused _

/-- A node that goes through a relation whose link the record does not keep: what becomes of the relation becomes of the
node, if its record is found. -/
theorem writeNode_comesTo (through : Through owner relation entry key node)
    (below : relation.kind.linkPlace ≠ .parent) (inStep : work.InStep)
    (keeps : work.database.Keeps owner.table) (keyed : owner.table.keyColumns ≠ [])
    (good : Database → List PolicyCall → Prop) (bad : Prop)
    (entry : ∀ row number found record, (work.database.rows owner.table.name).filter (owner.isFor key false) = [row] →
      found.InStep → work.Grown found → work.Adds found owner.table → found.records.lookup number = some record →
      record.table = owner.table → record.Shows row →
      found.calls = work.calls ++ context.questions .update owner (some (owner.keyOf row)) →
      (writeEntry context owner number relation entry).ComesTo found (fun _ last => good last.database last.calls)
        fun failure _ => failure.IsNotFound → bad) :
    (writeNode context owner [] node).ComesTo work (fun _ after => good after.database after.calls)
      fun failure _ => failure.IsNotFound →
        (work.database.rows owner.table.name).filter (owner.isFor key false) = [] ∨ bad := by
  have nothing : given owner node.attributes = [] :=
    List.filterMap_eq_nil_iff.2 fun name listed => by rw [through.nothing name listed, Option.map_none]
  have elsewhere : (relation.kind.linkPlace == .parent) = false := by simpa using below
  rw [writeNode_eq, nothing, through.named, Option.getD_some, through.notNull, takeRecord, through.notNull,
    if_neg Bool.false_ne_true, through.through]
  refine .bind (.of (fun _ _ => ?_) fun failure refused notFound =>
    (checkRelations_never owner _ failure refused notFound).elim)
  refine .bind_of_ok (get_runOn work) (.bind ((findFor_comesTo inStep keeps keyed).mono ?_ fun _ _ => (Or.inl ∘ ·)))
  rintro number found ⟨row, alone, stepped, grown, adds, ⟨record, there, same, shows⟩, -, asked⟩
  rw [writeEntries, through.known]
  dsimp only
  rw [elsewhere, if_neg Bool.false_ne_true, writeEntries]
  refine .bind_of_ok rfl (.bind_of_ok (setValues_nil stepped.nodup there) ?_)
  refine .bind_of_ok (flush_of_inStep stepped there) ?_
  rw [writeEntries, through.known]
  dsimp only
  rw [elsewhere, if_pos (beq_self_eq_true false), writeEntries]
  refine .bind (.bind ((entry row number found record alone stepped grown adds there same shows asked).mono ?_ ?_))
  · exact fun results last holds => .bind_of_ok rfl (.pure (.bind_of_ok rfl (.bind_of_ok rfl (.pure holds))))
  · exact fun _ _ fails notFound => .inr (fails notFound)

private theorem transaction_single (context : Context) (owner : Resource) (node : Node) (work : Work) :
    (Job.transaction ([node].mapM (writeNode context owner []))).runOn work =
      match (writeNode context owner [] node).runOn work with
      | (.ok result, after) => (.ok [result], { after with records := [] })
      | (.error failure, after) => (.error failure, { after with
        database := work.database, records := [], events := after.events ++ [.rolledBack failure] }) := by
  rw [transaction_runOn, List.mapM_cons, List.mapM_nil, bind_runOn]
  rcases (writeNode context owner [] node).runOn work with ⟨_ | result, after⟩ <;> rfl

/-- A record that is let go of leaves the others in hand, and everything else as it was. -/
theorem replace_runOn (start : Nat) (old : Option Nat) (new : Nat) (work : Work) :
    ∃ records, (replace start old new).runOn work = (.ok (), { work with records := records }) := by
  unfold replace
  split
  · split
    · exact ⟨_, rfl⟩
    · exact ⟨work.records, rfl⟩
  · exact ⟨work.records, rfl⟩

/-- A mutation of one node leaves the database as the node leaves it, and as it was if the node fails. -/
theorem execute_single (context : Context) (owner : Resource) (node : Node) (work : Work) :
    ((execute context owner [node]).runOn work).2.database = match (writeNode context owner [] node).runOn work with
      | (.ok _, after) => after.database
      | (.error _, _) => work.database := by
  rw [execute, bind_runOn, transaction_single]
  rcases (writeNode context owner [] node).runOn work with ⟨_ | result, after⟩ <;> rfl

theorem execute_single_eq_error {failure : Failure} (ran : (execute context owner [node]).runOn work = (.error failure, after)) :
    after.database = work.database := by
  have database := execute_single context owner node work
  rw [ran] at database
  rw [execute, bind_runOn, transaction_single] at ran
  rcases wrote : (writeNode context owner [] node).runOn work with ⟨failure | written, last⟩
  · rw [wrote] at database
    exact database
  · rw [wrote] at ran
    cases ran

/-- What becomes of a mutation of one node is what becomes of the node. -/
theorem execute_single_comesTo (good : Database → List PolicyCall → Prop) {bad : Failure → Prop}
    (wrote : (writeNode context owner [] node).ComesTo work (fun _ last => good last.database last.calls)
      fun failure _ => bad failure) :
    (execute context owner [node]).ComesTo work (fun _ after => good after.database after.calls)
      fun failure _ => bad failure := by
  rw [execute]
  refine .bind ⟨fun results last ran => ?_, fun failure last ran => ?_⟩ <;>
    rw [transaction_single] at ran <;> rcases node : (writeNode context owner [] node).runOn work with ⟨cause | result, after⟩ <;>
    rw [node] at ran <;> cases ran
  · have holds := wrote.1 result after node
    exact .bind_of_ok (tell_runOn _ _) (.pure holds)
  · exact wrote.2 _ _ node

theorem execute_single_eq_ok {result : MutationResult} (ran : (execute context owner [node]).runOn work = (.ok result, after)) :
    ∃ written last, (writeNode context owner [] node).runOn work = (.ok written, last) ∧
      after.database = last.database ∧ result.results = [written] := by
  rw [execute, bind_runOn, transaction_single] at ran
  rcases wrote : (writeNode context owner [] node).runOn work with ⟨failure | written, last⟩
  · rw [wrote] at ran
    cases ran
  · rw [wrote] at ran
    cases ran
    exact ⟨written, last, rfl, rfl, rfl⟩

end Mutation

end ResourceApi
