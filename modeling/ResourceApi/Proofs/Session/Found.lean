import ResourceApi.Proofs.Json.Members
import ResourceApi.Proofs.Session.InStep

/-!
Finding records and writing them, on work whose records in hand are in step with the database.
-/

namespace ResourceApi

open Outcome

/-- Whether nothing was set in a record since it was read or written. -/
structure Record.IsWritten (record : Record) : Prop where
  kept : record.kept = record.values
  changes : record.changes = []

theorem Record.IsWritten.settled_eq {record : Record} (written : record.IsWritten) (stored : record.isStored = true) :
    record.settled = record := by
  obtain ⟨kept, -⟩ := written
  obtain ⟨table, values, old, isStored⟩ := record
  obtain rfl : old = values := kept
  obtain rfl : isStored = true := stored
  rfl

/-- Whether all records in hand are in step with rows of the database. -/
structure Work.InStep (work : Work) : Prop where
  fresh : ∀ entry ∈ work.records, entry.1 < work.next
  nodup : (work.records.map (·.1)).Nodup
  shows : ∀ entry ∈ work.records, work.database.Keeps entry.2.table ∧ entry.2.table.keyColumns ≠ [] ∧
    ∃ row ∈ work.database.rows entry.2.table.name, entry.2.Shows row

/-- What finding leaves as it was: the database, the open transaction, and the records that were in hand. -/
structure Work.Grown (before after : Work) : Prop where
  database : after.database = before.database
  opened : after.opened = before.opened
  next : before.next ≤ after.next
  records : ∀ number record, before.records.lookup number = some record → after.records.lookup number = some record

/-- Whether all records that came in hand are of one table. -/
def Work.Adds (before after : Work) (table : Table) : Prop :=
  ∀ entry ∈ after.records, entry ∈ before.records ∨ entry.2.table = table

theorem Work.Grown.refl (work : Work) : work.Grown work := ⟨rfl, rfl, le_rfl, fun _ _ => id⟩

theorem Work.Grown.trans {first second third : Work} (one : first.Grown second) (two : second.Grown third) :
    first.Grown third :=
  ⟨two.database.trans one.database, two.opened.trans one.opened, one.next.trans two.next,
    fun number record found => two.records number record (one.records number record found)⟩

/-- A failure that is told in other words is a failure all the same. -/
@[simp]
theorem Outcome.mapError_eq_ok {ε η α : Type} {result : Except ε α} {f : ε → η} {a : α} :
    result.mapError f = .ok a ↔ result = .ok a := by
  cases result <;> simp [Except.mapError]

namespace Job

variable {work after : Work} {number : Nat} {record : Record}

/-- Jobs that only look leave the state alone when they are done one after the other. -/
theorem mapM_runOn {α β : Type} {job : α → Job β} {result : α → Except Failure β} {work : Work}
    (each : ∀ item, (job item).runOn work = (result item, work)) (items : List α) :
    (items.mapM job).runOn work = (items.mapM result, work) := by
  induction items with
  | nil => rfl
  | cons item rest ih =>
    rw [List.mapM_cons, List.mapM_cons, bind_runOn, each]
    cases result item with
    | error failure => rfl
    | ok b =>
      dsimp only
      rw [bind_runOn, ih]
      cases rest.mapM result <;> rfl

/-! ## Records by number -/

theorem record_runOn (found : work.records.lookup number = some record) :
    (Job.record number).runOn work = (.ok record, work) := by
  change (Except.ok ((work.records.lookup number).getD default), work) = _
  rw [found]
  rfl

@[simp]
theorem setRecord_runOn (number : Nat) (record : Record) (work : Work) :
    (setRecord number record).runOn work =
      (.ok (), { work with
        records := work.records.map fun entry => if entry.1 == number then (number, record) else entry }) := rfl

theorem map_replace_same {records : List (Nat × Record)} (nodup : (records.map (·.1)).Nodup)
    (found : records.lookup number = some record) :
    (records.map fun entry => if entry.1 == number then (number, record) else entry) = records := by
  rw [List.map_congr_left (g := id), List.map_id]
  rintro ⟨other, held⟩ listed
  by_cases same : other = number
  · subst same
    rw [lookup_of_mem nodup listed] at found
    cases found
    simp
  · simp [same]

theorem map_replace_numbers (records : List (Nat × Record)) (number : Nat) (new : Record) :
    (records.map fun entry => if entry.1 == number then (number, new) else entry).map (·.1) = records.map (·.1) := by
  rw [List.map_map]
  refine List.map_congr_left fun entry _ => ?_
  by_cases same : entry.1 = number <;> simp [same]

theorem lookup_replace_same {records : List (Nat × Record)} (found : records.lookup number = some record)
    (new : Record) :
    (records.map fun entry => if entry.1 == number then (number, new) else entry).lookup number = some new := by
  induction records with
  | nil => cases found
  | cons entry rest ih =>
    obtain ⟨other, held⟩ := entry
    rw [List.lookup_cons] at found
    by_cases same : number = other
    · subst same
      simp
    · have unlike : (number == other) = false := by simpa using same
      have apart : (other == number) = false := by simpa using fun equal : other = number => same equal.symm
      rw [unlike] at found
      simp only [List.map_cons, List.lookup_cons, apart, Bool.false_eq_true, if_false, unlike]
      exact ih found

theorem lookup_replace_other {records : List (Nat × Record)} {other : Nat} (unlike : other ≠ number) (new : Record) :
    (records.map fun entry => if entry.1 == number then (number, new) else entry).lookup other = records.lookup other := by
  induction records with
  | nil => rfl
  | cons entry rest ih =>
    obtain ⟨here, held⟩ := entry
    rw [List.map_cons, List.lookup_cons, List.lookup_cons, ih]
    by_cases same : here = number
    · subst same
      have apart : (other == here) = false := by simpa using unlike
      simp [apart]
    · simp [same]

/-! ## Writing -/

/-- There is nothing to write of a record that is new or in which nothing was set. -/
theorem writeChanges_of_quiet (nodup : (work.records.map (·.1)).Nodup) (found : work.records.lookup number = some record)
    (quiet : record.isStored = true → record.IsWritten) : (writeChanges number).runOn work = (.ok (), work) := by
  unfold writeChanges
  rw [bind_runOn, record_runOn found]
  cases stored : record.isStored with
  | false => simp [stored]
  | true =>
    have written := quiet stored
    dsimp only
    rw [if_neg (by simp [stored]), if_neg (by simp [written.changes]), setRecord_runOn, written.settled_eq stored,
      map_replace_same nodup found]

/-- Writing a stored record: what is known of it is kept, and the rows of its key take what has changed. -/
theorem writeChanges_eq_ok (found : work.records.lookup number = some record) (stored : record.isStored = true)
    (ran : (writeChanges number).runOn work = (.ok (), after)) :
    ∃ database, after = { work with
        database := database
        records := work.records.map fun entry => if entry.1 == number then (number, record.settled) else entry } ∧
      (record.changes = [] ∧ database = work.database ∨
        ∃ cells keys, Value.cells record.changes = .ok cells ∧
          Value.cells (record.table.keyColumns.map fun column => (column, record.keyValue column.name)) = .ok keys ∧
          (work.database.rows record.table.name).any (isRowOf record keys) = true ∧
          work.database.update record.table.name (isRowOf record keys) cells = .ok database) := by
  unfold writeChanges at ran
  rw [bind_runOn, record_runOn found] at ran
  dsimp only at ran
  rw [if_neg (by simp [stored])] at ran
  cases none : record.changes.isEmpty with
  | true =>
    rw [if_neg (by simp [none])] at ran
    cases ran
    exact ⟨work.database, rfl, .inl ⟨List.isEmpty_iff.1 none, rfl⟩⟩
  | false =>
    rw [if_pos (by simp [none])] at ran
    obtain ⟨cells, made, ran⟩ := of_bind_eq_ok.1 ran
    obtain ⟨changed, keys⟩ := Value.cells_append made
    rw [bind_runOn, database_runOn] at ran
    dsimp only at ran
    split at ran
    · cases ran
    · next some =>
      obtain ⟨database, updated, ran⟩ := of_bind_eq_ok.1 ran
      cases ran
      refine ⟨database, rfl, .inr ⟨_, _, changed, keys, ?_, mapError_eq_ok.1 updated⟩⟩
      simpa using some

private theorem writeEach_of_quiet {records : List (Nat × Record)} (nodup : (work.records.map (·.1)).Nodup)
    (none : ∀ entry ∈ records, ∃ record, work.records.lookup entry.1 = some record ∧
      (record.isStored = true → record.IsWritten)) :
    (forIn records PUnit.unit fun entry _ => do
      writeChanges entry.1
      pure (ForInStep.yield PUnit.unit) : Job PUnit).runOn work = (.ok ⟨⟩, work) := by
  induction records with
  | nil => rfl
  | cons entry rest ih =>
    obtain ⟨record, found, unchanged⟩ := none entry List.mem_cons_self
    rw [List.forIn_cons, bind_runOn, bind_runOn, writeChanges_of_quiet nodup found unchanged]
    exact ih fun other listed => none other (List.mem_cons_of_mem _ listed)

theorem writeAll_runOn (work : Work) :
    writeAll.runOn work = ((forIn work.records PUnit.unit fun entry _ => do
      writeChanges entry.1
      pure (ForInStep.yield PUnit.unit) : Job PUnit).runOn work) := by
  rw [writeAll, bind_runOn, get_runOn]
  dsimp only
  rw [bind_runOn]
  split
  · next ran => rw [ran]; rfl
  · next ran => rw [ran]

private theorem writeEach_of_single {records : List (Nat × Record)} (numbers : (work.records.map (·.1)).Nodup)
    (nodup : (records.map (·.1)).Nodup) (listed : number ∈ records.map (·.1)) (found : work.records.lookup number = some record)
    (stored : record.isStored = true)
    (others : ∀ entry ∈ records, entry.1 ≠ number →
      ∃ record, work.records.lookup entry.1 = some record ∧ record.IsWritten)
    (ran : (forIn records PUnit.unit fun entry _ => do
      writeChanges entry.1
      pure (ForInStep.yield PUnit.unit) : Job PUnit).runOn work = (.ok ⟨⟩, after)) :
    (writeChanges number).runOn work = (.ok (), after) := by
  induction records with
  | nil => cases listed
  | cons entry rest ih =>
    obtain ⟨fresh, distinct⟩ := List.nodup_cons.1 nodup
    rw [List.forIn_cons, bind_runOn, bind_runOn] at ran
    by_cases same : entry.1 = number
    · subst same
      cases wrote : (writeChanges entry.1).runOn work with
      | mk result middle =>
        rw [wrote] at ran
        cases result with
        | error failure => cases ran
        | ok _ =>
          have apart (other : Nat × Record) (later : other ∈ rest) : other.1 ≠ entry.1 := fun same =>
            fresh (List.mem_map.2 ⟨other, later, same⟩)
          obtain ⟨database, rfl, -⟩ := writeChanges_eq_ok found stored wrote
          have quiet (other : Nat × Record) (later : other ∈ rest) : ∃ held,
              List.lookup other.1 (work.records.map fun before =>
                if before.1 == entry.1 then (entry.1, record.settled) else before) = some held ∧
                (held.isStored = true → held.IsWritten) := by
            obtain ⟨held, there, unchanged⟩ := others other (List.mem_cons_of_mem _ later) (apart other later)
            exact ⟨held, (lookup_replace_other (apart other later) _).trans there, fun _ => unchanged⟩
          have ran := (writeEach_of_quiet (by rw [map_replace_numbers]; exact numbers) quiet).symm.trans ran
          cases ran
          rfl
    · obtain ⟨record, there, unchanged⟩ := others entry List.mem_cons_self same
      rw [writeChanges_of_quiet numbers there fun _ => unchanged] at ran
      refine ih distinct ?_ (fun other later => others other (List.mem_cons_of_mem _ later)) ran
      rcases List.mem_cons.1 listed with here | later
      · exact absurd here.symm same
      · exact later

/-- If nothing was set in the records in hand but one, that one is written. -/
theorem writeAll_eq_ok_of_single (nodup : (work.records.map (·.1)).Nodup)
    (found : work.records.lookup number = some record) (stored : record.isStored = true)
    (others : ∀ entry ∈ work.records, entry.1 ≠ number → entry.2.IsWritten)
    (ran : writeAll.runOn work = (.ok (), after)) : (writeChanges number).runOn work = (.ok (), after) := by
  rw [writeAll_runOn] at ran
  refine writeEach_of_single nodup nodup (List.mem_map_of_mem (mem_of_lookup found)) found stored ?_ ran
  intro entry listed other
  exact ⟨entry.2, lookup_of_mem nodup listed, others entry listed other⟩

/-- There is nothing to write where nothing was set but in records that are new. -/
theorem writeAll_of_quiet (nodup : (work.records.map (·.1)).Nodup)
    (quiet : ∀ entry ∈ work.records, entry.2.isStored = true → entry.2.IsWritten) :
    writeAll.runOn work = (.ok (), work) := by
  rw [writeAll_runOn]
  apply writeEach_of_quiet nodup
  rintro ⟨number, record⟩ listed
  exact ⟨record, lookup_of_mem nodup listed, quiet _ listed⟩

/-- What succeeds has no failure to be told in other words. -/
theorem unattributed_runOn {job : Job Unit} (ran : job.runOn work = (.ok (), after)) :
    (unattributed job).runOn work = (.ok (), after) := by
  unfold runOn at ran
  unfold runOn unattributed
  rw [ran]

/-- There is nothing to write as long as nothing was set. -/
theorem writeAll_of_inStep (inStep : work.InStep) : writeAll.runOn work = (.ok (), work) := by
  refine writeAll_of_quiet inStep.nodup fun entry listed _ => ?_
  obtain ⟨keeps, -, row, inside, shows⟩ := inStep.shows _ listed
  exact ⟨shows.kept, shows.changes_eq_nil keeps inside⟩

end Job

/-! ## Finding -/

/-- Whether a row is looked for by a key, a deleted one only if it is asked for. -/
def Resource.isFor (resource : Resource) (key : Json) (withDeleted : Bool) (row : Row) : Bool :=
  resource.table.holds row resource.key key && (withDeleted || resource.isLive row)

namespace Job

variable {work after : Work} {number : Nat} {resource : Resource} {key : Json} {withDeleted : Bool}

theorem matching_eq {database : Database} {named : Cond}
    (made : Cond.ofComparison .equal (resource.table.ref 0 0 resource.key) key = .ok named) :
    Query.matching ⟨database.rows, []⟩ [] (.table resource.table.name)
        (named :: if withDeleted then [] else Related.alive resource 0) =
      ((database.rows resource.table.name).filter (resource.isFor key withDeleted)).map fun row => [row] := by
  rw [Query.matching_eq_filter, Query.extend]
  simp only [List.nil_append, List.filter_map]
  refine congrArg (List.map _) (List.filter_congr fun row _ => ?_)
  have met : Query.holds ⟨database.rows, []⟩ [[row]] named = resource.table.holds row resource.key key := by
    rw [Query.holds, Comparison.truth_ofComparison made]
    rfl
  simp only [Function.comp_apply, List.all_cons, met, Resource.isFor]
  cases withDeleted with
  | true => simp
  | false => simp [Query.all_alive]

/-- Taking the row of some values in hand: the record that shows it, which was in hand before or is new. -/
private theorem takeRow_eq_ok {table : Table} {row : Row} {values : Values} (inStep : work.InStep)
    (keeps : work.database.Keeps table) (keyed : table.keyColumns ≠ [])
    (inside : row ∈ work.database.rows table.name) (read : table.read row = .ok values)
    (ran : (takeRow table values).runOn work = (.ok number, after)) :
    after.InStep ∧ work.Grown after ∧ work.Adds after table ∧
      ∃ record, after.records.lookup number = some record ∧ record.table = table ∧ record.Shows row := by
  unfold takeRow at ran
  obtain ⟨_, _, got, taken⟩ := bind_eq_ok.1 ran
  clear ran
  cases got
  split at taken
  · next other held found =>
    obtain ⟨listed, isOf⟩ := And.intro (List.mem_of_find?_eq_some found) (List.find?_some found)
    obtain ⟨keepsHeld, -, own, there, shows⟩ := inStep.shows _ listed
    have named : held.table.name = table.name := by
      simp only [Record.isOf, Bool.and_eq_true, beq_iff_eq] at isOf
      exact isOf.1.2
    obtain rfl := keeps.table_eq keepsHeld named
    obtain rfl := (shows.isOf_iff keepsHeld there keyed inside read).1 isOf
    have lookup := lookup_of_mem inStep.nodup listed
    obtain ⟨_, _, set, given⟩ := bind_eq_ok.1 taken
    rw [shows.complete_eq keepsHeld read, setRecord_runOn, map_replace_same inStep.nodup lookup] at set
    cases set
    cases given
    exact ⟨inStep, .refl _, fun _ => .inl, held, lookup, rfl, shows⟩
  · cases taken
    have absent : work.records.lookup work.next = none :=
      lookup_eq_none.2 fun entry listed => Nat.ne_of_lt (inStep.fresh entry listed)
    have shows : Record.Shows ⟨table, values, values, true⟩ row := ⟨rfl, rfl, read⟩
    refine ⟨⟨?_, ?_, ?_⟩, ⟨rfl, rfl, Nat.le_succ _, ?_⟩, ?_, ⟨table, values, values, true⟩, ?_, rfl, shows⟩
    · intro entry listed
      rcases List.mem_append.1 listed with before | new
      · exact Nat.lt_succ_of_lt (inStep.fresh entry before)
      · obtain rfl := List.mem_singleton.1 new
        exact Nat.lt_succ_self _
    · rw [List.map_append, List.nodup_append]
      refine ⟨inStep.nodup, by simp, ?_⟩
      intro first before second new
      obtain ⟨entry, listed, rfl⟩ := List.mem_map.1 before
      obtain rfl := List.mem_singleton.1 new
      exact Nat.ne_of_lt (inStep.fresh entry listed)
    · intro entry listed
      rcases List.mem_append.1 listed with before | new
      · exact inStep.shows entry before
      · obtain rfl := List.mem_singleton.1 new
        exact ⟨keeps, keyed, row, inside, shows⟩
    · intro other record found
      simp [List.lookup_append, found]
    · intro entry listed
      refine (List.mem_append.1 listed).imp_right fun new => ?_
      obtain rfl := List.mem_singleton.1 new
      rfl
    · simp [List.lookup_append, absent]

/-- Finding a record is to write what is in hand and then to take the one row in hand that is looked for. -/
theorem find_runs (ran : (find resource key withDeleted).runOn work = (.ok number, after)) :
    ∃ middle row values, (unattributed writeAll).runOn work = (.ok (), middle) ∧
      (middle.database.rows resource.table.name).filter (resource.isFor key withDeleted) = [row] ∧
      resource.table.read row = .ok values ∧ (takeRow resource.table values).runOn middle = (.ok number, after) := by
  unfold find at ran
  dsimp only at ran
  split at ran
  · cases ran
  obtain ⟨named, made, ran⟩ := of_bind_eq_ok.1 ran
  obtain ⟨_, middle, wrote, ran⟩ := bind_eq_ok.1 ran
  obtain ⟨_, -, ran⟩ := of_bind_eq_ok.1 ran
  obtain ⟨_, _, got, ran⟩ := bind_eq_ok.1 ran
  rw [database_runOn] at got
  cases got
  rw [matching_eq made] at ran
  split at ran
  · cases ran
  · next frame single =>
    obtain ⟨row, alone, shape⟩ := List.map_eq_singleton_iff.1 single
    subst shape
    obtain ⟨values, _, valued, ran⟩ := bind_eq_ok.1 ran
    have looked (column : Column) : (do
        return (column.name, ← Job.of (Value.ofCell column.type (row.cell column.name))) : Job (String × Value)).runOn
          middle = (do return (column.name, ← Value.ofCell column.type (row.cell column.name)), middle) := by
      rw [bind_runOn, of_runOn]
      cases Value.ofCell column.type (row.cell column.name) <;> rfl
    obtain ⟨read, rfl⟩ := Prod.mk.inj ((mapM_runOn looked _).symm.trans valued)
    exact ⟨middle, row, values, wrote, alone, read, ran⟩
  · cases ran

/-- Where there is nothing to write, finding a record is to take the one row in hand that is looked for. -/
theorem find_eq_ok_of_quiet (nodup : (work.records.map (·.1)).Nodup)
    (quiet : ∀ entry ∈ work.records, entry.2.isStored = true → entry.2.IsWritten)
    (ran : (find resource key withDeleted).runOn work = (.ok number, after)) :
    ∃ row values, (work.database.rows resource.table.name).filter (resource.isFor key withDeleted) = [row] ∧
      resource.table.read row = .ok values ∧ (takeRow resource.table values).runOn work = (.ok number, after) := by
  obtain ⟨middle, row, values, wrote, alone, read, taken⟩ := find_runs ran
  rw [unattributed_runOn (writeAll_of_quiet nodup quiet)] at wrote
  cases wrote
  exact ⟨row, values, alone, read, taken⟩

/-- Finding a record: exactly one row is the one looked for, and the record in hand shows it. -/
theorem find_eq_ok (inStep : work.InStep) (keeps : work.database.Keeps resource.table)
    (keyed : resource.table.keyColumns ≠ [])
    (ran : (find resource key withDeleted).runOn work = (.ok number, after)) :
    ∃ row, (work.database.rows resource.table.name).filter (resource.isFor key withDeleted) = [row] ∧
      after.InStep ∧ work.Grown after ∧ work.Adds after resource.table ∧
        ∃ record, after.records.lookup number = some record ∧ record.table = resource.table ∧ record.Shows row := by
  have quiet (entry : Nat × Record) (listed : entry ∈ work.records) : entry.2.isStored = true → entry.2.IsWritten := by
    obtain ⟨keeps, -, row, inside, shows⟩ := inStep.shows _ listed
    exact fun _ => ⟨shows.kept, shows.changes_eq_nil keeps inside⟩
  obtain ⟨row, values, alone, read, ran⟩ := find_eq_ok_of_quiet inStep.nodup quiet ran
  have inside : row ∈ work.database.rows resource.table.name :=
    List.mem_of_mem_filter (alone ▸ List.mem_singleton_self row)
  obtain ⟨stepped, grown, record, found⟩ := takeRow_eq_ok inStep keeps keyed inside read ran
  exact ⟨row, alone, stepped, grown, record, found⟩

end Job

end ResourceApi
