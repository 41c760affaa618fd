import ResourceApi.Proofs.Session.Added

/-!
Work that is ready for a record of a table to be looked for: nothing is left to write, and the rows that are looked for are
none of those that records in hand stand for. A row that is found then is taken in hand as a new record.
-/

namespace ResourceApi

open Outcome

/-- Whether there is nothing to write of records in hand, which have different numbers below a further one. -/
structure Record.Quiet (records : List (Nat × Record)) (number : Nat) : Prop where
  fresh : ∀ entry ∈ records, entry.1 < number
  nodup : (records.map (·.1)).Nodup
  settled : ∀ entry ∈ records, entry.2.IsWritten

namespace Record.Quiet

variable {records : List (Nat × Record)} {number : Nat} (quiet : Record.Quiet records number) (record : Record)
include quiet

theorem lookup_last : (records ++ [(number, record)]).lookup number = some record := by
  have absent : records.lookup number = none :=
    lookup_eq_none.2 fun entry listed => Nat.ne_of_lt (quiet.fresh entry listed)
  simp [List.lookup_append, absent]

theorem nodup_last : ((records ++ [(number, record)]).map (·.1)).Nodup := by
  rw [List.map_append, List.nodup_append]
  refine ⟨quiet.nodup, by simp, ?_⟩
  intro first before second last
  obtain ⟨entry, listed, rfl⟩ := List.mem_map.1 before
  obtain rfl := List.mem_singleton.1 last
  exact Nat.ne_of_lt (quiet.fresh entry listed)

/-- What is done to the last record is done to no other. -/
theorem replace_last (new : Record) :
    ((records ++ [(number, record)]).map fun entry => if entry.1 == number then (number, new) else entry) =
      records ++ [(number, new)] := by
  rw [List.map_append, List.map_congr_left (g := id), List.map_id]
  · simp
  · intro entry listed
    have other : (entry.1 == number) = false := by simpa using Nat.ne_of_lt (quiet.fresh entry listed)
    simp [other]

/-- Letting go of the last record leaves the others. -/
theorem release_last : (records ++ [(number, record)]).filter (·.1 < number) = records := by
  rw [List.filter_append, List.filter_eq_self.2 fun entry listed => by simpa using quiet.fresh entry listed]
  simp

theorem settled_others {entry : Nat × Record} (listed : entry ∈ records ++ [(number, record)]) (other : entry.1 ≠ number) :
    entry.2.IsWritten := by
  rcases List.mem_append.1 listed with before | last
  · exact quiet.settled entry before
  · obtain rfl := List.mem_singleton.1 last
    exact absurd rfl other

end Record.Quiet

/-- Whether there is nothing to write of the records in hand, and they do not stand for the row of a table that is looked
for. -/
structure Work.Ready (work : Work) (table : Table) (looked : Row → Bool) : Prop where
  quiet : Record.Quiet work.records work.next
  orderly : work.database.Orderly table
  keyed : table.keyColumns ≠ []
  proper : ∀ row, (work.database.rows table.name).filter looked = [row] → table.IsProper row
  free : ∀ row, (work.database.rows table.name).filter looked = [row] → ∀ values, table.read row = .ok values →
    ∀ entry ∈ work.records, entry.2.isOf table values = false

/-- Whether a record was taken in hand, and nothing else has happened. -/
structure Work.Took (before after : Work) (record : Record) : Prop where
  database : after.database = before.database
  records : after.records = before.records ++ [(before.next, record)]
  next : after.next = before.next + 1

/-- Work on one record is ready if the row that is looked for is proper and another than that of the record. -/
theorem Work.Ready.of_stands {work : Work} {table : Table} {looked : Row → Bool} {number : Nat} {record : Record} {own : Row}
    (records : work.records = [(number, record)]) (fresh : number < work.next) (settled : record.IsWritten)
    (stands : record.Stands own) (orderly : work.database.Orderly record.table) (also : work.database.Orderly table)
    (keyed : table.keyColumns ≠ []) (inside : own ∈ work.database.rows record.table.name)
    (others : ∀ row, (work.database.rows table.name).filter looked = [row] →
      table.IsProper row ∧ (record.table.name = table.name → row ≠ own)) : work.Ready table looked where
  quiet := ⟨by simpa [records] using fresh, by simp [records], by simpa [records] using settled⟩
  orderly := also
  keyed := keyed
  proper row alone := (others row alone).1
  free row alone values read entry listed := by
    obtain rfl : entry = (number, record) := by simpa [records] using listed
    obtain ⟨proper, other⟩ := others row alone
    have there := List.mem_of_mem_filter (alone ▸ List.mem_singleton_self row)
    exact stands.isOf_eq_false orderly also keyed inside there proper read other

namespace Job

variable {work after : Work} {resource : Resource} {key : Json} {withDeleted : Bool} {number : Nat}

/-- Finding a record where work is ready: the one row that is looked for is taken in hand as a new record. -/
theorem find_eq_ok_of_ready (ready : work.Ready resource.table (resource.isFor key withDeleted))
    (ran : (find resource key withDeleted).runOn work = (.ok number, after)) :
    ∃ row record, (work.database.rows resource.table.name).filter (resource.isFor key withDeleted) = [row] ∧
      number = work.next ∧ work.Took after record ∧ record.table = resource.table ∧ record.Shows row ∧
      resource.table.IsProper row := by
  obtain ⟨row, values, alone, read, ran⟩ :=
    find_eq_ok_of_quiet ready.quiet.nodup (fun entry listed _ => ready.quiet.settled entry listed) ran
  unfold takeRow at ran
  obtain ⟨_, _, got, taken⟩ := bind_eq_ok.1 ran
  cases got
  split at taken
  · next other held found =>
    have isOf := List.find?_some found
    rw [ready.free row alone values read _ (List.mem_of_find?_eq_some found)] at isOf
    cases isOf
  · cases taken
    exact ⟨row, ⟨resource.table, values, values, true⟩, alone, rfl, ⟨rfl, rfl, rfl⟩, rfl, ⟨rfl, rfl, read⟩,
      ready.proper row alone⟩

section Last

variable {before : List (Nat × Record)} {record : Record} {values : Values}

/-- Values are set in the record that was taken in hand last. -/
theorem setValues_last (quiet : Record.Quiet before number) (last : work.records = before ++ [(number, record)])
    (values : Values) : (setValues number values).runOn work =
      (.ok (), { work with records := before ++ [(number, record.setAll values)] }) := by
  have found : work.records.lookup number = some record := last ▸ quiet.lookup_last record
  rw [setValues, bind_runOn, record_runOn found]
  dsimp only
  rw [setRecord_runOn, last, quiet.replace_last]
  rfl

/-- A stored record in which values were set, the last that was taken in hand, is written. -/
theorem flush_last {row : Row} (ran : (flush number).runOn work = (.ok (), after)) (quiet : Record.Quiet before number)
    (last : work.records = before ++ [(number, record.setAll values)]) (shows : record.Shows row)
    (orderly : work.database.Orderly record.table) (keyed : record.table.keyColumns ≠ [])
    (inside : row ∈ work.database.rows record.table.name) (proper : record.table.IsProper row) :
    ∃ new changed, work.database.Replaces after.database record.table row new ∧
      after = { work with database := after.database, records := before ++ [(number, changed)] } ∧
      changed.table = record.table ∧ changed.values = (record.setAll values).values ∧ changed.Stands new ∧
      ((∀ entry ∈ values, entry.2.same entry.2 = true) → changed.IsWritten) := by
  obtain ⟨new, changed, replaces, same, rest⟩ := flush_setAll ran (last ▸ quiet.nodup_last _)
    (fun entry listed other => quiet.settled_others _ (last ▸ listed) other) (last ▸ quiet.lookup_last _) shows orderly keyed
    inside proper
  rw [last, quiet.replace_last] at same
  exact ⟨new, changed, replaces, same, rest⟩

/-- A new record, the last that was taken in hand, is added. -/
theorem flush_last_new (ran : (flush number).runOn work = (.ok (), after)) (quiet : Record.Quiet before number)
    (last : work.records = before ++ [(number, record)]) (new : record.isStored = false)
    (orderly : work.database.Orderly record.table) :
    ∃ row changed, after = { work with database := after.database, records := before ++ [(number, changed)] } ∧
      work.database.Touches after.database record.table.name ∧ after.database.Orderly record.table ∧
      (after.database.rows record.table.name).Perm (row :: work.database.rows record.table.name) ∧
      changed.table = record.table ∧
      (∀ column ∈ record.table.columns, changed.value column.name ≠ .plain (.double .notANumber) →
        column.Bears (changed.value column.name) (row.cell column.name)) ∧
      ∀ name, (record.value name).isNull = false → changed.value? name = record.value? name := by
  have settled (entry : Nat × Record) (listed : entry ∈ work.records) (stored : entry.2.isStored = true) :
      entry.2.IsWritten := by
    refine quiet.settled_others record (last ▸ listed) fun same => ?_
    have here : (entry.1, entry.2) ∈ before ++ [(number, record)] := last ▸ listed
    have one := lookup_of_mem (quiet.nodup_last record) here
    rw [same, quiet.lookup_last] at one
    rw [← Option.some.inj one, new] at stored
    cases stored
  obtain ⟨row, changed, same, rest⟩ :=
    flush_new ran (last ▸ quiet.nodup_last _) settled (last ▸ quiet.lookup_last _) new orderly
  rw [last, quiet.replace_last] at same
  exact ⟨row, changed, same, rest⟩

end Last

end Job

end ResourceApi
