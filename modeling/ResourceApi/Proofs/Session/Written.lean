import ResourceApi.Proofs.Session.Found

/-!
Setting values of a record and writing it. Of the records in hand, the one that was set is written to its own row, and no
other row is touched.
-/

namespace ResourceApi

open Outcome

namespace Database

variable {before after : Database} {table other : Table} {name : String}

/-- Tables that a change does not touch are as they were. -/
theorem Orderly.of_touches (orderly : before.Orderly table) (touched : before.Touches after name) (other : table.name ≠ name) :
    after.Orderly table := by
  have rows := touched.rows_other other
  exact ⟨touched.stores orderly.stores, orderly.nodup, rows ▸ orderly.full, rows ▸ orderly.distinct⟩

theorem Orderly.update (orderly : before.Orderly table) {chosen : Row → Bool} {cells : List (String × Cell)}
    (changed : before.update table.name chosen cells = .ok after) : after.Orderly table := by
  obtain ⟨touched, updated⟩ := update_stored orderly.stores changed
  have distinct : StoredTable.Distinct table (before.rows table.name) := orderly.distinct
  refine ⟨touched.stores orderly.stores, orderly.nodup, fun row there => ?_, distinct.update updated⟩
  obtain ⟨old, inside, rfl⟩ := List.mem_map.1 ((update_eq_ok orderly.stores changed).2.mem_iff.1 there)
  unfold StoredTable.rewritten
  split
  · exact Table.fullRow_fullRow orderly.nodup _
  · exact orderly.full old inside

theorem Orderly.insert (orderly : before.Orderly table) {cells : List (String × Cell)} {row : Row}
    (inserted : before.insert table.name cells = .ok (after, row)) : after.Orderly table := by
  obtain ⟨touched, added⟩ := insert_stored orderly.stores inserted
  obtain ⟨-, perm, rfl, -⟩ := insert_eq_ok orderly.stores inserted
  have distinct : StoredTable.Distinct table (before.rows table.name) := orderly.distinct
  refine ⟨touched.stores orderly.stores, orderly.nodup, fun row there => ?_, distinct.insert added⟩
  rcases List.mem_cons.1 (perm.mem_iff.1 there) with rfl | inside
  · exact StoredTable.full_added orderly.nodup
  · exact orderly.full row inside

end Database

/-! ## Setting values -/

namespace Record

variable {record : Record} {values : Values} {name : String}

/-- A record in which values were set, one after the other. -/
def setAll (values : Values) (record : Record) : Record :=
  values.foldl (fun record entry => record.set entry.1 entry.2) record

@[simp]
theorem setAll_nil (record : Record) : record.setAll [] = record := rfl

@[simp]
theorem setAll_append (record : Record) (values further : Values) :
    record.setAll (values ++ further) = (record.setAll values).setAll further := by
  simp [setAll]

theorem lookup_put (column : String) (value : Value) (values : Values) :
    (put column value values).lookup name = if name = column then some value else values.lookup name := by
  induction values with
  | nil =>
    by_cases same : name = column
    · simp [put, same]
    · have unlike : (name == column) = false := by simpa using same
      simp [put, List.lookup_cons, same, unlike]
  | cons entry rest ih =>
    obtain ⟨first, old⟩ := entry
    rw [put]
    by_cases here : first = column
    · subst here
      by_cases same : name = first
      · simp [same]
      · have unlike : (name == first) = false := by simpa using same
        simp [List.lookup_cons, same, unlike]
    · rw [if_neg (by simpa using here), List.lookup_cons, List.lookup_cons, ih]
      by_cases same : name = first
      · have other : ¬first = column := here
        simp [same, other]
      · have unlike : (name == first) = false := by simpa using same
        simp [unlike]

private theorem setAll_kept (values : Values) (record : Record) :
    (record.setAll values).table = record.table ∧ (record.setAll values).kept = record.kept ∧
      (record.setAll values).isStored = record.isStored := by
  induction values generalizing record with
  | nil => exact ⟨rfl, rfl, rfl⟩
  | cons entry rest ih => exact ih (record.set entry.1 entry.2)

@[simp]
theorem table_setAll : (record.setAll values).table = record.table := (setAll_kept values record).1

@[simp]
theorem kept_setAll : (record.setAll values).kept = record.kept := (setAll_kept values record).2.1

@[simp]
theorem isStored_setAll : (record.setAll values).isStored = record.isStored := (setAll_kept values record).2.2

/-- Of the values that were set for a column the last one counts. -/
theorem value?_setAll (values : Values) (record : Record) (name : String) :
    (record.setAll values).value? name = (values.reverse.lookup name).or (record.value? name) := by
  induction values generalizing record with
  | nil => rfl
  | cons entry rest ih =>
    obtain ⟨first, value⟩ := entry
    have set : (record.set first value).value? name = if name = first then some value else record.value? name :=
      lookup_put first value record.values
    change ((record.set first value).setAll rest).value? name = _
    rw [ih, set, List.reverse_cons, List.lookup_append, Option.or_assoc]
    congr 1
    by_cases same : name = first
    · simp [same]
    · have unlike : (name == first) = false := by simpa using same
      simp [List.lookup_cons, same, unlike]

end Record

/-- No column changes twice. -/
private theorem Record.changes_eq (record : Record) : record.changes = record.table.columns.filterMap fun column =>
    ((record.value? column.name).bind fun value => match record.kept.lookup column.name with
      | some old => if value.same old then none else some value
      | none => some value).map (column, ·) := by
  unfold Record.changes
  congr 1
  funext column
  cases record.value? column.name with
  | none => rfl
  | some value =>
    cases record.kept.lookup column.name with
    | none => rfl
    | some old => cases same : value.same old <;> simp [same]

theorem Record.nodup_changes {record : Record} (nodup : record.table.columnNames.Nodup) :
    (record.changes.map (·.1.name)).Nodup := by
  have within (columns : List Column) (value : Column → Option Value) :
      ((columns.filterMap fun column => (value column).map (column, ·)).map (·.1.name)).Sublist (columns.map (·.name)) := by
    induction columns with
    | nil => exact .slnil
    | cons first rest ih =>
      cases known : value first with
      | none =>
        simp only [List.filterMap_cons, known, Option.map_none]
        exact ih.cons _
      | some held =>
        simp only [List.filterMap_cons, known, Option.map_some, List.map_cons]
        exact ih.cons_cons _
  rw [changes_eq]
  exact nodup.sublist (within _ _)

/-! ## Writing -/

namespace Job

variable {work after : Work} {number : Nat} {record : Record} {row : Row}

/-- A stored record in which values were set, alone among the records in hand, is written: its row takes the changes, and
no other row is touched. -/
theorem flush_eq_ok (ran : (flush number).runOn work = (.ok (), after)) (nodup : (work.records.map (·.1)).Nodup)
    (others : ∀ entry ∈ work.records, entry.1 ≠ number → entry.2.IsWritten)
    (found : work.records.lookup number = some record) (stored : record.isStored = true)
    (orderly : work.database.Orderly record.table) (keyed : record.table.keyColumns ≠ [])
    (inside : row ∈ work.database.rows record.table.name)
    (counts : ∀ column ∈ record.table.keyColumns, ∀ made, (record.keyValue column.name).cellFor column = .ok made →
      made.CountsAs column.type.affinity (row.cell column.name)) :
    ∃ cells database, Value.cells record.changes = .ok cells ∧ database.Orderly record.table ∧
      work.database.Touches database record.table.name ∧
      (database.rows record.table.name).Perm ((work.database.rows record.table.name).map fun other =>
        if other = row then record.table.fullRow (row.update cells) else other) ∧
      after = { work with
        database := database
        records := work.records.map fun entry => if entry.1 == number then (number, record.settled) else entry } := by
  obtain ⟨_, middle, wrote, rest⟩ := bind_eq_ok.1 ran
  obtain ⟨database, rfl, changed⟩ := writeChanges_eq_ok found stored (writeAll_eq_ok_of_single nodup found stored others wrote)
  rw [bind_runOn, record_runOn (lookup_replace_same found record.settled)] at rest
  simp only [Record.settled] at rest
  cases rest
  rcases changed with ⟨none, rfl⟩ | ⟨cells, keys, made, named, some, updated⟩
  · refine ⟨[], _, by rw [none]; rfl, orderly, .refl _ _, List.Perm.of_eq ?_, rfl⟩
    have still : record.table.fullRow (row.update []) = row := by
      rw [show row.update [] = row by simp [Row.update]]
      exact orderly.full row inside
    rw [List.map_congr_left (g := id), List.map_id]
    intro other _
    by_cases own : other = row <;> simp [own, still]
  · obtain ⟨touched, perm⟩ := Database.update_eq_ok orderly.stores updated
    refine ⟨cells, database, made, orderly.update updated, touched, perm.trans (List.Perm.of_eq ?_), rfl⟩
    have chosen (other : Row) (there : other ∈ work.database.rows record.table.name) :
        isRowOf record keys other = true ↔ other = row := by
      rw [orderly.isRowOf_iff keyed inside there named counts]
      obtain ⟨one, listed, is⟩ := List.any_eq_true.1 some
      exact and_iff_left ((orderly.isRowOf_iff keyed inside listed named counts).1 is).2
    refine List.map_congr_left fun other there => ?_
    by_cases own : other = row
    · subst own
      rw [StoredTable.rewritten_of_chosen ((chosen other there).2 rfl), if_pos rfl]
    · rw [StoredTable.rewritten_of_not_chosen (Bool.eq_false_iff.2 fun yes => own ((chosen other there).1 yes)), if_neg own]

end Job

end ResourceApi
