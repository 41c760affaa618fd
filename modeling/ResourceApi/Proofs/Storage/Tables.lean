import Mathlib.Data.List.Perm.Basic
import ResourceApi.Proofs.Storage.Order
import ResourceApi.Storage.Database

/-!
What the storage does to the rows of a table. Up to the order of the rows, an insertion adds one row, a change rewrites
the chosen rows where they stand, and a deletion leaves the others; no other table is touched.
-/

namespace ResourceApi

namespace Row

@[simp]
theorem cell_nil (column : String) : Row.cell [] column = .null := rfl

/-- A row takes the given cells for its columns. -/
theorem cell_update (row : Row) (cells : List (String × Cell)) (column : String) :
    (row.update cells).cell column =
      if (row.lookup column).isSome then (cells.lookup column).getD (row.cell column) else .null := by
  unfold Row.cell Row.update
  induction row with
  | nil => rfl
  | cons entry rest ih =>
    obtain ⟨name, old⟩ := entry
    by_cases same : column = name
    · subst same
      simp
    · have other : (column == name) = false := by simpa using same
      simp only [List.map_cons, List.lookup_cons, other]
      exact ih

/-- Rows with the same columns are one if their cells are. -/
theorem ext {first second : Row} (columns : first.map Prod.fst = second.map Prod.fst)
    (nodup : (first.map Prod.fst).Nodup) (cells : ∀ name ∈ first.map Prod.fst, first.cell name = second.cell name) :
    first = second := by
  induction first generalizing second with
  | nil => exact (List.map_eq_nil_iff.1 columns.symm).symm
  | cons entry rest ih =>
    obtain ⟨name, held⟩ := entry
    cases second with
    | nil => cases columns
    | cons other others =>
      obtain ⟨word, kept⟩ := other
      obtain ⟨rfl, alike⟩ : name = word ∧ rest.map Prod.fst = others.map Prod.fst := by simpa using columns
      obtain ⟨fresh, distinct⟩ := List.nodup_cons.1 nodup
      have here := cells name (by simp)
      obtain rfl : held = kept := by simpa [Row.cell] using here
      rw [ih alike distinct fun column listed => ?_]
      have later := cells column (by simp only [List.map_cons, List.mem_cons]; exact .inr listed)
      have unlike : (column == name) = false := by
        rw [beq_eq_false_iff_ne]
        rintro rfl
        exact fresh listed
      simpa [Row.cell, List.lookup_cons, unlike] using later

theorem columns_update (row : Row) (cells : List (String × Cell)) : (row.update cells).map Prod.fst = row.map Prod.fst := by
  simp [Row.update, Function.comp_def]

end Row

namespace Table

variable {table : Table} {column : Column}

/-- The cell of a full row is what the column of the name makes of the given one. -/
theorem cell_fullRow (table : Table) (cells : List (String × Cell)) (name : String) :
    (table.fullRow cells).cell name =
      ((table.column? name).map fun column =>
        ((cells.lookup name).getD .null).stored column.type.affinity).getD .null := by
  unfold Table.fullRow Table.column? Row.cell
  induction table.columns with
  | nil => rfl
  | cons first rest ih =>
    by_cases same : first.name = name
    · simp [same]
    · have other : (name == first.name) = false := by simpa using fun equal : name = first.name => same equal.symm
      have unlike : (first.name == name) = false := by simpa using same
      simpa [List.lookup_cons, List.find?_cons, other, unlike] using ih

theorem columns_fullRow (table : Table) (cells : List (String × Cell)) :
    (table.fullRow cells).map Prod.fst = table.columnNames := by
  simp [Table.fullRow, Table.columnNames]

end Table

namespace StoredTable

/-- A row after a change: the chosen ones take the cells. -/
def rewritten (table : Table) (chosen : Row → Bool) (cells : List (String × Cell)) (row : Row) : Row :=
  if chosen row then table.fullRow (row.update cells) else row

theorem rewritten_of_chosen {table : Table} {chosen : Row → Bool} {cells : List (String × Cell)} {row : Row}
    (yes : chosen row = true) : rewritten table chosen cells row = table.fullRow (row.update cells) :=
  if_pos yes

theorem rewritten_of_not_chosen {table : Table} {chosen : Row → Bool} {cells : List (String × Cell)} {row : Row}
    (no : chosen row = false) : rewritten table chosen cells row = row := by
  simp [rewritten, no]

theorem updateFrom_eq_ok {table : Table} {chosen : Row → Bool} {cells : List (String × Cell)}
    {done rows result : List Row} (changed : updateFrom table chosen cells done rows = .ok result) :
    result = done.reverse ++ rows.map (rewritten table chosen cells) := by
  induction rows generalizing done with
  | nil =>
    cases changed
    simp
  | cons row rest ih =>
    rw [updateFrom] at changed
    by_cases yes : chosen row = true
    · rw [if_pos yes] at changed
      dsimp only at changed
      split at changed
      · cases changed
      · rw [ih changed]
        simp [rewritten_of_chosen yes]
    · rw [if_neg yes] at changed
      rw [ih changed]
      simp [rewritten_of_not_chosen (Bool.eq_false_iff.2 yes)]

theorem arranged_perm (table : Table) (rows : List Row) : (arranged table rows).Perm rows := by
  unfold arranged
  split
  · exact .refl _
  · exact List.mergeSort_perm _ _

theorem update_eq_ok {stored after : StoredTable} {chosen : Row → Bool} {cells : List (String × Cell)}
    (changed : stored.update chosen cells = .ok after) :
    after.table = stored.table ∧ after.rows.Perm (stored.rows.map (rewritten stored.table chosen cells)) := by
  unfold StoredTable.update at changed
  cases updated : updateFrom stored.table chosen cells [] stored.rows with
  | error cause =>
    rw [updated] at changed
    cases changed
  | ok rows =>
    rw [updated] at changed
    cases changed
    refine ⟨rfl, ?_⟩
    have made := updateFrom_eq_ok updated
    rw [List.reverse_nil, List.nil_append] at made
    rw [← made]
    exact arranged_perm _ _

theorem sameKey_comm (table : Table) (row other : Row) : sameKey table row other = sameKey table other row := by
  unfold sameKey
  congr 2
  funext column
  rw [Cell.order_swap]
  cases Cell.order (other.cell column.name) (row.cell column.name) <;> rfl

theorem ite_some_ne (condition : Prop) [Decidable condition] (first second : StorageCause) :
    ¬(if condition then some first else some second) = none := by
  split <;> simp

/-- A row that nothing stands against has a key of its own. -/
theorem ne_of_objection? {table : Table} {others : List Row} {row : Row} (free : objection? table others row = none) :
    ∀ other ∈ others, ¬sameKey table row other := by
  intro other there same
  have taken : others.any (sameKey table row) = true := List.any_eq_true.2 ⟨other, there, same⟩
  unfold objection? at free
  simp only [taken, if_true] at free
  cases missing : table.columns.find? fun column => (!column.isNullable || column.isKey) && row.cell column.name == .null <;>
    rw [missing] at free <;> exact ite_some_ne _ _ _ free

/-- A row that nothing stands against has an integer for a place. -/
theorem placed_of_objection? {table : Table} {others : List Row} {row : Row} (free : objection? table others row = none)
    {place : Column} (found : table.placeColumn? = some place) : ∃ n, row.cell place.name = .int n := by
  unfold objection? at free
  simp only [found] at free
  cases held : row.cell place.name with
  | int n => exact ⟨n, rfl⟩
  | _ => simp [held] at free

/-- The rows of a table have different keys. -/
def Distinct (table : Table) (rows : List Row) : Prop := rows.Pairwise fun a b => ¬sameKey table a b

theorem Distinct.perm {table : Table} {rows others : List Row} (distinct : Distinct table rows) (perm : others.Perm rows) :
    Distinct table others :=
  (perm.pairwise_iff fun no yes => no (sameKey_comm table _ _ ▸ yes)).2 distinct

/-- Changing rows one after the other keeps the keys different. -/
theorem Distinct.updateFrom {table : Table} {chosen : Row → Bool} {cells : List (String × Cell)}
    {done rows result : List Row} (distinct : Distinct table (done.reverse ++ rows))
    (changed : updateFrom table chosen cells done rows = .ok result) : Distinct table result := by
  induction rows generalizing done with
  | nil =>
    cases changed
    simpa using distinct
  | cons row rest ih =>
    rw [StoredTable.updateFrom] at changed
    split at changed
    · dsimp only at changed
      split at changed
      · cases changed
      · next free =>
        refine ih ?_ changed
        have apart := ne_of_objection? free
        obtain ⟨before, later, across⟩ := List.pairwise_append.1 distinct
        rw [List.reverse_cons, List.append_assoc, List.singleton_append]
        refine List.pairwise_append.2 ⟨before, List.pairwise_cons.2 ⟨fun other there => ?_, (List.pairwise_cons.1 later).2⟩,
          fun first there => List.forall_mem_cons.2 ⟨?_, fun other behind => ?_⟩⟩
        · exact apart other (List.mem_append_right _ there)
        · rw [sameKey_comm]
          exact apart first (List.mem_append_left _ (List.mem_reverse.1 there))
        · exact across first there other (List.mem_cons_of_mem _ behind)
    · exact ih (by simpa using distinct) changed

theorem Distinct.update {stored after : StoredTable} {chosen : Row → Bool} {cells : List (String × Cell)}
    (distinct : Distinct stored.table stored.rows) (changed : stored.update chosen cells = .ok after) :
    Distinct stored.table after.rows := by
  unfold StoredTable.update at changed
  cases updated : StoredTable.updateFrom stored.table chosen cells [] stored.rows with
  | error cause =>
    rw [updated] at changed
    cases changed
  | ok rows =>
    rw [updated] at changed
    cases changed
    have start : Distinct stored.table (([] : List Row).reverse ++ stored.rows) := distinct
    exact (start.updateFrom updated).perm (arranged_perm _ _)

theorem place_perm (stored : StoredTable) (row : Row) : (stored.place row).Perm (row :: stored.rows) := by
  unfold StoredTable.place
  split
  · exact List.perm_append_singleton row stored.rows
  · dsimp only
    refine List.perm_middle.trans ?_
    rw [List.takeWhile_append_dropWhile]

/-- The row that is made of some cells when it is added: without a place it takes the next one. -/
def added (stored : StoredTable) (cells : List (String × Cell)) : Row :=
  let row := stored.table.fullRow cells
  match stored.table.placeColumn? with
  | some column =>
    if row.cell column.name = .null then row.update [(column.name, .int (stored.nextPlace column.name))] else row
  | none => row

private theorem insert_eq (stored : StoredTable) (cells : List (String × Cell)) : stored.insert cells =
    match objection? stored.table stored.rows (stored.added cells) with
    | some cause => .error cause
    | none => .ok ({ stored with rows := stored.place (stored.added cells) }, stored.added cells) := rfl

theorem insert_eq_ok {stored after : StoredTable} {cells : List (String × Cell)} {row : Row}
    (inserted : stored.insert cells = .ok (after, row)) :
    row = stored.added cells ∧ after.table = stored.table ∧ after.rows.Perm (row :: stored.rows) ∧
      objection? stored.table stored.rows row = none := by
  rw [insert_eq] at inserted
  split at inserted
  · cases inserted
  · next free =>
    cases inserted
    exact ⟨rfl, rfl, place_perm _ _, free⟩

theorem Distinct.insert {stored after : StoredTable} {cells : List (String × Cell)} {row : Row}
    (distinct : Distinct stored.table stored.rows) (inserted : stored.insert cells = .ok (after, row)) :
    Distinct stored.table after.rows := by
  obtain ⟨-, -, perm, free⟩ := insert_eq_ok inserted
  exact Distinct.perm (List.pairwise_cons.2 ⟨ne_of_objection? free, distinct⟩) perm

end StoredTable

namespace Database

private theorem map_eq_ok {α β : Type} {result : Except StorageCause α} {f : α → β} {b : β} :
    result.map f = .ok b ↔ ∃ a, result = .ok a ∧ f a = b := by
  cases result <;> simp [Except.map]

variable {database after : Database} {name : String}

theorem table?_name {stored : StoredTable} (found : database.table? name = some stored) : stored.table.name = name := by
  simpa using List.find?_some found

theorem rows_of_table? {stored : StoredTable} (found : database.table? name = some stored) :
    database.rows name = stored.rows := by
  rw [Database.rows, found]
  rfl

theorem table?_set_same {stored : StoredTable} (present : (database.table? stored.table.name).isSome) :
    (database.set stored).table? stored.table.name = some stored := by
  obtain ⟨tables⟩ := database
  unfold Database.table? at present ⊢
  simp only [Database.set] at present ⊢
  induction tables with
  | nil => cases present
  | cons old rest ih =>
    by_cases same : old.table.name = stored.table.name
    · simp [same]
    · have other : (old.table.name == stored.table.name) = false := by simpa using same
      simp only [List.map_cons, List.find?_cons, other, Bool.false_eq_true, if_false] at present ⊢
      exact ih present

theorem table?_set_other {stored : StoredTable} (other : name ≠ stored.table.name) :
    (database.set stored).table? name = database.table? name := by
  obtain ⟨tables⟩ := database
  simp only [Database.set, Database.table?]
  induction tables with
  | nil => rfl
  | cons old rest ih =>
    rw [List.map_cons, List.find?_cons, List.find?_cons, ih]
    by_cases same : old.table.name = stored.table.name
    · have unlike : (stored.table.name == name) = false := by simpa using other.symm
      simp [same, unlike]
    · simp [same]

/-- Whether the database has a table under its name. -/
def Stores (database : Database) (table : Table) : Prop :=
  ∃ rows, database.table? table.name = some ⟨table, rows⟩

/-- How a change of one table shows: the table and all others keep their columns, and the others their rows. -/
structure Touches (before after : Database) (name : String) : Prop where
  others : ∀ other, other ≠ name → after.table? other = before.table? other
  columns : (after.table? name).map (·.table) = (before.table? name).map (·.table)

namespace Touches

variable {before : Database}

theorem refl (database : Database) (name : String) : Touches database database name := ⟨fun _ _ => rfl, rfl⟩

theorem trans {last : Database} (first : Touches before after name) (second : Touches after last name) :
    Touches before last name :=
  ⟨fun other unlike => (second.others other unlike).trans (first.others other unlike), second.columns.trans first.columns⟩

theorem rows_other (touched : Touches before after name) {other : String} (unlike : other ≠ name) :
    after.rows other = before.rows other := by
  rw [Database.rows, Database.rows, touched.others other unlike]

theorem stores (touched : Touches before after name) {table : Table} (stored : before.Stores table) :
    after.Stores table := by
  obtain ⟨rows, found⟩ := stored
  by_cases same : table.name = name
  · subst same
    have columns := touched.columns
    rw [found] at columns
    obtain ⟨⟨kept, now⟩, here, rfl⟩ := Option.map_eq_some_iff.1 columns
    exact ⟨now, here⟩
  · exact ⟨rows, (touched.others _ same).trans found⟩

end Touches

theorem modifyTable_eq_ok {α : Type} {change : StoredTable → Except StorageCause (StoredTable × α)} {result : α}
    (keeps : ∀ stored changed value, change stored = .ok (changed, value) → changed.table = stored.table)
    (done : database.modifyTable name change = .ok (after, result)) :
    Touches database after name ∧ ∃ stored changed, database.table? name = some stored ∧
      change stored = .ok (changed, result) ∧ after.table? name = some changed := by
  unfold Database.modifyTable at done
  split at done
  · cases done
  · next stored found =>
    cases made : change stored with
    | error cause =>
      rw [made] at done
      cases done
    | ok entry =>
      obtain ⟨changed, value⟩ := entry
      rw [made] at done
      cases done
      have kept := keeps stored changed _ made
      have here : changed.table.name = name := by rw [kept, table?_name found]
      have now : (database.set changed).table? name = some changed := by
        rw [← here]
        apply table?_set_same
        rw [here, found]
        rfl
      refine ⟨⟨fun other unlike => ?_, ?_⟩, stored, changed, found, made, now⟩
      · apply table?_set_other
        rw [here]
        exact unlike
      · rw [now, found, Option.map_some, Option.map_some, kept]

section Touched

variable {chosen : Row → Bool} {cells : List (String × Cell)} {row : Row}

theorem insert_touches (inserted : database.insert name cells = .ok (after, row)) : Touches database after name :=
  (modifyTable_eq_ok (fun _ _ _ made => (StoredTable.insert_eq_ok made).2.1) inserted).1

theorem update_touches (changed : database.update name chosen cells = .ok after) : Touches database after name := by
  obtain ⟨⟨now, _⟩, modified, rfl⟩ := map_eq_ok.1 changed
  refine (modifyTable_eq_ok (fun stored changed _ made => ?_) modified).1
  obtain ⟨rewritten, updated, same⟩ := map_eq_ok.1 made
  cases same
  exact (StoredTable.update_eq_ok updated).1

theorem delete_touches (removed : database.delete name chosen = .ok after) : Touches database after name := by
  obtain ⟨⟨now, _⟩, modified, rfl⟩ := map_eq_ok.1 removed
  refine (modifyTable_eq_ok (fun stored changed _ made => ?_) modified).1
  cases made
  rfl

end Touched

variable {table : Table} (stored : database.Stores table)
include stored

/-- A change of the database is one of the table of the name. -/
theorem update_stored {chosen : Row → Bool} {cells : List (String × Cell)}
    (changed : database.update table.name chosen cells = .ok after) :
    Touches database after table.name ∧ StoredTable.update ⟨table, database.rows table.name⟩ chosen cells =
      .ok ⟨table, after.rows table.name⟩ := by
  obtain ⟨rows, found⟩ := stored
  unfold Database.update at changed
  obtain ⟨⟨now, value⟩, modified, rfl⟩ := map_eq_ok.1 changed
  have step (before after : StoredTable) (value : Unit)
      (made : (before.update chosen cells).map (·, ()) = .ok (after, value)) :
      before.update chosen cells = .ok after := by
    obtain ⟨_, updated, same⟩ := map_eq_ok.1 made
    cases same
    exact updated
  obtain ⟨touched, before, after, here, made, there⟩ :=
    modifyTable_eq_ok (fun before after value made => (StoredTable.update_eq_ok (step before after value made)).1) modified
  cases here.symm.trans found
  have updated := step _ _ _ made
  have same := (StoredTable.update_eq_ok updated).1
  obtain ⟨kept, now⟩ := after
  obtain rfl : kept = table := same
  refine ⟨touched, ?_⟩
  rw [rows_of_table? there, rows_of_table? found]
  exact updated

theorem update_eq_ok {chosen : Row → Bool} {cells : List (String × Cell)}
    (changed : database.update table.name chosen cells = .ok after) :
    Touches database after table.name ∧
      (after.rows table.name).Perm ((database.rows table.name).map (StoredTable.rewritten table chosen cells)) := by
  obtain ⟨touched, updated⟩ := update_stored stored changed
  exact ⟨touched, (StoredTable.update_eq_ok updated).2⟩

theorem delete_eq_ok {chosen : Row → Bool} (changed : database.delete table.name chosen = .ok after) :
    Touches database after table.name ∧
      after.rows table.name = (database.rows table.name).filter (!chosen ·) := by
  obtain ⟨rows, found⟩ := stored
  unfold Database.delete at changed
  obtain ⟨⟨now, value⟩, modified, rfl⟩ := map_eq_ok.1 changed
  obtain ⟨touched, before, after, here, made, there⟩ :=
    modifyTable_eq_ok (fun before after value made => by cases made; rfl) modified
  cases here.symm.trans found
  cases made
  refine ⟨touched, ?_⟩
  rw [rows_of_table? there, rows_of_table? found]
  rfl

/-- An insertion into the database is one into the table of the name. -/
theorem insert_stored {cells : List (String × Cell)} {row : Row}
    (inserted : database.insert table.name cells = .ok (after, row)) :
    Touches database after table.name ∧ StoredTable.insert ⟨table, database.rows table.name⟩ cells =
      .ok (⟨table, after.rows table.name⟩, row) := by
  obtain ⟨rows, found⟩ := stored
  obtain ⟨touched, before, after, here, made, there⟩ :=
    modifyTable_eq_ok (fun before after value made => (StoredTable.insert_eq_ok made).2.1) inserted
  cases here.symm.trans found
  have same := (StoredTable.insert_eq_ok made).2.1
  obtain ⟨kept, now⟩ := after
  obtain rfl : kept = table := same
  refine ⟨touched, ?_⟩
  rw [rows_of_table? there, rows_of_table? found]
  exact made

theorem insert_eq_ok {cells : List (String × Cell)} {row : Row}
    (inserted : database.insert table.name cells = .ok (after, row)) :
    Touches database after table.name ∧ (after.rows table.name).Perm (row :: database.rows table.name) ∧
      row = StoredTable.added ⟨table, database.rows table.name⟩ cells ∧
      StoredTable.objection? table (database.rows table.name) row = none := by
  obtain ⟨touched, added⟩ := insert_stored stored inserted
  obtain ⟨rfl, -, perm, free⟩ := StoredTable.insert_eq_ok added
  exact ⟨touched, perm, rfl, free⟩

end Database

end ResourceApi
