import ResourceApi.Proofs.Session.Borne
import ResourceApi.Proofs.Session.Written

/-!
Records that stand for rows. What a record has in hand after it was written need not be what would be read of its row, but
its row bears it, column by column.
-/

namespace ResourceApi

open Outcome

/-- Whether the cells of a row are as its columns expect them, and written as they are read. -/
def Table.IsProper (table : Table) (row : Row) : Prop :=
  ∀ column ∈ table.columns, column.Proper (row.cell column.name) ∧ column.Returns (row.cell column.name)

namespace Database

theorem Keeps.isProper {database : Database} {table : Table} {row : Row} (keeps : database.Keeps table)
    (inside : row ∈ database.rows table.name) (exact : ∀ column ∈ table.columns, (row.cell column.name).IsExact) :
    table.IsProper row := by
  intro column listed
  have returns := keeps.returns row inside column listed
  exact ⟨⟨Table.isStored_of_full keeps.nodup (keeps.full row inside) listed, exact column listed, .inr returns⟩, returns⟩

/-- A row of a table gives way to another one, and nothing else changes. -/
structure Replaces (before after : Database) (table : Table) (row new : Row) : Prop where
  touched : before.Touches after table.name
  orderly : after.Orderly table
  rows : (after.rows table.name).Perm ((before.rows table.name).map fun other => if other = row then new else other)

/-- A row gives way to itself as long as nothing happens. -/
theorem Replaces.refl {database : Database} {table : Table} (orderly : database.Orderly table) (row : Row) :
    database.Replaces database table row row where
  touched := .refl _ _
  orderly := orderly
  rows := List.Perm.of_eq (by
    rw [List.map_congr_left (g := id), List.map_id]
    intro other _
    by_cases same : other = row <;> simp [same])

namespace Replaces

variable {before after : Database} {table other : Table} {row new held : Row}
  (replaces : before.Replaces after table row new)
include replaces

theorem mem (inside : row ∈ before.rows table.name) : new ∈ after.rows table.name :=
  replaces.rows.mem_iff.2 (List.mem_map.2 ⟨row, inside, if_pos rfl⟩)

/-- The other rows stay, and the new one is none of them. -/
theorem mem_other (keyed : table.keyColumns ≠ []) (inside : row ∈ before.rows table.name)
    (there : held ∈ before.rows table.name) (other : held ≠ row) : held ∈ after.rows table.name ∧ held ≠ new := by
  refine ⟨replaces.rows.mem_iff.2 (List.mem_map.2 ⟨held, there, if_neg other⟩), ?_⟩
  rintro rfl
  have distinct : StoredTable.Distinct table ((before.rows table.name).map fun other => if other = row then held else other) :=
    replaces.orderly.distinct.perm replaces.rows.symm
  have apart := List.pairwise_map.1 distinct
  have symmetric : Std.Symm fun a b : Row => ¬StoredTable.sameKey table (if a = row then held else a)
      (if b = row then held else b) = true :=
    ⟨fun a b no yes => no (StoredTable.sameKey_comm table _ _ ▸ yes)⟩
  refine apart.forall inside there other.symm ?_
  rw [if_pos rfl, if_neg other]
  exact Keeps.sameKey_self keyed held

theorem orderly_of (before : before.Orderly other) : after.Orderly other := by
  by_cases same : other.name = table.name
  · obtain ⟨rows, found⟩ := before.stores
    obtain ⟨now, here⟩ := replaces.orderly.stores
    have columns := replaces.touched.columns
    rw [here, ← same, found] at columns
    obtain rfl : table = other := Option.some.inj columns
    exact replaces.orderly
  · exact before.of_touches replaces.touched same

end Replaces

end Database

/-- The columns that have changed are those that have another value than when the record was read or written last. -/
theorem Record.mem_changes {record : Record} {column : Column} {value : Value} :
    (column, value) ∈ record.changes ↔ column ∈ record.table.columns ∧ record.value? column.name = some value ∧
      ∀ old, record.kept.lookup column.name = some old → value.same old = false := by
  unfold Record.changes
  rw [List.mem_filterMap]
  constructor
  · rintro ⟨other, listed, found⟩
    cases known : record.value? other.name with
    | none => simp [known] at found
    | some held =>
      cases before : record.kept.lookup other.name with
      | none =>
        simp [known, before] at found
        obtain ⟨rfl, rfl⟩ := found
        exact ⟨listed, known, fun old kept => by rw [before] at kept; cases kept⟩
      | some old =>
        cases same : held.same old with
        | true => simp [known, before, same] at found
        | false =>
          simp [known, before, same] at found
          obtain ⟨rfl, rfl⟩ := found
          exact ⟨listed, known, fun old' kept => by rw [before] at kept; cases kept; exact same⟩
  · rintro ⟨listed, known, differs⟩
    refine ⟨column, listed, ?_⟩
    cases before : record.kept.lookup column.name with
    | none => simp [known]
    | some old => simp [known, differs old before]

/-- Whether a record is stored as a row that bears what the record has in hand, and what was read or written last. -/
structure Record.Stands (record : Record) (row : Row) : Prop where
  stored : record.isStored = true
  bears : ∀ column ∈ record.table.columns, column.Bears (record.value column.name) (row.cell column.name)
  keeps : ∀ column ∈ record.table.columns,
    column.Bears ((record.kept.lookup column.name).getD .null) (row.cell column.name)

namespace Record.Shows

variable {record : Record} {row : Row} (shows : record.Shows row) (nodup : record.table.columnNames.Nodup)
  (proper : record.table.IsProper row)
include shows nodup proper

theorem bears {column : Column} (listed : column ∈ record.table.columns) :
    column.Bears (record.value column.name) (row.cell column.name) :=
  .read (proper column listed).1 (shows.read_value nodup listed).1

theorem same_self {column : Column} (listed : column ∈ record.table.columns) :
    (record.value column.name).same (record.value column.name) = true :=
  (proper column listed).2.same_self (shows.read_value nodup listed).1

theorem stands : record.Stands row where
  stored := shows.stored
  bears _ := shows.bears nodup proper
  keeps column listed := by
    rw [shows.kept, (shows.read_value nodup listed).2, Option.getD_some]
    exact shows.bears nodup proper listed

/-- There is nothing to write of a record as long as nothing was set. -/
theorem changes_of_proper : record.changes = [] := by
  rw [List.eq_nil_iff_forall_not_mem]
  rintro ⟨column, value⟩ changed
  obtain ⟨listed, is, differs⟩ := Record.mem_changes.1 changed
  have held := (shows.read_value nodup listed).2
  cases is.symm.trans held
  have same := differs _ (shows.kept ▸ held)
  rw [shows.same_self nodup proper listed] at same
  cases same

/-! ### Values that were set -/

section SetAll

omit proper in
/-- A column has what was set in it last, or else what was read. -/
theorem value?_setAll (values : Values) {column : Column} (listed : column ∈ record.table.columns) :
    ∃ value, (record.setAll values).value? column.name = some value ∧
      (value = record.value column.name ∨ (column.name, value) ∈ values) := by
  rw [Record.value?_setAll]
  cases taken : values.reverse.lookup column.name with
  | some value => exact ⟨value, rfl, .inr (List.mem_reverse.1 (mem_of_lookup taken))⟩
  | none => exact ⟨_, (shows.read_value nodup listed).2, .inl rfl⟩

variable {values : Values} {column : Column} (listed : column ∈ record.table.columns)
include listed

omit proper in
theorem lookup_kept_setAll : (record.setAll values).kept.lookup column.name = some (record.value column.name) := by
  rw [Record.kept_setAll, shows.kept, (shows.read_value nodup listed).2]

/-- A column that did not change is read as what was set in it. -/
theorem bears_of_unchanged {value : Value} (is : (record.setAll values).value? column.name = some value)
    (absent : (column, value) ∉ (record.setAll values).changes) : column.Bears value (row.cell column.name) := by
  refine .inr ⟨(proper column listed).1, _, (shows.read_value nodup listed).1, ?_⟩
  by_contra differs
  refine absent (Record.mem_changes.2 ⟨by simpa using listed, is, fun old held => ?_⟩)
  cases (shows.lookup_kept_setAll nodup listed).symm.trans held
  simpa using differs

/-- A key that was set to the same in another form finds the same row. -/
theorem countsAs_keyValue {made : Cell} (written : ((record.setAll values).keyValue column.name).cellFor column = .ok made) :
    made.CountsAs column.type.affinity (row.cell column.name) := by
  refine (proper column listed).1.countsAs (shows.read_value nodup listed).1 ?_ written
  unfold Record.keyValue
  dsimp only
  rw [shows.lookup_kept_setAll nodup listed, Option.getD_some]
  split
  · assumption
  · exact shows.same_self nodup proper listed

/-- With its changes written, a row bears what was set. -/
theorem bears_update {cells : List (String × Cell)} (full : record.table.fullRow row = row)
    (made : Value.cells (record.setAll values).changes = .ok cells) :
    column.Bears ((record.setAll values).value column.name)
      ((record.table.fullRow (row.update cells)).cell column.name) := by
  have nodupChanges : ((record.setAll values).changes.map (·.1.name)).Nodup :=
    Record.nodup_changes (by rw [Record.table_setAll]; exact nodup)
  obtain ⟨value, is, -⟩ := shows.value?_setAll nodup values listed
  rw [Record.value, is, Option.getD_some, Table.cell_fullRow_update nodup full listed]
  by_cases changes : (column, value) ∈ (record.setAll values).changes
  · obtain ⟨cell, formed, held⟩ := Value.lookup_cells made nodupChanges changes
    rw [held]
    exact .written formed
  · rw [Value.lookup_cells_none made]
    · exact shows.bears_of_unchanged nodup proper listed is changes
    · intro named
      obtain ⟨⟨other, held⟩, changed, same⟩ := List.mem_map.1 named
      obtain ⟨there, also, -⟩ := Record.mem_changes.1 changed
      rw [Record.table_setAll] at there
      obtain rfl : other = column := List.inj_on_of_nodup_map nodup there listed same
      cases is.symm.trans also
      exact changes changed

end SetAll

/-- Once written there is nothing left to write, where each value that was set is the same as itself. -/
theorem changes_settled {values : Values} (alike : ∀ entry ∈ values, entry.2.same entry.2 = true) :
    (record.setAll values).settled.changes = [] := by
  rw [List.eq_nil_iff_forall_not_mem]
  rintro ⟨column, value⟩ changes
  obtain ⟨listed, is, differs⟩ := Record.mem_changes.1 changes
  have listed : column ∈ record.table.columns := by simpa [Record.settled] using listed
  obtain ⟨held, also, source⟩ := shows.value?_setAll nodup values listed
  cases is.symm.trans also
  have same : value.same value = true := by
    rcases source with rfl | there
    · exact shows.same_self nodup proper listed
    · exact alike _ there
  rw [differs value is] at same
  cases same

end Record.Shows

/-- A record stands for no other row than its own. -/
theorem Record.Stands.isOf_eq_false {record : Record} {own row : Row} {table : Table} {values : Values} {database : Database}
    (stands : record.Stands own) (orderly : database.Orderly record.table) (also : database.Orderly table)
    (keyed : table.keyColumns ≠ []) (inside : own ∈ database.rows record.table.name)
    (there : row ∈ database.rows table.name) (proper : table.IsProper row) (read : table.read row = .ok values)
    (other : record.table.name = table.name → row ≠ own) : record.isOf table values = false := by
  rw [← Bool.not_eq_true]
  intro isOf
  simp only [Record.isOf, Bool.and_eq_true, beq_iff_eq, List.all_eq_true] at isOf
  obtain ⟨⟨-, named⟩, same⟩ := isOf
  obtain rfl : record.table = table := by
    obtain ⟨rows, found⟩ := orderly.stores
    obtain ⟨others, foundToo⟩ := also.stores
    rw [named, foundToo] at found
    cases found
    rfl
  refine other rfl (orderly.eq_of_sameKey there inside ((Table.sameKey_iff keyed).2 fun column listed => ?_))
  have present := Table.mem_of_mem_keyColumns listed
  obtain ⟨value, is, held⟩ := Table.lookup_of_read orderly.nodup read present
  have equal := same column listed
  rw [held, Option.getD_some] at equal
  have place := (stands.keeps column present).place_eq (.inr ⟨(proper column present).1, value, is, equal⟩) rfl
  exact Cell.order_eq_iff.2 place.symm

namespace Job

variable {work after : Work} {number : Nat} {record : Record} {row : Row} {values : Values}

/-- A stored record in which values were set, alone among the records in hand, is written: its row gives way to one that
bears what the record has in hand. -/
theorem flush_setAll (ran : (flush number).runOn work = (.ok (), after)) (nodup : (work.records.map (·.1)).Nodup)
    (others : ∀ entry ∈ work.records, entry.1 ≠ number → entry.2.IsWritten)
    (found : work.records.lookup number = some (record.setAll values)) (shows : record.Shows row)
    (orderly : work.database.Orderly record.table) (keyed : record.table.keyColumns ≠ [])
    (inside : row ∈ work.database.rows record.table.name) (proper : record.table.IsProper row) :
    ∃ new changed, work.database.Replaces after.database record.table row new ∧
      after = { work with
        database := after.database
        records := work.records.map fun entry => if entry.1 == number then (number, changed) else entry } ∧
      changed.table = record.table ∧ changed.values = (record.setAll values).values ∧ changed.Stands new ∧
      ((∀ entry ∈ values, entry.2.same entry.2 = true) → changed.IsWritten) := by
  have table : (record.setAll values).table = record.table := Record.table_setAll
  have counts (column : Column) (listed : column ∈ (record.setAll values).table.keyColumns) (made : Cell)
      (written : ((record.setAll values).keyValue column.name).cellFor column = .ok made) :
      made.CountsAs column.type.affinity (row.cell column.name) :=
    shows.countsAs_keyValue orderly.nodup proper (Table.mem_of_mem_keyColumns (table ▸ listed)) written
  obtain ⟨cells, database, made, kept, touched, perm, rfl⟩ := flush_eq_ok ran nodup others found
    (Record.isStored_setAll.trans shows.stored) (table ▸ orderly) (table ▸ keyed) (table ▸ inside) counts
  rw [table] at kept touched perm
  have settled (column : Column) (listed : column ∈ (record.setAll values).table.columns) :
      column.Bears ((record.setAll values).value column.name)
        ((record.table.fullRow (row.update cells)).cell column.name) :=
    shows.bears_update orderly.nodup proper (table ▸ listed) (orderly.full row inside) made
  exact ⟨_, (record.setAll values).settled, ⟨touched, kept, perm⟩, rfl, table, rfl, ⟨rfl, settled, settled⟩,
    fun alike => ⟨rfl, shows.changes_settled orderly.nodup proper alike⟩⟩

end Job

end ResourceApi
