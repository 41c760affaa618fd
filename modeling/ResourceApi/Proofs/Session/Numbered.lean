import Mathlib.Data.List.Perm.Subperm
import ResourceApi.Proofs.Json.Members
import ResourceApi.Proofs.Session.Added
import ResourceApi.Proofs.Session.Records

/-!
Tables whose rows are numbered by the storage. Their rows are found by a single integer that nothing but the storage
gives: as long as no write names the column it is kept in, numbers are only added, and every record in hand has the number
of the row that it was read from or written to. Under its number a row keeps the cells of all columns that are not written.
-/

namespace ResourceApi

open Outcome

/-! ## Cells and values that are equal to themselves -/

/-- Whether no cell of a row is what is no number. -/
def Row.IsDefinite (row : Row) : Prop := ∀ name, row.cell name ≠ .real .notANumber

/-- Whether a value is equal to itself, as all are but what is no number. -/
def Value.IsDefinite (value : Value) : Prop := value.same value = true

namespace Row.IsDefinite

variable {row : Row} {cells : List (String × Cell)} {table : Table}

theorem of_forall (known : ∀ entry ∈ row, entry.2 ≠ .real .notANumber) : row.IsDefinite := by
  intro name
  rw [Row.cell]
  cases found : row.lookup name with
  | none => simp
  | some cell => exact known _ (mem_of_lookup found)

theorem update (definite : row.IsDefinite) (given : Row.IsDefinite cells) : (row.update cells).IsDefinite := by
  intro name
  rw [Row.cell_update]
  split
  · cases found : cells.lookup name with
    | none => exact definite name
    | some cell =>
      have known := given name
      rw [Row.cell, found] at known
      exact known
  · simp

theorem fullRow (given : Row.IsDefinite cells) : (table.fullRow cells).IsDefinite := by
  intro name
  rw [Table.cell_fullRow]
  cases table.column? name with
  | none => simp
  | some column => exact Cell.stored_ne (given name) _

theorem added (given : Row.IsDefinite cells) (rows : List Row) : (StoredTable.added ⟨table, rows⟩ cells).IsDefinite := by
  have full : (table.fullRow cells).IsDefinite := given.fullRow
  unfold StoredTable.added
  dsimp only
  split
  · split
    · refine full.update fun name => ?_
      rw [Row.cell, List.lookup_cons]
      split <;> simp
    · exact full
  · exact full

end Row.IsDefinite

namespace Value

/-- The storage is given nothing that is no number. -/
theorem definite_of_cells {values : List (Column × Value)} {cells : List (String × Cell)}
    (made : Value.cells values = .ok cells) : Row.IsDefinite cells := by
  refine .of_forall fun entry listed => ?_
  obtain ⟨given, -, -, written⟩ := forall₂_mem_right (cells_eq_ok.1 made) listed
  obtain ⟨formed, -, written⟩ := bind_eq_ok.1 written
  exact (Cell.place_of_ofJson written).2

theorem definite_of_ofCell {type : ColumnType} {cell : Cell} {value : Value} (known : cell ≠ .real .notANumber)
    (read : Value.ofCell type cell = .ok value) : value.IsDefinite := by
  rw [IsDefinite]
  rcases Value.ofCell_eq_ok read with ⟨rfl, -⟩ | ⟨-, s, text, -, rfl⟩
  · cases cell with
    | real d =>
      have number : d ≠ .notANumber := by
        rintro rfl
        exact known rfl
      simp [Value.same, Cell.json, Json.same, Json.sameScalar, Double.sameValue_self number]
    | _ => simp [Value.same, Cell.json, Json.same, Json.sameScalar, Json.integer?]
  · simp [Value.same]

end Value

theorem Table.definite_of_read {table : Table} {row : Row} {values : Values} (definite : row.IsDefinite)
    (read : table.read row = .ok values) : ∀ entry ∈ values, entry.2.IsDefinite := by
  intro entry listed
  obtain ⟨column, -, made⟩ := forall₂_mem_right (mapM_eq_ok.1 read) listed
  simp only [bind_eq_ok, pure_eq_ok] at made
  obtain ⟨value, is, rfl⟩ := made
  exact Value.definite_of_ofCell (definite _) is

/-! ## Numbered tables -/

/-- Tables, and which of their columns are written. -/
structure Layout where
  tables : List Table
  writes : Table → String → Prop

namespace Table

/-- The column of the numbers by which rows are placed, if there is one. -/
def place (table : Table) : String := (table.placeColumn?.map (·.name)).getD ""

/-- Whether the rows of a table are placed by numbers. -/
def IsNumbered (table : Table) : Prop := ∃ column, table.placeColumn? = some column

variable {table : Table}

theorem place_of_placeColumn? {column : Column} (found : table.placeColumn? = some column) : table.place = column.name := by
  rw [place, found]
  rfl

theorem keyColumns_of_placeColumn? {column : Column} (found : table.placeColumn? = some column) :
    table.keyColumns = [column] := by
  unfold placeColumn? at found
  split at found
  · next only alone =>
    split at found
    · cases found
      exact alone
    · cases found
  · cases found

end Table

namespace Database

/-- The numbers of the rows of a table, as they are read. -/
def numbers (database : Database) (table : Table) : List Value :=
  (database.rows table.name).map fun row => .plain (row.cell table.place).json

/-- Whether a table stands in the database with full rows, each of which has a number of its own, and no cell of which is what
is no number. -/
structure Numbers (database : Database) (table : Table) : Prop extends database.Orderly table where
  numbered : ∀ row ∈ database.rows table.name, ∃ n, row.cell table.place = .int n
  definite : ∀ row ∈ database.rows table.name, row.IsDefinite

/-- Whether no row of a table is lost, and all keep the cells of the columns that are not written. -/
structure Grows (writes : Table → String → Prop) (table : Table) (before after : Database) : Prop where
  numbers : (before.numbers table).Subperm (after.numbers table)
  rows : ∀ row ∈ before.rows table.name, ∃ now ∈ after.rows table.name, ∀ column ∈ table.columns,
    ¬writes table column.name → now.cell column.name = row.cell column.name

variable {writes : Table → String → Prop} {before middle after : Database} {table other : Table} {name : String} {row : Row}
  {cells : List (String × Cell)} {chosen : Row → Bool}

theorem Grows.of_rows_eq (same : after.rows table.name = before.rows table.name) : Grows writes table before after := by
  refine ⟨?_, fun row there => ⟨row, same ▸ there, fun _ _ _ => rfl⟩⟩
  rw [Database.numbers, Database.numbers, same]

theorem Grows.refl (database : Database) : Grows writes table database database := .of_rows_eq rfl

theorem Grows.trans (first : Grows writes table before middle) (second : Grows writes table middle after) :
    Grows writes table before after := by
  refine ⟨first.numbers.trans second.numbers, fun row there => ?_⟩
  obtain ⟨now, inside, same⟩ := first.rows row there
  obtain ⟨last, still, sameToo⟩ := second.rows now inside
  exact ⟨last, still, fun column listed spared => (sameToo column listed spared).trans (same column listed spared)⟩

/-- A table of a name has one form. -/
theorem Numbers.table_eq (numbers : before.Numbers table) (also : before.Numbers other) (same : other.name = table.name) :
    other = table := by
  obtain ⟨rows, found⟩ := numbers.stores
  obtain ⟨others, foundToo⟩ := also.stores
  rw [same, found] at foundToo
  cases foundToo
  rfl

/-- No number is given to two rows. -/
theorem Numbers.nodup_numbers (numbers : before.Numbers table) (numbered : table.IsNumbered) :
    (before.numbers table).Nodup := by
  obtain ⟨column, found⟩ := numbered
  have keys := Table.keyColumns_of_placeColumn? found
  rw [Database.numbers, List.Nodup, List.pairwise_map]
  refine List.Pairwise.imp_of_mem (fun {first second} here there apart same => apart ?_) numbers.distinct
  obtain ⟨n, one⟩ := numbers.numbered first here
  obtain ⟨m, two⟩ := numbers.numbered second there
  rw [one, two] at same
  obtain rfl : n = m := Json.int.inj (Value.plain.inj same)
  rw [Table.sameKey_iff (by simp [keys]), keys]
  refine List.forall_mem_singleton.2 ?_
  rw [← Table.place_of_placeColumn? found, one, two]
  exact Cell.order_self _

/-- A table that is not touched keeps its rows. -/
theorem Numbers.of_touches (numbers : before.Numbers table) (touched : before.Touches after name)
    (other : table.name ≠ name) : after.Numbers table ∧ Grows writes table before after := by
  have rows := touched.rows_other other
  exact ⟨⟨numbers.toOrderly.of_touches touched other, rows ▸ numbers.numbered, rows ▸ numbers.definite⟩, .of_rows_eq rows⟩

/-- A new row takes a number that none of the others has. -/
theorem Numbers.insert (numbers : before.Numbers table) (numbered : table.IsNumbered) (definite : Row.IsDefinite cells)
    (inserted : before.insert table.name cells = .ok (after, row)) :
    after.Numbers table ∧ (∃ n, row.cell table.place = .int n) ∧
      (after.rows table.name).Perm (row :: before.rows table.name) := by
  obtain ⟨column, found⟩ := numbered
  obtain ⟨-, perm, is, free⟩ := insert_eq_ok numbers.stores inserted
  have placed : ∃ n, row.cell table.place = .int n := by
    rw [Table.place_of_placeColumn? found]
    exact StoredTable.placed_of_objection? free found
  refine ⟨⟨numbers.toOrderly.insert inserted, fun other there => ?_, fun other there => ?_⟩, placed, perm⟩ <;>
    rcases List.mem_cons.1 (perm.mem_iff.1 there) with rfl | inside
  · exact placed
  · exact numbers.numbered other inside
  · exact is ▸ definite.added _
  · exact numbers.definite other inside

/-- The other rows stay as they are when a row is added. -/
theorem Grows.of_cons (perm : (after.rows table.name).Perm (row :: before.rows table.name)) :
    Grows writes table before after := by
  have numbers : (after.numbers table).Perm (.plain (row.cell table.place).json :: before.numbers table) := perm.map _
  exact ⟨(List.sublist_cons_self _ _).subperm.trans numbers.symm.subperm,
    fun other there => ⟨other, perm.mem_iff.2 (List.mem_cons_of_mem _ there), fun _ _ _ => rfl⟩⟩

private theorem placed_of_updateFrom {column : Column} (found : table.placeColumn? = some column)
    {done rows result : List Row} (already : ∀ row ∈ done ++ rows, ∃ n, row.cell column.name = .int n)
    (changed : StoredTable.updateFrom table chosen cells done rows = .ok result) :
    ∀ row ∈ result, ∃ n, row.cell column.name = .int n := by
  induction rows generalizing done with
  | nil =>
    cases changed
    simpa using already
  | cons row rest ih =>
    rw [StoredTable.updateFrom] at changed
    have others : ∀ other ∈ done ++ rest, ∃ n, other.cell column.name = .int n := fun other there =>
      already other (by simp only [List.mem_append, List.mem_cons] at there ⊢; tauto)
    split at changed
    · dsimp only at changed
      split at changed
      · cases changed
      · next free =>
        refine ih ?_ changed
        exact List.forall_mem_cons.2 ⟨StoredTable.placed_of_objection? free found, others⟩
    · refine ih ?_ changed
      exact List.forall_mem_cons.2 ⟨already row (by simp), others⟩

/-- Changing rows leaves each with a number. -/
theorem Numbers.update (numbers : before.Numbers table) (numbered : table.IsNumbered) (definite : Row.IsDefinite cells)
    (changed : before.update table.name chosen cells = .ok after) : after.Numbers table := by
  obtain ⟨column, found⟩ := numbered
  have place := Table.place_of_placeColumn? found
  obtain ⟨-, updated⟩ := update_stored numbers.stores changed
  obtain ⟨-, perm⟩ := update_eq_ok numbers.stores changed
  refine ⟨numbers.toOrderly.update changed, ?_, fun row there => ?_⟩
  · have already := numbers.numbered
    rw [place] at already ⊢
    unfold StoredTable.update at updated
    cases made : StoredTable.updateFrom table chosen cells [] (before.rows table.name) with
    | error cause =>
      rw [made] at updated
      cases updated
    | ok rows =>
      rw [made] at updated
      have arranged : StoredTable.arranged table rows = after.rows table.name :=
        congrArg StoredTable.rows (Except.ok.inj updated)
      intro row there
      rw [← arranged] at there
      exact placed_of_updateFrom found (by simpa using already) made row
        ((StoredTable.arranged_perm table rows).mem_iff.1 there)
  · obtain ⟨old, inside, rfl⟩ := List.mem_map.1 (perm.mem_iff.1 there)
    have known := numbers.definite old inside
    unfold StoredTable.rewritten
    split
    · exact (known.update definite).fullRow
    · exact known

/-- Changing rows leaves them the cells of the columns to which nothing is given. -/
theorem Numbers.grows_of_update (numbers : before.Numbers table) (numbered : table.IsNumbered)
    (apart : ¬writes table table.place) (changed : before.update table.name chosen cells = .ok after)
    (spared : ∀ name, ¬writes table name → cells.lookup name = none) : Grows writes table before after := by
  obtain ⟨place, found⟩ := numbered
  obtain ⟨-, perm⟩ := update_eq_ok numbers.stores changed
  have kept : ∀ row ∈ before.rows table.name, ∀ column ∈ table.columns, ¬writes table column.name →
      (StoredTable.rewritten table chosen cells row).cell column.name = row.cell column.name := by
    intro row there column listed unwritten
    rw [StoredTable.rewritten]
    split
    · rw [Table.cell_fullRow_update numbers.nodup (numbers.full row there) listed, spared _ unwritten]
      rfl
    · rfl
  refine ⟨(List.Perm.trans (.of_eq ?_) (perm.map fun row => Value.plain (row.cell table.place).json).symm).subperm,
    fun row there => ⟨_, perm.mem_iff.2 (List.mem_map_of_mem there), kept row there⟩⟩
  rw [Database.numbers, List.map_map]
  refine List.map_congr_left fun row there => ?_
  rw [Table.place_of_placeColumn? found] at apart ⊢
  rw [Function.comp_apply, kept row there place (Table.placeColumn?_eq_some found).1 apart]

theorem Numbers.delete (numbers : before.Numbers table) (removed : before.delete table.name chosen = .ok after) :
    after.Numbers table := by
  obtain ⟨touched, left⟩ := delete_eq_ok numbers.stores removed
  have inside {row : Row} (there : row ∈ after.rows table.name) : row ∈ before.rows table.name := by
    rw [left] at there
    exact List.mem_of_mem_filter there
  refine ⟨⟨touched.stores numbers.stores, numbers.nodup, fun row there => numbers.full row (inside there), ?_⟩,
    fun row there => numbers.numbered row (inside there), fun row there => numbers.definite row (inside there)⟩
  have distinct : StoredTable.Distinct table (before.rows table.name) := numbers.distinct
  rw [left]
  exact List.Pairwise.filter _ distinct

end Database

/-! ## Records in hand -/

/-- Whether a record has the number of its row in hand, and none as long as it is new; and whether nothing is yet to be
written of it but what may be written of its table. -/
structure Record.IsNumbered (writes : Table → String → Prop) (record : Record) : Prop where
  stored : record.isStored = true → ∃ n, record.value? record.table.place = some (.plain (.int n)) ∧
    record.kept.lookup record.table.place = some (.plain (.int n))
  new : record.isStored = false → record.value? record.table.place = none
  known : ∀ name, record.value? name = none → record.kept.lookup name = none
  definite : ∀ name value, record.value? name = some value → ¬writes record.table name → value.IsDefinite
  pending : record.isStored = true → ∀ change ∈ record.changes, writes record.table change.1.name

namespace Record

/-- Whether a record is still the one that it was: of its table, stored or not, and with its number. -/
structure Lasts (record now : Record) : Prop where
  table : now.table = record.table
  isStored : now.isStored = record.isStored
  number : now.value? record.table.place = record.value? record.table.place

/-- Whether values may be given to a record: not to its place, to a stored one only where its table is written, and there
alone what is not equal to itself. -/
structure Takes (writes : Table → String → Prop) (record : Record) (values : Values) : Prop where
  apart : ∀ entry ∈ values, entry.1 ≠ record.table.place
  written : record.isStored = true → ∀ entry ∈ values, writes record.table entry.1
  definite : ∀ entry ∈ values, ¬writes record.table entry.1 → entry.2.IsDefinite

variable {writes : Table → String → Prop} {record now : Record} {values : Values}

theorem Lasts.refl (record : Record) : record.Lasts record := ⟨rfl, rfl, rfl⟩

theorem Lasts.trans {last : Record} (first : record.Lasts now) (second : now.Lasts last) : record.Lasts last := by
  refine ⟨second.table.trans first.table, second.isStored.trans first.isStored, ?_⟩
  have number := second.number
  rw [first.table] at number
  exact number.trans first.number

theorem isNumbered_new (table : Table) : (Record.new table).IsNumbered writes :=
  ⟨by rintro ⟨⟩, fun _ => rfl, fun _ _ => rfl, by rintro _ _ ⟨⟩, by rintro ⟨⟩⟩

/-- A record is numbered when it was read or written. -/
theorem isNumbered_of_kept {n : Int} (held : record.value? record.table.place = some (.plain (.int n)))
    (definite : ∀ name value, record.value? name = some value → ¬writes record.table name → value.IsDefinite)
    (stored : record.isStored = true) (kept : record.kept = record.values) : record.IsNumbered writes := by
  refine ⟨fun _ => ⟨n, held, kept ▸ held⟩, fun new => ?_, fun name none => kept ▸ none, definite, fun _ change listed => ?_⟩
  · cases stored.symm.trans new
  · obtain ⟨-, is, differs⟩ := mem_changes.1 listed
    by_contra unwritten
    have same := differs _ (by rw [kept]; exact is)
    have definite : change.2.same change.2 = true := definite _ _ is unwritten
    rw [definite] at same
    cases same

theorem IsNumbered.settled (numbered : record.IsNumbered writes) (stored : record.isStored = true) :
    record.settled.IsNumbered writes := by
  obtain ⟨n, held, -⟩ := numbered.stored stored
  exact isNumbered_of_kept held numbered.definite rfl rfl

/-- Values for other columns leave a record the number it has. -/
theorem lasts_setAll (apart : ∀ entry ∈ values, entry.1 ≠ record.table.place) : record.Lasts (record.setAll values) := by
  refine ⟨table_setAll, isStored_setAll, ?_⟩
  have absent : values.reverse.lookup record.table.place = none :=
    lookup_eq_none.2 fun entry listed => apart entry (List.mem_reverse.1 listed)
  rw [value?_setAll, absent, Option.none_or]

theorem IsNumbered.setAll (numbered : record.IsNumbered writes) (takes : record.Takes writes values) :
    (record.setAll values).IsNumbered writes := by
  have lasts := lasts_setAll takes.apart
  have given {name : String} {value : Value} (found : values.reverse.lookup name = some value) : (name, value) ∈ values :=
    List.mem_reverse.1 (mem_of_lookup found)
  constructor
  · intro stored
    rw [table_setAll, lasts.number, kept_setAll]
    exact numbered.stored (isStored_setAll.symm.trans stored)
  · intro new
    rw [table_setAll, lasts.number]
    exact numbered.new (isStored_setAll.symm.trans new)
  · intro name none
    rw [value?_setAll, Option.or_eq_none_iff] at none
    rw [kept_setAll, numbered.known name none.2]
  · intro name value found unwritten
    rw [table_setAll] at unwritten
    rw [value?_setAll] at found
    cases taken : values.reverse.lookup name with
    | some last =>
      rw [taken, Option.some_or, Option.some_inj] at found
      exact found ▸ takes.definite _ (given taken) unwritten
    | none =>
      rw [taken, Option.none_or] at found
      exact numbered.definite name value found unwritten
  · rintro stored ⟨column, value⟩ changed
    rw [isStored_setAll] at stored
    obtain ⟨listed, is, differs⟩ := mem_changes.1 changed
    rw [table_setAll] at listed ⊢
    rw [value?_setAll] at is
    rw [kept_setAll] at differs
    cases taken : values.reverse.lookup column.name with
    | some last => exact takes.written stored _ (given taken)
    | none =>
      rw [taken, Option.none_or] at is
      exact numbered.pending stored _ (mem_changes.2 ⟨listed, is, differs⟩)

/-- What is read of the row of a record adds what was not known. -/
theorem IsNumbered.complete (numbered : record.IsNumbered writes) (stored : record.isStored = true)
    (definite : ∀ entry ∈ values, entry.2.IsDefinite) :
    record.Lasts (record.complete values) ∧ (record.complete values).IsNumbered writes := by
  obtain ⟨n, held, kept⟩ := numbered.stored stored
  have missing (name : String) : (values.filter fun entry => (record.values.lookup entry.1).isNone).lookup name =
      if (record.value? name).isNone then values.lookup name else none :=
    lookup_filter_keys (fun name => (record.values.lookup name).isNone) values name
  have value? (name : String) : (record.complete values).value? name = (record.value? name).or (values.lookup name) := by
    change (record.values ++ _).lookup name = _
    rw [List.lookup_append, missing, Record.value?]
    cases record.values.lookup name <;> rfl
  have keptToo (name : String) : (record.complete values).kept.lookup name =
      (record.kept.lookup name).or (if (record.value? name).isNone then values.lookup name else none) := by
    change (record.kept ++ _).lookup name = _
    rw [List.lookup_append, missing]
  have number : (record.complete values).value? record.table.place = record.value? record.table.place := by
    rw [value?, held, Option.some_or]
  refine ⟨⟨rfl, rfl, number⟩, fun _ => ⟨n, number.trans held, ?_⟩, fun new => ?_, fun name none => ?_,
    fun name value found unwritten => ?_, ?_⟩
  · change (record.complete values).kept.lookup record.table.place = _
    rw [keptToo, kept, Option.some_or]
  · cases stored.symm.trans new
  · rw [value?, Option.or_eq_none_iff] at none
    rw [keptToo, numbered.known name none.1, none.1, none.2]
    rfl
  · rw [value?] at found
    cases known : record.value? name with
    | some old =>
      rw [known, Option.some_or, Option.some_inj] at found
      exact found ▸ numbered.definite name old known unwritten
    | none =>
      rw [known, Option.none_or] at found
      exact definite _ (mem_of_lookup found)
  · rintro - ⟨column, value⟩ changed
    obtain ⟨listed, is, differs⟩ := mem_changes.1 changed
    rw [value?] at is
    cases known : record.value? column.name with
    | some old =>
      rw [known, Option.some_or, Option.some_inj] at is
      refine numbered.pending stored (column, value) (mem_changes.2 ⟨listed, is ▸ known, fun other found => ?_⟩)
      exact differs other (by rw [keptToo, found, Option.some_or])
    | none =>
      rw [known, Option.none_or] at is
      have same := differs value (by rw [keptToo, numbered.known _ known, known, Option.none_or]; exact is)
      have definite : value.same value = true := definite _ (mem_of_lookup is)
      rw [definite] at same
      cases same

end Record

/-- Whether the tables of a layout are numbered and kept as the storage keeps them, no number is written, defaults are equal
to themselves where nothing else is written, and all records in hand are of these tables. -/
structure Work.Numbered (layout : Layout) (work : Work) : Prop where
  fresh : ∀ entry ∈ work.records, entry.1 < work.next
  nodup : (work.records.map (·.1)).Nodup
  numbered : ∀ table ∈ layout.tables, table.IsNumbered
  apart : ∀ table ∈ layout.tables, ¬layout.writes table table.place
  defaults : ∀ table ∈ layout.tables, ∀ column ∈ table.columns, column.name ≠ table.place →
    ¬layout.writes table column.name → (Value.plain column.default).IsDefinite
  numbers : ∀ table ∈ layout.tables, work.database.Numbers table
  records : ∀ entry ∈ work.records, entry.2.table ∈ layout.tables ∧ entry.2.IsNumbered layout.writes

/-- How work goes on: the records in hand with numbers below a bound stay in hand, and the tables that are spared lose no
row, and no cell that is not written. -/
structure Work.Advances (layout : Layout) (bound : Nat) (spares : Table → Prop) (before after : Work) : Prop where
  numbered : after.Numbered layout
  next : before.next ≤ after.next
  lasts : ∀ number < bound, ∀ record, before.records.lookup number = some record →
    ∃ now, after.records.lookup number = some now ∧ record.Lasts now
  grows : ∀ table ∈ layout.tables, spares table → before.database.Grows layout.writes table after.database

namespace Work

variable {layout : Layout} {bound : Nat} {spares : Table → Prop} {work before middle after : Work} {number : Nat}
  {record new : Record} {database : Database}

theorem Advances.refl (numbered : work.Numbered layout) : work.Advances layout bound spares work :=
  ⟨numbered, le_rfl, fun _ _ record found => ⟨record, found, .refl record⟩, fun _ _ _ => .refl _⟩

theorem Advances.trans (first : before.Advances layout bound spares middle)
    (second : middle.Advances layout bound spares after) : before.Advances layout bound spares after := by
  refine ⟨second.numbered, first.next.trans second.next, fun number below record found => ?_,
    fun table listed spared => (first.grows table listed spared).trans (second.grows table listed spared)⟩
  obtain ⟨now, there, lasts⟩ := first.lasts number below record found
  obtain ⟨last, still, lastsToo⟩ := second.lasts number below now there
  exact ⟨last, still, lasts.trans lastsToo⟩

theorem Advances.mono {less : Nat} {fewer : Table → Prop} (advances : before.Advances layout bound spares after)
    (below : less ≤ bound) (spared : ∀ table, fewer table → spares table) : before.Advances layout less fewer after :=
  ⟨advances.numbered, advances.next, fun number small => advances.lasts number (small.trans_le below),
    fun table listed also => advances.grows table listed (spared table also)⟩

/-- Records are in hand with the numbers that were given out. -/
theorem Numbered.lt (numbered : work.Numbered layout) (found : work.records.lookup number = some record) :
    number < work.next := numbered.fresh _ (mem_of_lookup found)

/-- Work on a database in which one table was touched goes on from there. -/
theorem Numbered.advances_touched (numbered : work.Numbered layout) {name : String}
    (touched : work.database.Touches database name)
    (own : ∀ table ∈ layout.tables, table.name = name →
      database.Numbers table ∧ (spares table → work.database.Grows layout.writes table database)) :
    work.Advances layout bound spares { work with database := database } := by
  have each (table : Table) (member : table ∈ layout.tables) :
      database.Numbers table ∧ (spares table → work.database.Grows layout.writes table database) := by
    by_cases same : table.name = name
    · exact own table member same
    · exact ((numbered.numbers _ member).of_touches touched same).imp_right fun grows _ => grows
  exact ⟨⟨numbered.fresh, numbered.nodup, numbered.numbered, numbered.apart, numbered.defaults,
    fun table member => (each table member).1, numbered.records⟩, le_rfl, fun _ _ record found => ⟨record, found, .refl record⟩,
    fun table member => (each table member).2⟩

theorem Numbered.replace (numbered : work.Numbered layout) (listed : new.table ∈ layout.tables)
    (isNumbered : new.IsNumbered layout.writes) :
    Work.Numbered layout { work with
      records := work.records.map fun entry => if entry.1 == number then (number, new) else entry } := by
  refine ⟨fun entry there => ?_, ?_, numbered.numbered, numbered.apart, numbered.defaults, numbered.numbers,
    fun entry there => ?_⟩
  · obtain ⟨old, before, rfl⟩ := List.mem_map.1 there
    have small := numbered.fresh old before
    split
    · next same => exact (eq_of_beq same) ▸ small
    · exact small
  · rw [Job.map_replace_numbers]
    exact numbered.nodup
  · obtain ⟨old, before, rfl⟩ := List.mem_map.1 there
    split
    · exact ⟨listed, isNumbered⟩
    · exact numbered.records old before

/-- A record that is taken in hand gets a number of its own. -/
theorem Numbered.advances_take (numbered : work.Numbered layout) (listed : new.table ∈ layout.tables)
    (isNumbered : new.IsNumbered layout.writes) : work.Advances layout bound spares { work with
      records := work.records ++ [(work.next, new)], next := work.next + 1 } := by
  refine ⟨⟨fun entry there => ?_, ?_, numbered.numbered, numbered.apart, numbered.defaults, numbered.numbers,
      fun entry there => ?_⟩,
    Nat.le_succ _, fun other _ held found => ⟨held, by simp [List.lookup_append, found], .refl held⟩, fun _ _ _ => .refl _⟩
  · rcases List.mem_append.1 there with before | last
    · exact Nat.lt_succ_of_lt (numbered.fresh entry before)
    · obtain rfl := List.mem_singleton.1 last
      exact Nat.lt_succ_self _
  · rw [List.map_append, List.nodup_append]
    refine ⟨numbered.nodup, by simp, fun first before second last => ?_⟩
    obtain ⟨entry, inside, rfl⟩ := List.mem_map.1 before
    obtain rfl := List.mem_singleton.1 last
    exact Nat.ne_of_lt (numbered.fresh entry inside)
  · rcases List.mem_append.1 there with before | last
    · exact numbered.records entry before
    · obtain rfl := List.mem_singleton.1 last
      exact ⟨listed, isNumbered⟩

theorem lookup_filter (keeps : Nat → Bool) (kept : keeps number = true) :
    (work.records.filter fun entry => keeps entry.1).lookup number = work.records.lookup number := by
  rw [lookup_filter_keys, if_pos kept]

/-- The records that are not let go of stay in hand. -/
theorem Numbered.advances_filter (numbered : work.Numbered layout) (keeps : Nat → Bool)
    (below : ∀ number < bound, keeps number = true) : work.Advances layout bound spares { work with
      records := work.records.filter fun entry => keeps entry.1 } :=
  ⟨⟨fun entry kept => numbered.fresh entry (List.mem_of_mem_filter kept),
    numbered.nodup.sublist (List.filter_sublist.map _), numbered.numbered, numbered.apart, numbered.defaults, numbered.numbers,
    fun entry kept => numbered.records entry (List.mem_of_mem_filter kept)⟩, le_rfl,
    fun number small record found => ⟨record, (lookup_filter keeps (below number small)).trans found, .refl record⟩,
    fun _ _ _ => .refl _⟩

/-- The records with lower numbers stay in hand when a record becomes another one. -/
theorem Numbered.advances_below (numbered : work.Numbered layout) (listed : new.table ∈ layout.tables)
    (isNumbered : new.IsNumbered layout.writes) : work.Advances layout number spares { work with
      records := work.records.map fun entry => if entry.1 == number then (number, new) else entry } :=
  ⟨numbered.replace listed isNumbered, le_rfl, fun _ below held there =>
    ⟨held, (Job.lookup_replace_other (Nat.ne_of_lt below) new).trans there, .refl held⟩, fun _ _ _ => .refl _⟩

/-- Work in which a record was replaced by what it has become goes on from there. -/
theorem Numbered.advances_replace (numbered : work.Numbered layout) (found : work.records.lookup number = some record)
    (lasts : record.Lasts new) (isNumbered : new.IsNumbered layout.writes) : work.Advances layout bound spares { work with
      records := work.records.map fun entry => if entry.1 == number then (number, new) else entry } := by
  have listed := (numbered.records _ (mem_of_lookup found)).1
  refine ⟨numbered.replace (lasts.table ▸ listed) isNumbered, le_rfl, fun other _ held there => ?_, fun _ _ _ => .refl _⟩
  by_cases same : other = number
  · subst same
    cases there.symm.trans found
    exact ⟨new, Job.lookup_replace_same found new, lasts⟩
  · exact ⟨held, (Job.lookup_replace_other same new).trans there, .refl held⟩

end Work

namespace Job

variable {layout : Layout} {bound : Nat} {spares : Table → Prop} {work after : Work} {number : Nat} {record : Record}
  (numbered : work.Numbered layout)
include numbered

/-! ## Writing -/

theorem setValues_advances {values : Values} (found : work.records.lookup number = some record)
    (takes : record.Takes layout.writes values)
    (ran : (setValues number values).runOn work = (.ok (), after)) : work.Advances layout bound spares after := by
  rw [setValues, bind_runOn, record_runOn found] at ran
  cases ran
  have isNumbered := (numbered.records _ (mem_of_lookup found)).2
  exact numbered.advances_replace found (Record.lasts_setAll takes.apart) (isNumbered.setAll takes)

/-- Writing what has changed of a record leaves new records as they are. -/
theorem writeChanges_advances (ran : (writeChanges number).runOn work = (.ok (), after)) :
    work.Advances layout bound spares after ∧ ∀ other record, work.records.lookup other = some record →
      record.isStored = false → after.records.lookup other = some record := by
  cases found : work.records.lookup number with
  | none =>
    -- what is not in hand counts as new, and nothing is written of it
    have still : (writeChanges number).runOn work = (.ok (), work) := by
      have absent : (Job.record number).runOn work = (.ok default, work) := by
        change (Except.ok ((work.records.lookup number).getD default), work) = _
        rw [found]
        rfl
      rw [writeChanges, bind_runOn, absent]
      rfl
    cases still.symm.trans ran
    exact ⟨.refl numbered, fun _ _ found _ => found⟩
  | some record =>
    obtain ⟨listed, isNumbered⟩ := numbered.records _ (mem_of_lookup found)
    cases stored : record.isStored with
    | false =>
      have still : (writeChanges number).runOn work = (.ok (), work) := by
        rw [writeChanges, bind_runOn, record_runOn found]
        simp [stored]
      cases still.symm.trans ran
      exact ⟨.refl numbered, fun _ _ found _ => found⟩
    | true =>
      have settled : record.Lasts record.settled := ⟨rfl, stored.symm, rfl⟩
      obtain ⟨database, rfl, written⟩ := writeChanges_eq_ok found stored ran
      have stores : work.Advances layout bound spares { work with database := database } := by
        rcases written with ⟨-, rfl⟩ | ⟨cells, keys, made, -, -, updated⟩
        · exact .refl numbered
        · have definite := Value.definite_of_cells made
          refine numbered.advances_touched (Database.update_touches updated) fun table member same => ?_
          obtain rfl := (numbered.numbers _ listed).table_eq (numbered.numbers _ member) same
          refine ⟨(numbered.numbers _ listed).update (numbered.numbered _ listed) definite updated, fun _ => ?_⟩
          refine (numbered.numbers _ listed).grows_of_update (numbered.numbered _ listed) (numbered.apart _ listed) updated
            fun name unwritten => Value.lookup_cells_none made fun changed => ?_
          obtain ⟨change, inside, rfl⟩ := List.mem_map.1 changed
          exact unwritten (isNumbered.pending stored change inside)
      refine ⟨stores.trans (stores.numbered.advances_replace found settled (isNumbered.settled stored)),
        fun other held there new => ?_⟩
      have unlike : other ≠ number := by
        rintro rfl
        cases there.symm.trans found
        cases stored.symm.trans new
      exact (lookup_replace_other unlike _).trans there

private theorem writeEach_advances {records : List (Nat × Record)} (ran : (forIn records PUnit.unit fun entry _ => do
      writeChanges entry.1
      pure (ForInStep.yield PUnit.unit) : Job PUnit).runOn work = (.ok ⟨⟩, after)) :
    work.Advances layout bound spares after ∧ ∀ other record, work.records.lookup other = some record →
      record.isStored = false → after.records.lookup other = some record := by
  induction records generalizing work with
  | nil =>
    cases ran
    exact ⟨.refl numbered, fun _ _ found _ => found⟩
  | cons entry rest ih =>
    rw [List.forIn_cons] at ran
    obtain ⟨step, middle, wrote, later⟩ := bind_eq_ok.1 ran
    obtain ⟨_, _, first, ended⟩ := bind_eq_ok.1 wrote
    cases ended
    obtain ⟨early, kept⟩ : work.Advances layout bound spares middle ∧ _ := writeChanges_advances numbered first
    obtain ⟨late, keptToo⟩ := ih early.numbered later
    exact ⟨early.trans late, fun other record found new => keptToo other record (kept other record found new) new⟩

/-- Writing what has changed of all records leaves new ones as they are. -/
theorem writeAll_advances (ran : writeAll.runOn work = (.ok (), after)) :
    work.Advances layout bound spares after ∧ ∀ other record, work.records.lookup other = some record →
      record.isStored = false → after.records.lookup other = some record := by
  rw [writeAll_runOn] at ran
  exact writeEach_advances numbered ran

/-- Writing a record that is stored puts no row in any table. -/
theorem flush_advances (found : work.records.lookup number = some record) (stored : record.isStored = true)
    (ran : (flush number).runOn work = (.ok (), after)) : work.Advances layout bound spares after := by
  obtain ⟨_, middle, wrote, rest⟩ := bind_eq_ok.1 ran
  obtain ⟨known, -⟩ : work.Advances layout (number + 1) spares middle ∧ _ := writeAll_advances numbered wrote
  obtain ⟨now, there, lasts⟩ := known.lasts number (Nat.lt_succ_self number) record found
  rw [bind_runOn, record_runOn there] at rest
  simp only [lasts.isStored, stored, Bool.not_true, Bool.false_eq_true, if_false] at rest
  cases rest
  exact (writeAll_advances numbered wrote).1

omit numbered in
/-- What a new record is told of its place is the number of its row. -/
theorem Places.value?_place {row : Row} {placed : Values} {n : Int} (places : Places record row placed)
    (known : record.table.IsNumbered) (none : record.value? record.table.place = none)
    (number : row.cell record.table.place = .int n) :
    (record.setAll (filledIn record ++ placed)).settled.value? record.table.place = some (.plain (.int n)) := by
  obtain ⟨column, found⟩ := known
  have place := Table.place_of_placeColumn? found
  rw [place] at none number ⊢
  cases places with
  | known known =>
    have null := known column found
    rw [Record.value, none] at null
    cases null
  | @told other value foundToo null read =>
    cases foundToo.symm.trans found
    rw [number, (Table.placeColumn?_eq_some found).2] at read
    cases read
    rw [value?_told]
    simp

omit numbered in
theorem Places.definite {row : Row} {placed : Values} (places : Places record row placed)
    (known : row.cell record.table.place ≠ .real .notANumber) : ∀ entry ∈ placed, entry.2.IsDefinite := by
  cases places with
  | known _ => exact fun _ listed => absurd listed List.not_mem_nil
  | told found null read =>
    rw [Table.place_of_placeColumn? found] at known
    exact List.forall_mem_singleton.2 (Value.definite_of_ofCell known read)

omit numbered in
/-- What is filled in is a default. -/
theorem of_mem_filledIn {name : String} {value : Value} (listed : (name, value) ∈ filledIn record) :
    ∃ column ∈ record.table.columns, column.name = name ∧ .plain column.default = value := by
  obtain ⟨entry, inside, made⟩ := List.mem_map.1 listed
  obtain ⟨given, missing⟩ := List.mem_filter.1 inside
  obtain ⟨column, there, rfl⟩ := List.mem_map.1 (newValues_eq record ▸ given)
  obtain ⟨rfl, rfl⟩ := Prod.mk.inj made
  simp only [Bool.and_eq_true] at missing
  exact ⟨column, there, rfl, by rw [newValue, if_pos missing.1]⟩

/-- Whether a row of a table has a number, and in all other columns what the storage was given for a new record. -/
def Bears (record : Record) (database : Database) (number : Value) : Prop :=
  ∃ row ∈ database.rows record.table.name, .plain (row.cell record.table.place).json = number ∧
    ∀ column ∈ record.table.columns, column.name ≠ record.table.place →
      column.Bears (newValue record column) (row.cell column.name)

/-- Adding a new record puts a row in its table, with a number that no other row of the table has, which the record knows
then. -/
theorem add_advances (found : work.records.lookup number = some record)
    (new : record.isStored = false) (ran : (add number).runOn work = (.ok (), after)) :
    work.Advances layout number spares after ∧ ∃ n now, after.records.lookup number = some now ∧
      now.table = record.table ∧ now.isStored = true ∧ now.value? record.table.place = some (.plain (.int n)) ∧
      (Value.plain (.int n) :: work.database.numbers record.table).Perm (after.database.numbers record.table) ∧
      Bears record after.database (.plain (.int n)) := by
  obtain ⟨listed, isNumbered⟩ := numbered.records _ (mem_of_lookup found)
  obtain ⟨cells, database, row, placed, made, inserted, places, rfl⟩ := add_eq_ok ran found
  obtain ⟨own, ⟨n, cell⟩, perm⟩ :=
    (numbered.numbers _ listed).insert (numbered.numbered _ listed) (Value.definite_of_cells made) inserted
  have told := places.value?_place (numbered.numbered _ listed) (isNumbered.new new) cell
  set now := (record.setAll (filledIn record ++ placed)).settled with is
  have table : now.table = record.table := Record.table_setAll
  have nowNumbered : now.IsNumbered layout.writes := by
    refine Record.isNumbered_of_kept (table ▸ told) (fun name value known unwritten => ?_) rfl rfl
    rw [table] at unwritten
    by_cases same : name = record.table.place
    · subst same
      cases told.symm.trans known
      simp [Value.IsDefinite, Value.same, Json.same, Json.sameScalar, Json.integer?]
    rw [is, value?_told] at known
    cases place : placed.reverse.lookup name with
    | some number =>
      rw [place, Option.some_or, Option.some_inj] at known
      exact known ▸ places.definite (by rw [cell]; simp) _ (List.mem_reverse.1 (mem_of_lookup place))
    | none =>
      rw [place, Option.none_or] at known
      cases filled : (filledIn record).reverse.lookup name with
      | some default =>
        rw [filled, Option.some_or, Option.some_inj] at known
        obtain ⟨column, there, rfl, rfl⟩ := of_mem_filledIn (List.mem_reverse.1 (mem_of_lookup filled))
        exact known ▸ numbered.defaults _ listed column there same unwritten
      | none =>
        rw [filled, Option.none_or] at known
        exact isNumbered.definite name value known unwritten
  have stores : work.Advances layout number spares { work with database := database } := by
    refine numbered.advances_touched (Database.insert_touches inserted) fun table member same => ?_
    obtain rfl := (numbered.numbers _ listed).table_eq (numbered.numbers _ member) same
    exact ⟨own, fun _ => .of_cons perm⟩
  refine ⟨stores.trans (stores.numbered.advances_below (table ▸ listed) nowNumbered), n, now, lookup_replace_same found now,
    table, rfl, told, ?_, ?_⟩
  · have numbers := (perm.map fun row => Value.plain (row.cell record.table.place).json).symm
    rw [List.map_cons, cell] at numbers
    exact numbers
  · refine ⟨row, perm.mem_iff.2 List.mem_cons_self, by rw [cell]; rfl, fun column there apart => ?_⟩
    obtain ⟨-, -, rfl, -⟩ := Database.insert_eq_ok (numbered.numbers _ listed).stores inserted
    refine bears_of_newValue (numbered.numbers _ listed).nodup there made fun placed => absurd ?_ apart
    have found := Table.placeColumn?_of_isPlaceColumn (numbered.numbers _ listed).nodup there placed
    rw [Table.place_of_placeColumn? found]

/-- Writing a new record adds its row. -/
theorem flush_new_advances (found : work.records.lookup number = some record) (new : record.isStored = false)
    (ran : (flush number).runOn work = (.ok (), after)) :
    work.Advances layout number spares after ∧ ∃ n now, after.records.lookup number = some now ∧
      now.table = record.table ∧ now.isStored = true ∧ now.value? record.table.place = some (.plain (.int n)) ∧
      (Value.plain (.int n) :: work.database.numbers record.table).Subperm (after.database.numbers record.table) ∧
      Bears record after.database (.plain (.int n)) := by
  obtain ⟨_, middle, wrote, rest⟩ := bind_eq_ok.1 ran
  obtain ⟨early, kept⟩ : work.Advances layout (number + 1) (fun _ => True) middle ∧ _ := writeAll_advances numbered wrote
  have there := kept number record found new
  rw [bind_runOn, record_runOn there] at rest
  simp only [new, Bool.not_false, if_true] at rest
  obtain ⟨late, n, now, still, table, stored, value, perm, bears⟩ := add_advances early.numbered there new rest
  refine ⟨(early.mono (Nat.le_succ _) fun _ _ => trivial).trans late, n, now, still, table, stored, value, ?_, bears⟩
  have listed := (numbered.records _ (mem_of_lookup found)).1
  exact ((List.subperm_cons _).2 (early.grows _ listed trivial).numbers).trans perm.subperm

end Job

/-! ## Finding -/

/-- Whether a value is the number that a key stands for: a column of integers that holds it is equal to the key. -/
def Value.IsFor (key : Json) (value : Value) : Prop :=
  ∃ n, value = .plain (.int n) ∧ Truth.holds (Comparison.equal.outcome .integer (.int n) key) = true

namespace Job

variable {layout : Layout} {bound : Nat} {spares : Table → Prop} {work after : Work} {number : Nat}
  (numbered : work.Numbered layout)
include numbered

/-- A row that is taken in hand has its number, be it as the record that it is already or as another one. -/
private theorem takeRow_advances {table : Table} {row : Row} {values : Values} {n : Int} (listed : table ∈ layout.tables)
    (definite : row.IsDefinite) (cell : row.cell table.place = .int n) (read : table.read row = .ok values)
    (ran : (takeRow table values).runOn work = (.ok number, after)) :
    work.Advances layout bound spares after ∧ ∃ record, after.records.lookup number = some record ∧
      record.table = table ∧ record.isStored = true ∧ record.value? table.place = some (.plain (.int n)) := by
  obtain ⟨column, place⟩ := numbered.numbered table listed
  obtain ⟨there, integer⟩ := Table.placeColumn?_eq_some place
  have own := Table.place_of_placeColumn? place
  have known : values.lookup table.place = some (.plain (.int n)) := by
    obtain ⟨value, is, found⟩ := Table.lookup_of_read (numbered.numbers table listed).nodup read there
    rw [← own, integer, cell] at is
    cases is
    rw [own, found]
  unfold takeRow at ran
  obtain ⟨_, _, got, taken⟩ := bind_eq_ok.1 ran
  clear ran
  cases got
  split at taken
  · next other held found =>
    obtain ⟨inHand, isOf⟩ := And.intro (List.mem_of_find?_eq_some found) (List.find?_some found)
    obtain ⟨listedToo, isNumbered⟩ := numbered.records _ inHand
    have lookup := lookup_of_mem numbered.nodup inHand
    simp only [Record.isOf, Bool.and_eq_true, beq_iff_eq] at isOf
    obtain ⟨⟨stored, named⟩, same⟩ := isOf
    obtain rfl := (numbered.numbers _ listedToo).table_eq (numbered.numbers _ listed) named.symm
    obtain ⟨m, value, kept⟩ := isNumbered.stored stored
    have alike : n = m := by
      rw [Table.keyColumns_of_placeColumn? place, List.all_cons, List.all_nil, Bool.and_true, ← own, kept, known] at same
      have equal : m = n := by simpa [Value.same, Json.same, Json.sameScalar, Json.integer?] using same
      exact equal.symm
    subst alike
    obtain ⟨lasts, completed⟩ := isNumbered.complete stored (Table.definite_of_read definite read)
    obtain ⟨_, _, set, given⟩ := bind_eq_ok.1 taken
    rw [setRecord_runOn] at set
    cases set
    cases given
    exact ⟨numbered.advances_replace lookup lasts completed, _, lookup_replace_same lookup _, rfl, stored,
      lasts.number.trans value⟩
  · cases taken
    have absent : work.records.lookup work.next = none :=
      lookup_eq_none.2 fun entry before => Nat.ne_of_lt (numbered.fresh entry before)
    have isNumbered : Record.IsNumbered layout.writes ⟨table, values, values, true⟩ :=
      Record.isNumbered_of_kept known (fun _ _ found _ => Table.definite_of_read definite read _ (mem_of_lookup found)) rfl rfl
    exact ⟨numbered.advances_take listed isNumbered, ⟨table, values, values, true⟩,
      by simp [List.lookup_append, absent], rfl, rfl, known⟩

/-- A record that is found has the number that its key stands for. -/
theorem find_advances {resource : Resource} {key : Json} {withDeleted : Bool} (listed : resource.table ∈ layout.tables)
    (named : resource.key = resource.table.place)
    (ran : (find resource key withDeleted).runOn work = (.ok number, after)) :
    work.Advances layout bound spares after ∧ ∃ value record, after.records.lookup number = some record ∧
      record.table = resource.table ∧ record.isStored = true ∧ record.value? resource.table.place = some value ∧
      value.IsFor key ∧ value ∈ after.database.numbers resource.table := by
  obtain ⟨middle, row, values, wrote, alone, read, taken⟩ := find_runs ran
  have early : work.Advances layout bound spares middle := by
    rw [unattributed_eq] at wrote
    split at wrote
    · cases wrote
    · exact (writeAll_advances numbered wrote).1
  obtain ⟨inside, looked⟩ := List.mem_filter.1 (alone ▸ List.mem_singleton_self row)
  have numbers := early.numbered.numbers _ listed
  obtain ⟨n, cell⟩ := numbers.numbered row inside
  obtain ⟨late, record, there, table, stored, value⟩ : middle.Advances layout bound (fun _ => True) after ∧ _ :=
    takeRow_advances early.numbered listed (numbers.definite row inside) cell read taken
  refine ⟨early.trans (late.mono le_rfl fun _ _ => trivial), _, record, there, table, stored, value, ⟨n, rfl, ?_⟩, ?_⟩
  · obtain ⟨column, place⟩ := numbered.numbered _ listed
    obtain ⟨there, integer⟩ := Table.placeColumn?_eq_some place
    have held : resource.table.holds row resource.key key = true := by
      rw [Resource.isFor, Bool.and_eq_true] at looked
      exact looked.1
    rw [Table.holds, named, cell, Table.place_of_placeColumn? place,
      Table.type_ref (Table.column?_of_mem numbers.nodup there), integer] at held
    exact held
  · have present : Value.plain (.int n) ∈ middle.database.numbers resource.table :=
      List.mem_map.2 ⟨row, inside, by rw [cell]; rfl⟩
    exact (late.grows _ listed trivial).numbers.subset present

end Job

/-! ## Rows of join tables -/

namespace JoinRows

open Job

variable {layout : Layout} {bound : Nat} {spares : Table → Prop} {work after : Work} {rows : JoinRows}
  (numbered : work.Numbered layout)
include numbered

/-- A row that is added to a join table takes no number from a row that is there. -/
theorem add_advances {related : Value} {extra : Members} (ran : (rows.add related extra).runOn work = (.ok (), after)) :
    work.Advances layout bound spares after := by
  unfold add at ran
  dsimp only at ran
  split at ran
  · cases ran
  obtain ⟨assigned, -, ran⟩ := Job.of_bind_eq_ok.1 ran
  obtain ⟨cells, made, ran⟩ := Job.of_bind_eq_ok.1 ran
  rw [Job.bind_runOn, Job.database_runOn] at ran
  obtain ⟨⟨database, row⟩, added, ran⟩ := Job.of_bind_eq_ok.1 ran
  have inserted := mapError_eq_ok.1 added
  cases ran
  refine numbered.advances_touched (Database.insert_touches inserted) fun table member same => ?_
  rw [← same] at inserted
  obtain ⟨own, -, perm⟩ :=
    (numbered.numbers _ member).insert (numbered.numbered _ member) (Value.definite_of_cells made) inserted
  exact ⟨own, fun _ => .of_cons perm⟩

/-- Changing rows of a join table leaves the rows of other tables as they are. -/
theorem change_advances {related : Value} {extra : Members} (spared : ∀ table, spares table → table.name ≠ rows.link.table.name)
    (ran : (rows.change related extra).runOn work = (.ok (), after)) : work.Advances layout bound spares after := by
  unfold change at ran
  obtain ⟨conditions, -, ran⟩ := Job.of_bind_eq_ok.1 ran
  obtain ⟨assigned, -, ran⟩ := Job.of_bind_eq_ok.1 ran
  obtain ⟨cells, made, ran⟩ := Job.of_bind_eq_ok.1 ran
  obtain ⟨_, -, ran⟩ := Job.of_bind_eq_ok.1 ran
  rw [Job.bind_runOn, Job.database_runOn] at ran
  obtain ⟨database, changed, ran⟩ := Job.of_bind_eq_ok.1 ran
  have updated := mapError_eq_ok.1 changed
  cases ran
  refine numbered.advances_touched (Database.update_touches updated) fun table member same => ?_
  rw [← same] at updated
  exact ⟨(numbered.numbers _ member).update (numbered.numbered _ member) (Value.definite_of_cells made) updated,
    fun also => absurd same (spared table also)⟩

/-- Removing rows of a join table leaves the rows of other tables as they are. -/
theorem remove_advances {related : List Value} (spared : ∀ table, spares table → table.name ≠ rows.link.table.name)
    (ran : (rows.remove related).runOn work = (.ok (), after)) : work.Advances layout bound spares after := by
  unfold remove at ran
  obtain ⟨conditions, -, ran⟩ := Job.of_bind_eq_ok.1 ran
  obtain ⟨_, -, ran⟩ := Job.of_bind_eq_ok.1 ran
  rw [Job.bind_runOn, Job.database_runOn] at ran
  obtain ⟨database, removed, ran⟩ := Job.of_bind_eq_ok.1 ran
  have deleted := mapError_eq_ok.1 removed
  cases ran
  refine numbered.advances_touched (Database.delete_touches deleted) fun table member same => ?_
  rw [← same] at deleted
  exact ⟨(numbered.numbers _ member).delete deleted, fun also => absurd same (spared table also)⟩

end JoinRows

end ResourceApi
