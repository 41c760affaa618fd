import Mathlib.Data.List.Nodup
import ResourceApi.Proofs.Session.InStep

/-!
Changes of one row. A table takes a change that leaves the key of the row as it is and fits the columns, and nothing but
that row changes; a table that is put in the place of its older form is the last one that was put there.
-/

namespace ResourceApi

namespace Row

/-- A row with another cell in one column. -/
def mark (column : String) (cell : Cell) (row : Row) : Row := row.update [(column, cell)]

theorem columns_mark (column : String) (cell : Cell) (row : Row) :
    (row.mark column cell).map Prod.fst = row.map Prod.fst := columns_update row _

theorem cell_mark_other {column name : String} (other : name ≠ column) (cell : Cell) (row : Row) :
    (row.mark column cell).cell name = row.cell name := by
  have unlike : (name == column) = false := by simpa using other
  rw [mark, cell_update, List.lookup_cons, unlike, List.lookup_nil, Option.getD_none]
  cases found : row.lookup name with
  | none => simp [Row.cell, found]
  | some held => simp

/-- Of two cells that are put in one column the last one stays. -/
theorem mark_mark (column : String) (first second : Cell) (row : Row) :
    (row.mark column first).mark column second = row.mark column second := by
  unfold mark update
  rw [List.map_map]
  refine List.map_congr_left fun entry _ => ?_
  by_cases here : entry.1 = column
  · simp [here]
  · have unlike : (entry.1 == column) = false := by simpa using here
    simp [List.lookup_cons, unlike]

end Row

namespace Table

variable {table : Table} {row : Row} {column : Column} (nodup : table.columnNames.Nodup)
  (full : table.fullRow row = row) (listed : column ∈ table.columns)
include nodup full listed

theorem cell_mark (cell : Cell) : (row.mark column.name cell).cell column.name = cell := by
  have named : column.name ∈ row.map Prod.fst := by
    rw [((full_iff nodup).1 full).1]
    exact List.mem_map_of_mem listed
  have there : (row.lookup column.name).isSome = true := by
    rw [List.lookup_isSome_iff]
    obtain ⟨entry, present, same⟩ := List.mem_map.1 named
    exact ⟨entry, present, by simp [same]⟩
  rw [Row.mark, Row.cell_update, if_pos there]
  simp

/-- A full row is full again with a cell that the column keeps. -/
theorem full_mark {cell : Cell} (stored : Cell.IsStored column.type.affinity cell) :
    table.fullRow (row.mark column.name cell) = row.mark column.name cell := by
  obtain ⟨columns, kept⟩ := (full_iff nodup).1 full
  refine (full_iff nodup).2 ⟨(Row.columns_mark _ _ _).trans columns, fun other there => ?_⟩
  by_cases same : other.name = column.name
  · obtain rfl : other = column := List.inj_on_of_nodup_map nodup there listed same
    rwa [cell_mark nodup full listed]
  · rw [Row.cell_mark_other same]
    exact kept other there

/-- A row that takes one cell holds what the column makes of it. -/
theorem fullRow_update_single (cell : Cell) :
    table.fullRow (row.update [(column.name, cell)]) = row.mark column.name (cell.stored column.type.affinity) := by
  have stored := Cell.stored_isStored column.type.affinity cell
  refine Row.ext ?_ (by rwa [columns_fullRow]) fun name named => ?_
  · rw [columns_fullRow, Row.columns_mark, ((full_iff nodup).1 full).1]
  · rw [columns_fullRow] at named
    obtain ⟨other, there, rfl⟩ := List.mem_map.1 named
    rw [cell_fullRow_update nodup full there]
    by_cases same : other.name = column.name
    · obtain rfl : other = column := List.inj_on_of_nodup_map nodup there listed same
      rw [cell_mark nodup full listed]
      simp
    · have unlike : (other.name == column.name) = false := by simpa using same
      rw [Row.cell_mark_other same, List.lookup_cons, unlike]
      rfl

/-- A cell that is put where it stands already changes nothing. -/
theorem mark_self : row.mark column.name (row.cell column.name) = row := by
  have same := fullRow_update_single nodup full listed (row.cell column.name)
  have still : row.update [(column.name, row.cell column.name)] = row := by
    refine Row.ext (Row.columns_update _ _) (by rwa [Row.columns_update, ((full_iff nodup).1 full).1]) fun name _ => ?_
    by_cases here : name = column.name
    · subst here
      exact cell_mark nodup full listed _
    · exact Row.cell_mark_other here _ _
  exact still

end Table

namespace StoredTable

variable {table : Table} {rows others done : List Row} {row new : Row} {chosen : Row → Bool} {cells : List (String × Cell)}

/-- Whether a row is one that a table can take: its place is an integer, and it has a cell where one is needed. -/
structure Fits (table : Table) (row : Row) : Prop where
  place : ∀ place, table.placeColumn? = some place → ∃ n, row.cell place.name = .int n
  known : ∀ column ∈ table.columns, (!column.isNullable || column.isKey) = true → row.cell column.name ≠ .null

/-- Nothing stands against a row among others if it fits the table and its key is not taken. -/
theorem objection?_eq_none_iff : objection? table others row = none ↔
    Fits table row ∧ ∀ other ∈ others, ¬sameKey table row other = true := by
  have missing : (table.columns.find? fun column =>
      (!column.isNullable || column.isKey) && row.cell column.name == .null) = none ↔
      ∀ column ∈ table.columns, (!column.isNullable || column.isKey) = true → row.cell column.name ≠ .null := by
    rw [List.find?_eq_none]
    exact forall₂_congr fun column _ => by simp
  constructor
  · intro free
    refine ⟨⟨fun place found => placed_of_objection? free found, missing.1 ?_⟩, ne_of_objection? free⟩
    cases known : table.columns.find? fun column =>
      (!column.isNullable || column.isKey) && row.cell column.name == .null with
    | none => rfl
    | some column =>
      unfold objection? at free
      rw [known] at free
      exact absurd free (ite_some_ne _ _ _)
  · rintro ⟨⟨place, known⟩, fresh⟩
    have none : others.any (sameKey table row) = false := List.any_eq_false.2 fresh
    unfold objection?
    rw [missing.2 known, none]
    cases found : table.placeColumn? with
    | none => rfl
    | some column =>
      obtain ⟨n, held⟩ := place column found
      simp [held]

/-- Whether rows stand in the order of their places. -/
def Placed (table : Table) (rows : List Row) : Prop :=
  ∀ place, table.placeColumn? = some place →
    rows.Pairwise fun a b => Cell.order (a.cell place.name) (b.cell place.name) ≠ .gt

theorem arranged_of_placed (placed : Placed table rows) : arranged table rows = rows := by
  unfold arranged
  split
  · rfl
  · next place found =>
    refine List.mergeSort_of_pairwise ((placed place found).imp fun before => ?_)
    simpa using before

/-- The place of a row is a key of it. -/
theorem isKey_of_placeColumn? {place : Column} (found : table.placeColumn? = some place) : place ∈ table.keyColumns := by
  unfold Table.placeColumn? at found
  split at found
  · next only alone =>
    split at found
    · cases found
      exact alone ▸ List.mem_singleton_self _
    · cases found
  · cases found

/-- Rows stay in their places as long as they keep their keys. -/
theorem Placed.map (placed : Placed table rows) {change : Row → Row}
    (keys : ∀ row ∈ rows, ∀ column ∈ table.keyColumns, (change row).cell column.name = row.cell column.name) :
    Placed table (rows.map change) := by
  intro place found
  have listed := isKey_of_placeColumn? found
  refine List.pairwise_map.2 ((placed place found).imp_of_mem fun first second before => ?_)
  rwa [keys _ first place listed, keys _ second place listed]

/-- The one row that is chosen is changed if nothing stands against it and it keeps its key. -/
private theorem updateFrom_single (distinct : Distinct table (done.reverse ++ rows))
    (one : ∀ other ∈ rows, chosen other = true → other = row)
    (fits : Fits table (table.fullRow (row.update cells)))
    (same : ∀ other, sameKey table (table.fullRow (row.update cells)) other = sameKey table row other) :
    ∃ result, updateFrom table chosen cells done rows = .ok result := by
  induction rows generalizing done with
  | nil => exact ⟨_, rfl⟩
  | cons first rest ih =>
    have later := fun other listed => one other (List.mem_cons_of_mem first listed)
    rw [updateFrom]
    cases yes : chosen first with
    | false => exact ih (by simpa using distinct) later
    | true =>
      obtain rfl := one first List.mem_cons_self yes
      obtain ⟨before, after, across⟩ := List.pairwise_append.1 distinct
      obtain ⟨behind, rest'⟩ := List.pairwise_cons.1 after
      have fresh (other : Row) (there : other ∈ done ++ rest) :
          ¬sameKey table (table.fullRow (first.update cells)) other = true := by
        rw [same]
        rcases List.mem_append.1 there with old | new
        · rw [sameKey_comm]
          exact across other (List.mem_reverse.2 old) first List.mem_cons_self
        · exact behind other new
      have allowed := objection?_eq_none_iff.2 ⟨fits, fresh⟩
      simp only [if_true, allowed]
      refine ih ?_ later
      rw [List.reverse_cons, List.append_assoc, List.singleton_append]
      refine List.pairwise_append.2 ⟨before, List.pairwise_cons.2 ⟨fun other there => ?_, rest'⟩,
        fun other there => List.forall_mem_cons.2 ⟨?_, fun second there' => across other there second (.tail _ there')⟩⟩
      · exact fresh other (List.mem_append_right _ there)
      · rw [sameKey_comm]
        exact fresh other (List.mem_append_left _ (List.mem_reverse.1 there))

/-- A table takes a change of one row that leaves the key as it is and against which nothing stands. -/
theorem update_single (distinct : Distinct table rows) (placed : Placed table rows)
    (one : ∀ other ∈ rows, chosen other = true ↔ other = row)
    (fits : Fits table (table.fullRow (row.update cells)))
    (keys : ∀ column ∈ table.keyColumns, (table.fullRow (row.update cells)).cell column.name = row.cell column.name) :
    StoredTable.update ⟨table, rows⟩ chosen cells =
      .ok ⟨table, rows.map fun other => if other = row then table.fullRow (row.update cells) else other⟩ := by
  have same (other : Row) : sameKey table (table.fullRow (row.update cells)) other = sameKey table row other := by
    unfold sameKey
    congr 1
    rw [Bool.eq_iff_iff, List.all_eq_true, List.all_eq_true]
    exact forall₂_congr fun column listed => by rw [keys column listed]
  have start : Distinct table (([] : List Row).reverse ++ rows) := distinct
  obtain ⟨result, updated⟩ := updateFrom_single start (fun other there => (one other there).1) fits same
  have made := updateFrom_eq_ok updated
  rw [List.reverse_nil, List.nil_append] at made
  have each : rows.map (rewritten table chosen cells) =
      rows.map fun other => if other = row then table.fullRow (row.update cells) else other := by
    refine List.map_congr_left fun other there => ?_
    by_cases own : other = row
    · subst own
      rw [rewritten_of_chosen ((one other there).2 rfl), if_pos rfl]
    · rw [rewritten_of_not_chosen (Bool.eq_false_iff.2 fun yes => own ((one other there).1 yes)), if_neg own]
  have kept : Placed table result := by
    rw [made, each]
    refine placed.map fun other _ column listed => ?_
    split
    · next own => rw [keys column listed, own]
    · rfl
  unfold StoredTable.update
  rw [updated]
  change Except.ok _ = Except.ok _
  rw [arranged_of_placed kept, made, each]

end StoredTable

/-! ## Putting a table in its place -/

namespace Database

variable {database : Database} {table : Table} {rows others : List Row}

theorem table?_set (stores : database.Stores table) (rows : List Row) :
    (database.set ⟨table, rows⟩).table? table.name = some ⟨table, rows⟩ := by
  obtain ⟨old, found⟩ := stores
  exact table?_set_same (Option.isSome_iff_exists.2 ⟨_, found⟩)

theorem rows_set (stores : database.Stores table) (rows : List Row) :
    (database.set ⟨table, rows⟩).rows table.name = rows := rows_of_table? (table?_set stores rows)

theorem Stores.set (stores : database.Stores table) (rows : List Row) : (database.set ⟨table, rows⟩).Stores table :=
  ⟨rows, table?_set stores rows⟩

theorem set_set (database : Database) (table : Table) (rows others : List Row) :
    (database.set ⟨table, rows⟩).set ⟨table, others⟩ = database.set ⟨table, others⟩ := by
  simp only [Database.set, List.map_map]
  refine congrArg Database.mk (List.map_congr_left fun old _ => ?_)
  by_cases same : old.table.name = table.name <;> simp [same]

/-- A table that is put where it stands changes nothing, provided that no other one bears its name. -/
theorem set_self (stores : database.Stores table) (distinct : (database.tables.map (·.table.name)).Nodup) :
    database.set ⟨table, database.rows table.name⟩ = database := by
  obtain ⟨rows, found⟩ := stores
  rw [rows_of_table? found]
  obtain ⟨tables⟩ := database
  refine congrArg Database.mk ((List.map_congr_left fun old listed => ?_).trans (List.map_id tables))
  dsimp only
  split
  · next same =>
    have there := List.mem_of_find?_eq_some found
    exact (List.inj_on_of_nodup_map distinct listed there (by simpa using same)).symm
  · rfl

theorem names_set (database : Database) (table : Table) (rows : List Row) :
    (database.set ⟨table, rows⟩).tables.map (·.table.name) = database.tables.map (·.table.name) := by
  simp only [Database.set, List.map_map]
  refine List.map_congr_left fun old _ => ?_
  by_cases same : old.table.name = table.name <;> simp [same]

/-- A change that a table takes is taken by the database. -/
theorem update_of_stored {chosen : Row → Bool} {cells : List (String × Cell)} (stores : database.Stores table)
    (changed : StoredTable.update ⟨table, database.rows table.name⟩ chosen cells = .ok ⟨table, rows⟩) :
    database.update table.name chosen cells = .ok (database.set ⟨table, rows⟩) := by
  obtain ⟨old, found⟩ := stores
  rw [rows_of_table? found] at changed
  unfold Database.update modifyTable
  simp only [found, changed]
  rfl

theorem delete_of_stored (chosen : Row → Bool) (stores : database.Stores table) :
    database.delete table.name chosen =
      .ok (database.set ⟨table, (database.rows table.name).filter (!chosen ·)⟩) := by
  obtain ⟨old, found⟩ := stores
  rw [rows_of_table? found]
  unfold Database.delete modifyTable
  simp only [found]
  rfl

end Database

end ResourceApi
