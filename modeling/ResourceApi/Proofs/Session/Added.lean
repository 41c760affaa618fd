import ResourceApi.Proofs.Session.Standing

/-!
Adding new records. The row of a new record bears what the record has in hand after it was added: what was given, and
what was filled in.
-/

namespace ResourceApi

open Outcome

theorem Value.isNull_iff {value : Value} : value.isNull = true ↔ value = .null := by
  cases value with
  | plain j => cases j <;> simp [isNull, null]
  | moment text zoned => simp [isNull, null]

/-- A column of integers makes null of nothing but null and what is no number. -/
theorem Value.of_stored_eq_null {value : Value} {column : Column} {cell : Cell} (type : column.type = .integer)
    (formed : value.cellFor column = .ok cell) (none : cell.stored column.type.affinity = .null) :
    value = .null ∨ value = .plain (.double .notANumber) := by
  have whole (d : Double) : Cell.wholeReal d ≠ .null := by
    unfold Cell.wholeReal
    split
    · split <;> simp
    · simp
  have null : cell = .null := by
    rw [type] at none
    cases cell with
    | null => rfl
    | int n => cases none
    | real d => exact absurd none (whole d)
    | text s =>
      cases found : Cell.ofNumberText? s with
      | none => simp [Cell.stored, ColumnType.affinity, found] at none
      | some number =>
        rcases Cell.ofNumberText?_cases found with ⟨n, rfl⟩ | ⟨d, rfl⟩
        · simp [Cell.stored, ColumnType.affinity, found] at none
        · simp [Cell.stored, ColumnType.affinity, found, whole] at none
  subst null
  cases value with
  | moment text zoned =>
    rw [Value.cellFor, type] at formed
    cases formed
  | plain j =>
    have made : Cell.ofJson j = .ok .null := by
      simpa [Value.cellFor, type, ColumnType.bindType, Bound.formed] using formed
    cases j with
    | null => exact .inl rfl
    | double d => cases d <;> first | exact .inr rfl | cases made
    | int n =>
      rw [Cell.ofJson] at made
      split at made <;> cases made
    | _ => cases made

theorem Table.placeColumn?_of_isPlaceColumn {table : Table} {column : Column} (nodup : table.columnNames.Nodup)
    (listed : column ∈ table.columns) (placed : table.isPlaceColumn column = true) : table.placeColumn? = some column := by
  obtain ⟨place, found, same⟩ : ∃ place, table.placeColumn? = some place ∧ place.name = column.name := by
    simpa [Table.isPlaceColumn] using placed
  rw [found, List.inj_on_of_nodup_map nodup (Table.placeColumn?_eq_some found).1 listed same]

namespace Job

variable {work after : Work} {number : Nat} {record : Record}

/-- What the storage is given for the columns of a new row, where nothing was given by the record. -/
def filledIn (record : Record) : Values :=
  ((newValues record).filter fun entry => (record.value entry.1.name).isNull && !entry.2.isNull).map fun entry =>
    (entry.1.name, entry.2)

/-- What a new record is told of its place: the key that its row was given, where it had none in hand. -/
inductive Places (record : Record) (row : Row) : Values → Prop
  | told {place : Column} {value : Value} (found : record.table.placeColumn? = some place)
      (null : (record.value place.name).isNull = true) (read : Value.ofCell place.type (row.cell place.name) = .ok value) :
      Places record row [(place.name, value)]
  | known (known : ∀ place, record.table.placeColumn? = some place → (record.value place.name).isNull = false) :
      Places record row []

/-- Adding a new record puts a row in its table; the record knows what was filled in, its place included. -/
theorem add_eq_ok (ran : (add number).runOn work = (.ok (), after)) (found : work.records.lookup number = some record) :
    ∃ cells database row placed, Value.cells (newValues record) = .ok cells ∧
      work.database.insert record.table.name cells = .ok (database, row) ∧ Places record row placed ∧
      after = { work with
        database := database
        records := work.records.map fun entry =>
          if entry.1 == number then (number, (record.setAll (filledIn record ++ placed)).settled) else entry } := by
  unfold add at ran
  rw [bind_runOn, record_runOn found] at ran
  dsimp only at ran
  obtain ⟨cells, made, ran⟩ := of_bind_eq_ok.1 ran
  rw [bind_runOn, database_runOn] at ran
  dsimp only at ran
  obtain ⟨⟨database, row⟩, inserted, ran⟩ := of_bind_eq_ok.1 ran
  have inserted := mapError_eq_ok.1 inserted
  obtain ⟨_, changed, set, ran⟩ := bind_eq_ok.1 ran
  cases set
  cases place : record.table.placeColumn? with
  | none =>
    rw [place] at ran
    cases ran
    exact ⟨cells, database, row, [], made, inserted, .known (by simp [place]), rfl⟩
  | some column =>
    rw [place] at ran
    dsimp only at ran
    cases null : (record.value column.name).isNull with
    | true =>
      rw [null, if_pos rfl] at ran
      obtain ⟨value, is, ran⟩ := of_bind_eq_ok.1 ran
      cases ran
      exact ⟨cells, database, row, _, made, inserted, .told place null is, rfl⟩
    | false =>
      rw [null, if_neg (by simp)] at ran
      cases ran
      exact ⟨cells, database, row, [], made, inserted, .known (by simpa [place] using null), rfl⟩

/-- The value that the storage is given for a column of a new row. -/
def newValue (record : Record) (column : Column) : Value :=
  if (record.value column.name).isNull then .plain column.default else record.value column.name

theorem newValues_eq (record : Record) :
    newValues record = record.table.columns.map fun column => (column, newValue record column) := rfl

/-- What is known of a column after the defaults were filled in. -/
theorem lookup_filledIn (nodup : record.table.columnNames.Nodup) {column : Column} (listed : column ∈ record.table.columns) :
    (((filledIn record).reverse.lookup column.name).or (record.value? column.name)).getD .null = newValue record column := by
  cases found : (filledIn record).reverse.lookup column.name with
  | some value =>
    obtain ⟨⟨other, held⟩, inside, same⟩ := List.mem_map.1 (List.mem_reverse.1 (mem_of_lookup found))
    obtain ⟨there, present, is⟩ := List.mem_map.1 (newValues_eq record ▸ List.mem_of_mem_filter inside)
    obtain ⟨rfl, rfl⟩ := Prod.mk.inj is
    obtain ⟨named, rfl⟩ := Prod.mk.inj same
    rw [List.inj_on_of_nodup_map nodup present listed named]
    rfl
  | none =>
    rw [Option.none_or]
    change record.value column.name = _
    rw [newValue]
    split
    · next null =>
      rw [Value.isNull_iff.1 null]
      by_contra filled
      refine absurd found ?_
      rw [← ne_eq, Option.ne_none_iff_isSome, List.lookup_isSome_iff]
      refine ⟨(column.name, .plain column.default), List.mem_reverse.2 (List.mem_map.2 ⟨(column, .plain column.default),
        List.mem_filter.2 ⟨?_, ?_⟩, rfl⟩), by simp⟩
      · exact newValues_eq record ▸ List.mem_map.2 ⟨column, listed, by rw [newValue, if_pos null]⟩
      · have known : (Value.plain column.default).isNull = false :=
          Bool.eq_false_iff.2 fun none => filled (Value.isNull_iff.1 none).symm
        simp [null, known]
    · rfl

/-- What was filled in is no column that the record had a value for. -/
theorem lookup_filledIn_of_known {name : String} (known : (record.value name).isNull = false) :
    (filledIn record).reverse.lookup name = none := by
  rw [List.lookup_eq_none_iff]
  intro entry listed
  obtain ⟨⟨column, value⟩, inside, rfl⟩ := List.mem_map.1 (List.mem_reverse.1 listed)
  have null := (List.mem_filter.1 inside).2
  simp only [Bool.and_eq_true] at null
  rw [bne_iff_ne]
  rintro rfl
  rw [null.1] at known
  cases known

section Placed

variable {row : Row} {placed : Values}

/-- The place is no column that the record had a value for. -/
theorem Places.lookup_of_known (places : Places record row placed) {name : String}
    (known : (record.value name).isNull = false) : placed.reverse.lookup name = none := by
  cases places with
  | @told place value found null read =>
    have apart : (name == place.name) = false := by
      rw [beq_eq_false_iff_ne]
      rintro rfl
      rw [null] at known
      cases known
    simp [List.lookup_cons, apart]
  | known _ => rfl

/-- The last that a new record knows of a column is its place, before that what was filled in. -/
theorem value?_told (name : String) : (record.setAll (filledIn record ++ placed)).settled.value? name =
    (placed.reverse.lookup name).or (((filledIn record).reverse.lookup name).or (record.value? name)) := by
  change (record.setAll (filledIn record ++ placed)).value? name = _
  rw [Record.value?_setAll, List.reverse_append, List.lookup_append, Option.or_assoc]

variable {column : Column} (nodup : record.table.columnNames.Nodup) (listed : column ∈ record.table.columns)
include nodup listed

/-- A column has what the storage was given for it, unless that is nothing and the column is a place. -/
theorem bears_of_newValue {rows : List Row} {cells : List (String × Cell)}
    (made : Value.cells (newValues record) = .ok cells)
    (own : record.table.isPlaceColumn column = true →
      newValue record column ≠ .null ∧ newValue record column ≠ .plain (.double .notANumber)) :
    column.Bears (newValue record column) ((StoredTable.added ⟨record.table, rows⟩ cells).cell column.name) := by
  have columns : (newValues record).map (·.1.name) = record.table.columnNames := by
    simp [newValues_eq, Table.columnNames]
  obtain ⟨cell, formed, held⟩ := Value.lookup_cells made (columns ▸ nodup)
    (newValues_eq record ▸ List.mem_map_of_mem listed)
  rw [StoredTable.cell_added nodup listed _ _, held, Option.getD_some]
  · exact .written formed
  · rw [held, Option.getD_some]
    cases placed : record.table.isPlaceColumn column with
    | false => exact .inr rfl
    | true =>
      obtain ⟨notNull, number⟩ := own placed
      have integer := Table.type_of_isPlaceColumn nodup listed placed
      exact .inl fun none => (Value.of_stored_eq_null integer formed none).elim notNull number

/-- A column in which no place was taken has what the storage was given for it. -/
theorem bears_of_unplaced {rows : List Row} {cells : List (String × Cell)}
    (made : Value.cells (newValues record) = .ok cells) (unplaced : placed.reverse.lookup column.name = none)
    (own : record.table.isPlaceColumn column = true → (record.value column.name).isNull = false)
    (number : (record.setAll (filledIn record ++ placed)).settled.value column.name ≠ .plain (.double .notANumber)) :
    column.Bears ((record.setAll (filledIn record ++ placed)).settled.value column.name)
      ((StoredTable.added ⟨record.table, rows⟩ cells).cell column.name) := by
  have is : (record.setAll (filledIn record ++ placed)).settled.value column.name = newValue record column := by
    rw [Record.value, value?_told, unplaced, Option.none_or, lookup_filledIn nodup listed]
  rw [is] at number ⊢
  refine bears_of_newValue nodup listed made fun placed => ⟨fun null => ?_, number⟩
  have own := own placed
  rw [newValue, own, if_neg (by simp)] at null
  rw [null] at own
  cases own

/-- A row that was added bears what its record knows then. -/
theorem bears_of_added {rows : List Row} {cells : List (String × Cell)}
    (made : Value.cells (newValues record) = .ok cells)
    (free : StoredTable.objection? record.table rows (StoredTable.added ⟨record.table, rows⟩ cells) = none)
    (places : Places record (StoredTable.added ⟨record.table, rows⟩ cells) placed)
    (number : (record.setAll (filledIn record ++ placed)).settled.value column.name ≠ .plain (.double .notANumber)) :
    column.Bears ((record.setAll (filledIn record ++ placed)).settled.value column.name)
      ((StoredTable.added ⟨record.table, rows⟩ cells).cell column.name) := by
  cases places with
  | known known =>
    exact bears_of_unplaced nodup listed made rfl
      (fun placed => known column (Table.placeColumn?_of_isPlaceColumn nodup listed placed)) number
  | @told place value found null read =>
    by_cases same : place.name = column.name
    · obtain rfl : place = column :=
        List.inj_on_of_nodup_map nodup (Table.placeColumn?_eq_some found).1 listed same
      have is : (record.setAll (filledIn record ++ [(place.name, value)])).settled.value place.name = value := by
        rw [Record.value, value?_told]
        simp
      obtain ⟨n, integer⟩ := StoredTable.placed_of_objection? free found
      rw [is]
      refine .read ⟨?_, ?_, .inl ⟨n, integer⟩⟩ read
      · rw [integer, (Table.placeColumn?_eq_some found).2]
        rfl
      · rw [integer]
        trivial
    · have apart : (column.name == place.name) = false := by simpa using Ne.symm same
      refine bears_of_unplaced nodup listed made (by simp [List.lookup_cons, apart]) (fun placed => ?_) number
      rw [Table.placeColumn?_of_isPlaceColumn nodup listed placed] at found
      cases found
      exact absurd rfl same

end Placed

/-- A new record is added: its row bears what the record has in hand, where that is not what is no number. -/
theorem flush_new (ran : (flush number).runOn work = (.ok (), after)) (nodup : (work.records.map (·.1)).Nodup)
    (quiet : ∀ entry ∈ work.records, entry.2.isStored = true → entry.2.IsWritten)
    (found : work.records.lookup number = some record) (new : record.isStored = false)
    (orderly : work.database.Orderly record.table) :
    ∃ row changed, after = { work with
        database := after.database
        records := work.records.map fun entry => if entry.1 == number then (number, changed) else entry } ∧
      work.database.Touches after.database record.table.name ∧ after.database.Orderly record.table ∧
      (after.database.rows record.table.name).Perm (row :: work.database.rows record.table.name) ∧
      changed.table = record.table ∧
      (∀ column ∈ record.table.columns, changed.value column.name ≠ .plain (.double .notANumber) →
        column.Bears (changed.value column.name) (row.cell column.name)) ∧
      ∀ name, (record.value name).isNull = false → changed.value? name = record.value? name := by
  obtain ⟨_, middle, wrote, rest⟩ := bind_eq_ok.1 ran
  rw [writeAll_of_quiet nodup quiet] at wrote
  cases wrote
  rw [bind_runOn, record_runOn found] at rest
  simp only [new, Bool.not_false, if_true] at rest
  obtain ⟨cells, database, row, placed, made, inserted, places, rfl⟩ := add_eq_ok rest found
  obtain ⟨touched, perm, rfl, free⟩ := Database.insert_eq_ok orderly.stores inserted
  refine ⟨_, (record.setAll (filledIn record ++ placed)).settled, rfl, touched, orderly.insert inserted, perm,
    Record.table_setAll, fun column listed number => bears_of_added orderly.nodup listed made free places number,
    fun name known => ?_⟩
  rw [value?_told, places.lookup_of_known known, lookup_filledIn_of_known known, Option.none_or, Option.none_or]

end Job

end ResourceApi
