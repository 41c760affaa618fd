import Mathlib.Data.List.Induction
import ResourceApi.Proofs.Session.Joined

/-!
Rows of a join table that take values one after the other: the last value wins, column by column, and what is taken again
changes nothing. Values that leave alone the columns by which a row says what it links leave alone what it links.
-/

namespace ResourceApi

open Outcome

theorem Table.eq_of_full {table : Table} {row other : Row} (nodup : table.columnNames.Nodup)
    (full : table.fullRow row = row) (also : table.fullRow other = other)
    (cells : ∀ column ∈ table.columns, row.cell column.name = other.cell column.name) : row = other := by
  have columns := ((full_iff nodup).1 full).1
  have others := ((full_iff nodup).1 also).1
  refine Row.ext (columns.trans others.symm) (columns ▸ nodup) fun name named => ?_
  rw [columns] at named
  obtain ⟨column, listed, rfl⟩ := List.mem_map.1 named
  exact cells column listed

theorem Table.type_ref {table : Table} {name : String} {column : Column} (found : table.column? name = some column) :
    (table.ref 0 0 name).type = column.type := by
  rw [Table.ref, found]
  rfl

/-- The cell of a value is the same for all columns of a type. -/
theorem Value.cellFor_congr {first second : Column} (same : first.type = second.type) (value : Value) :
    value.cellFor first = value.cellFor second := by
  cases value <;> simp [cellFor, same]

namespace PivotLink

variable {link : PivotLink} {owner target : Resource} {parent record row other : Row} {pivot : Members}
  {pivots : List Members} {column : Column}

/-! ## Values for rows -/

/-- The cell that values give to a column, if they give it one. -/
def given? (link : PivotLink) (pivot : Members) (column : Column) : Option Cell :=
  match link.cells pivot with
  | .ok cells => (cells.lookup column.name).map (Cell.stored column.type.affinity)
  | .error _ => none

/-- The cell that the last of several values to give a column one gives it. -/
def lastGiven? (link : PivotLink) (pivots : List Members) (column : Column) : Option Cell :=
  pivots.foldl (fun last pivot => (link.given? pivot column).or last) none

/-- A row after it took values one after the other. -/
def take (link : PivotLink) (pivots : List Members) (row : Row) : Row :=
  pivots.foldl (fun row pivot => link.assign pivot row) row

@[simp]
theorem take_nil (link : PivotLink) (row : Row) : link.take [] row = row := rfl

@[simp]
theorem take_concat (link : PivotLink) (pivots : List Members) (pivot : Members) (row : Row) :
    link.take (pivots ++ [pivot]) row = link.assign pivot (link.take pivots row) := by
  simp [take]

@[simp]
theorem lastGiven?_concat (link : PivotLink) (pivots : List Members) (pivot : Members) (column : Column) :
    link.lastGiven? (pivots ++ [pivot]) column = (link.given? pivot column).or (link.lastGiven? pivots column) := by
  simp [lastGiven?]

section Full

variable (nodup : link.table.columnNames.Nodup)
include nodup

theorem full_assign (full : link.table.fullRow row = row) (pivot : Members) :
    link.table.fullRow (link.assign pivot row) = link.assign pivot row := by
  unfold assign
  split
  · exact Table.fullRow_fullRow nodup _
  · exact full

theorem cell_assign (full : link.table.fullRow row = row) (listed : column ∈ link.table.columns) (pivot : Members) :
    (link.assign pivot row).cell column.name = (link.given? pivot column).getD (row.cell column.name) := by
  unfold assign given?
  cases link.cells pivot with
  | ok cells => exact Table.cell_fullRow_update nodup full listed cells
  | error failure => rfl

theorem full_take (full : link.table.fullRow row = row) (pivots : List Members) :
    link.table.fullRow (link.take pivots row) = link.take pivots row := by
  induction pivots using List.reverseRecOn with
  | nil => exact full
  | append_singleton pivots pivot ih =>
    rw [take_concat]
    exact full_assign nodup ih pivot

/-- The last value wins, column by column. -/
theorem cell_take (full : link.table.fullRow row = row) (listed : column ∈ link.table.columns) (pivots : List Members) :
    (link.take pivots row).cell column.name = (link.lastGiven? pivots column).getD (row.cell column.name) := by
  induction pivots using List.reverseRecOn with
  | nil => rfl
  | append_singleton pivots pivot ih =>
    rw [take_concat, cell_assign nodup (full_take nodup full pivots) listed, ih, lastGiven?_concat]
    cases link.given? pivot column <;> rfl

/-- Taking the same values again changes nothing. -/
theorem take_take (full : link.table.fullRow row = row) (pivots : List Members) :
    link.take pivots (link.take pivots row) = link.take pivots row := by
  have taken := full_take nodup full pivots
  refine Table.eq_of_full nodup (full_take nodup taken pivots) taken fun column listed => ?_
  rw [cell_take nodup taken listed, cell_take nodup full listed]
  cases link.lastGiven? pivots column <;> rfl

/-- A row that carries values carries further ones after it took them. -/
theorem take_concat_assign (full : link.table.fullRow row = row) (carried : link.take pivots row = row)
    (pivot : Members) : link.take (pivots ++ [pivot]) (link.assign pivot row) = link.assign pivot row := by
  have assigned := full_assign nodup full pivot
  refine Table.eq_of_full nodup (full_take nodup assigned _) assigned fun column listed => ?_
  have before := cell_take nodup full listed pivots
  rw [carried] at before
  rw [cell_take nodup assigned listed, cell_assign nodup full listed, lastGiven?_concat]
  cases given : link.given? pivot column with
  | some cell => rfl
  | none => simpa using before.symm

theorem assign_nil (full : link.table.fullRow row = row) : link.assign [] row = row := by
  refine Table.eq_of_full nodup (full_assign nodup full []) full fun column listed => ?_
  rw [cell_assign nodup full listed]
  rfl

end Full

/-! ## What a row links -/

/-- The columns by which a row says what it links. -/
def marks (link : PivotLink) : List String := link.foreignKey :: link.relatedKey :: link.morph.toList.map (·.1)

/-- Whether values leave alone what a row links. -/
def Spares (link : PivotLink) (pivot : Members) : Prop := ∀ entry ∈ pivot, entry.1 ∉ link.marks

theorem belongs_congr (same : ∀ name ∈ link.marks, other.cell name = row.cell name) :
    link.belongs owner target parent other = link.belongs owner target parent row := by
  simp only [belongs, Link.ties, Link.isOfType, Table.agrees, Table.holds, List.getD_cons_succ, List.getD_cons_zero]
  rw [same link.foreignKey (by simp [marks])]
  congr 1
  cases morph : link.morph with
  | none => rfl
  | some entry =>
    simp only [Option.all_some]
    rw [same entry.1 (by simp [marks, morph])]

theorem reaches_congr (same : ∀ name ∈ link.marks, other.cell name = row.cell name) :
    link.reaches target record other = link.reaches target record row := by
  unfold reaches Table.agrees
  rw [same link.relatedKey (by simp [marks])]

theorem given?_of_spares {name : String} (spares : link.Spares pivot) (marked : name ∈ link.marks)
    (same : column.name = name) : link.given? pivot column = none := by
  unfold given?
  split
  · next cells made =>
    obtain ⟨assigned, given, formed⟩ := bind_eq_ok.1 made
    rw [Value.lookup_cells_none formed, Option.map_none]
    have names := JoinRows.names_of_assigned given
    rw [names, List.map_map]
    intro listed
    obtain ⟨entry, present, is⟩ := List.mem_map.1 listed
    exact spares entry present (by rw [Function.comp_apply] at is; rwa [is, same])
  · rfl

section Marks

variable (nodup : link.table.columnNames.Nodup) (full : link.table.fullRow row = row)
include nodup full

theorem cell_assign_of_spares (spares : link.Spares pivot) {name : String} (marked : name ∈ link.marks) :
    (link.assign pivot row).cell name = row.cell name := by
  cases found : link.table.column? name with
  | none =>
    have before := Table.cell_fullRow link.table row name
    have after := Table.cell_fullRow link.table (link.assign pivot row) name
    rw [full, found] at before
    rw [full_assign nodup full, found] at after
    exact after.trans before.symm
  | some column =>
    obtain ⟨listed, rfl⟩ := Table.mem_of_column? found
    rw [cell_assign nodup full listed, given?_of_spares spares marked rfl]
    rfl

theorem cell_take_of_spares (spares : ∀ pivot ∈ pivots, link.Spares pivot) {name : String} (marked : name ∈ link.marks) :
    (link.take pivots row).cell name = row.cell name := by
  induction pivots using List.reverseRecOn with
  | nil => rfl
  | append_singleton pivots pivot ih =>
    rw [take_concat, cell_assign_of_spares nodup (full_take nodup full pivots) (spares pivot (by simp)) marked]
    exact ih fun other listed => spares other (by simp [listed])

end Marks

/-- The type of the keys by which rows lead to related records. -/
def keyType (link : PivotLink) : ColumnType := (link.table.ref 0 0 link.relatedKey).type

/-- A row leads to a record that has a key if that is the key of the row. -/
theorem reaches_iff_of_isStored {key : Value} (typed : link.Typed owner target)
    (linked : key.IsKey link.keyType (row.cell link.relatedKey))
    (stored : Cell.IsStored link.keyType.affinity (record.cell link.targetKey)) :
    link.reaches target record row = true ↔ record.cell link.targetKey ≠ .null ∧
      (row.cell link.relatedKey).place = (record.cell link.targetKey).place := by
  have own := linked.stored
  unfold reaches Table.agrees
  rw [← typed.related, ← Cell.order_eq_iff, ← Cell.orderBetween_of_isStored own stored]
  simp [linked.ne_null, keyType]

/-- A row leads to a record if it has its key. -/
theorem reaches_iff {key value : Value} (typed : link.Typed owner target)
    (linked : key.IsKey link.keyType (row.cell link.relatedKey))
    (asked : value.IsKey link.keyType (record.cell link.targetKey)) :
    link.reaches target record row = true ↔
      (row.cell link.relatedKey).place = (record.cell link.targetKey).place := by
  rw [reaches_iff_of_isStored typed linked asked.stored]
  exact and_iff_right asked.ne_null

/-! ## Rows that are added -/

/-- Whether values are for columns that say nothing of what a row links, and where a row is to be placed they say where. -/
structure Free (link : PivotLink) (pivot : Members) : Prop where
  spares : link.Spares pivot
  placed : ∀ entry ∈ pivot, ∀ column, link.table.column? entry.1 = some column →
    link.table.isPlaceColumn column = true → ∃ n, entry.2 = .int n

/-- Whether the type column is one of texts and gets texts, if there is one. -/
def Tagged (link : PivotLink) (owner target : Resource) : Prop :=
  ∀ column side, link.morph = some (column, side) → (link.table.ref 0 0 column).type = .string ∧
    ∃ s, (if side = .parent then owner.morphAlias else target.morphAlias) = .text s

/-- Values have cells if each has one for its column. -/
theorem exists_cells (each : ∀ entry ∈ pivot, ∃ column cell, link.table.column? entry.1 = some column ∧
    (Value.plain entry.2).cellFor column = .ok cell) : ∃ cells, link.cells pivot = .ok cells := by
  obtain ⟨assigned, cells, found, formed⟩ : ∃ (assigned : List (Column × Value)) (cells : List (String × Cell)),
      List.Forall₂ (fun entry result => link.table.column? entry.1 = some result.1 ∧ result.2 = entry.2)
        (pivot.map fun entry => (entry.1, Value.plain entry.2)) assigned ∧
      List.Forall₂ (fun entry cell => cell.1 = entry.1.name ∧ entry.2.cellFor entry.1 = .ok cell.2) assigned cells := by
    induction pivot with
    | nil => exact ⟨[], [], .nil, .nil⟩
    | cons entry rest ih =>
      obtain ⟨column, cell, known, is⟩ := each entry List.mem_cons_self
      obtain ⟨assigned, cells, found, formed⟩ := ih fun other listed => each other (List.mem_cons_of_mem _ listed)
      exact ⟨(column, .plain entry.2) :: assigned, (column.name, cell) :: cells, .cons ⟨known, rfl⟩ found,
        .cons ⟨rfl, is⟩ formed⟩
  refine ⟨cells, bind_eq_ok.2 ⟨assigned, mapM_eq_ok.2 (found.imp fun entry result is => ?_), Value.cells_eq_ok.2 formed⟩⟩
  obtain ⟨known, same⟩ := is
  dsimp only
  rw [known, ← same]

/-- The cell that values give to a column is that of one of them. -/
theorem given?_eq_some {cell : Cell} (given : link.given? pivot column = some cell) :
    ∃ entry ∈ pivot, ∃ own found, link.table.column? entry.1 = some own ∧ own.name = column.name ∧
      (Value.plain entry.2).cellFor own = .ok found ∧ cell = found.stored column.type.affinity := by
  unfold given? at given
  split at given
  · next cells made =>
    obtain ⟨assigned, taken, formed⟩ := bind_eq_ok.1 made
    obtain ⟨found, looked, rfl⟩ := Option.map_eq_some_iff.1 given
    obtain ⟨⟨own, value⟩, listed, same, is⟩ := forall₂_mem_right (Value.cells_eq_ok.1 formed) (mem_of_lookup looked)
    obtain ⟨entry, present, known, rfl⟩ := forall₂_mem_right (JoinRows.assigned_eq_ok taken) listed
    obtain ⟨member, inside, rfl⟩ := List.mem_map.1 present
    exact ⟨member, inside, own, found, known, same.symm, is, rfl⟩
  · cases given

end PivotLink

/-- What is read of a cell that is a value of its type is a key. -/
theorem Table.isKey_of_ofCell {table : Table} {row : Row} {database : Database} {name : String} {type : ColumnType}
    {value : Value} (keeps : database.Keeps table) (inside : row ∈ database.rows table.name)
    (typed : (table.ref 0 0 name).type = type) (holds : type.Holds (row.cell name))
    (read : Value.ofCell type (row.cell name) = .ok value) : value.IsKey type (row.cell name) := by
  have full := keeps.full row inside
  obtain ⟨own, found⟩ := column?_of_cell_ne full (ColumnType.ne_null_of_holds holds)
  obtain ⟨listed, rfl⟩ := mem_of_column? found
  have same : own.type = type := (type_ref found).symm.trans typed
  refine ⟨read, holds, same ▸ isStored_of_full keeps.nodup full listed, fun column also value read => ?_⟩
  rw [Value.cellFor_congr (also.trans same.symm)]
  exact keeps.returns row inside own listed value (by rw [same, ← also]; exact read)

/-- The value of a record by which it is linked is a key. -/
theorem Record.Shows.isKey {record : Record} {row : Row} {database : Database} {name : String} {type : ColumnType}
    (shows : record.Shows row) (keeps : database.Keeps record.table) (inside : row ∈ database.rows record.table.name)
    (typed : (record.table.ref 0 0 name).type = type) (holds : type.Holds (row.cell name)) :
    (record.value name).IsKey type (row.cell name) := by
  obtain ⟨own, found⟩ := Table.column?_of_cell_ne (keeps.full row inside) (ColumnType.ne_null_of_holds holds)
  obtain ⟨listed, rfl⟩ := Table.mem_of_column? found
  have same : own.type = type := (Table.type_ref found).symm.trans typed
  exact Table.isKey_of_ofCell keeps inside typed holds (same ▸ (shows.value_eq keeps listed).1)

namespace JoinRows

variable {owner target : Resource} {link : PivotLink} {record : Record} {parent : Row} {database : Database} {work after : Work}
  {key : Value} {cell : Cell} {pivot : Members}

/-- The key of a record is written as the cell that it was read of. -/
private theorem cell_of_record {column : Column} {name : String} (shows : record.Shows parent)
    (keeps : database.Keeps record.table) (inside : parent ∈ database.rows record.table.name)
    (known : parent.cell name ≠ .null) (typed : column.type = (record.table.ref 0 0 name).type) :
    (record.value name).cellFor column = .ok (parent.cell name) ∧
      Cell.IsStored column.type.affinity (parent.cell name) := by
  have full := keeps.full parent inside
  obtain ⟨own, found⟩ := Table.column?_of_cell_ne full known
  obtain ⟨listed, rfl⟩ := Table.mem_of_column? found
  rw [Table.type_ref found] at typed
  rw [Value.cellFor_congr typed, typed]
  exact ⟨keeps.returns parent inside own listed _ (shows.value_eq keeps listed).1,
    Table.isStored_of_full keeps.nodup full listed⟩

section Given

variable {row : Row} (given : ∀ entry ∈ (ofRecord owner target link record).given key pivot, ∃ column made,
  link.table.column? entry.1 = some column ∧ entry.2.cellFor column = .ok made ∧
    (made.stored column.type.affinity ≠ .null ∨ link.table.isPlaceColumn column = false →
      row.cell entry.1 = made.stored column.type.affinity))
include given

/-- A row that was given the key of a record belongs to it. -/
private theorem belongs_of_given (shows : record.Shows parent) (keeps : database.Keeps record.table)
    (inside : parent ∈ database.rows record.table.name) (same : record.table = owner.table)
    (known : parent.cell link.localKey ≠ .null) (typed : link.Typed owner target) (tagged : link.Tagged owner target) :
    link.belongs owner target parent row = true := by
  have foreign : (link.foreignKey, record.value link.localKey) ∈ (ofRecord owner target link record).owner := by
    unfold ofRecord
    cases morph : link.morph with
    | none => simp
    | some entry =>
      have other : (link.foreignKey == entry.1) = false := by simpa using (typed.apart _ morph).symm
      simp [Record.put, other]
  obtain ⟨column, made, found, formed, held⟩ := given _ (List.mem_append_left _ foreign)
  have alike : column.type = (record.table.ref 0 0 link.localKey).type := by
    rw [← Table.type_ref found, typed.foreign, same]
  obtain ⟨written, stored⟩ := cell_of_record shows keeps inside known alike
  cases formed.symm.trans written
  have mine : row.cell link.foreignKey = parent.cell link.localKey := by
    rw [← stored]
    exact held (.inl (by rw [stored]; exact known))
  have ties : (Link.pivot link).ties owner target parent [[], row] = true := by
    simp only [Link.ties, Table.agrees, List.getD_cons_succ, List.getD_cons_zero, mine, ← typed.foreign]
    rw [Table.type_ref found, Cell.orderBetween_of_isStored stored stored, Cell.order_self]
    simp [known]
  rw [PivotLink.belongs, ties, Bool.true_and, Link.isOfType]
  cases morph : link.morph with
  | none => rfl
  | some entry =>
    obtain ⟨name, side⟩ := entry
    obtain ⟨string, s, text⟩ := tagged name side morph
    have listed : (name, Value.plain (.text s)) ∈ (ofRecord owner target link record).owner := by
      have other : (link.foreignKey == name) = false := by simpa using (typed.apart _ morph).symm
      simp [ofRecord, morph, Record.put, other, text]
    obtain ⟨column, made, found, formed, held⟩ := given _ (List.mem_append_left _ listed)
    rw [Table.type_ref found] at string
    have cell : made = .text s := by
      simpa [Value.cellFor, string, ColumnType.bindType, Bound.formed, Cell.ofJson] using formed.symm
    subst cell
    have told : row.cell name = .text s := by simpa [string, ColumnType.affinity, Cell.stored] using held
    simp only [Option.all_some, text, List.getD_cons_succ, List.getD_cons_zero]
    rw [Table.holds_compare (show Json.text s ≠ .null from fun same => by cases same), Table.type_ref found, string, told, Query.holds_compare]
    simp [Bound.cell, Bound.cell?, BindType.compared, Bound.formed, Cell.ofJson, Cell.orderFor, ColumnType.affinity,
      Affinity.isNumeric, Cell.asText, Cell.order_self]

/-- A row that was given the key of the other record leads to it. -/
private theorem leads_of_given (is : key.IsKey link.keyType cell) : row.cell link.relatedKey = cell := by
  have listed : (link.relatedKey, key) ∈ (ofRecord owner target link record).given key pivot := by
    refine List.mem_append_right _ ?_
    rw [link_ofRecord]
    exact List.mem_cons_self
  obtain ⟨column, made, found, formed, held⟩ := given _ listed
  have type : column.type = link.keyType := (Table.type_ref found).symm
  cases formed.symm.trans (is.cellFor_eq type)
  have stored : Cell.stored column.type.affinity cell = cell := type ▸ is.stored
  rw [stored] at held
  exact held (.inl is.ne_null)

private theorem given_pivot {entry : String × Json} (listed : entry ∈ pivot) : ∃ column made,
    link.table.column? entry.1 = some column ∧ (Value.plain entry.2).cellFor column = .ok made ∧
      (made.stored column.type.affinity ≠ .null ∨ link.table.isPlaceColumn column = false →
        row.cell entry.1 = made.stored column.type.affinity) :=
  given (entry.1, .plain entry.2) (List.mem_append_right _ (List.mem_cons_of_mem _ (List.mem_map_of_mem listed)))

/-- A row that was given values carries them: there is nothing more to assign. -/
private theorem assign_of_given (nodup : link.table.columnNames.Nodup) (full : link.table.fullRow row = row)
    (free : link.Free pivot) : link.assign pivot row = row := by
  refine Table.eq_of_full nodup (PivotLink.full_assign nodup full pivot) full fun column listed => ?_
  rw [PivotLink.cell_assign nodup full listed]
  cases taken : link.given? pivot column with
  | none => rfl
  | some cell =>
    obtain ⟨entry, present, own, found, known, named, is, rfl⟩ := PivotLink.given?_eq_some taken
    obtain ⟨column', made, known', formed, held⟩ := given_pivot given present
    cases known.symm.trans known'
    cases formed.symm.trans is
    obtain rfl : own = column := List.inj_on_of_nodup_map nodup (Table.mem_of_column? known).1 listed named
    rw [← (Table.mem_of_column? known).2] at held
    refine (held ?_).symm
    cases place : link.table.isPlaceColumn own with
    | false => exact .inr rfl
    | true =>
      obtain ⟨n, number⟩ := free.placed entry present own known place
      left
      have integer := Table.type_of_isPlaceColumn nodup listed place
      rw [number] at is
      simp only [Value.cellFor, Value.formedFor_plain, integer, ColumnType.bindType, Bound.formed, ok_bind, Cell.ofJson] at is
      split at is
      · cases is
        simp [integer, ColumnType.affinity, Cell.stored]
      · cases is

end Given

/-- A row that is added for a record belongs to it, leads to the other, and carries the values. -/
theorem add_links (shows : record.Shows parent) (keeps : database.Keeps record.table)
    (inside : parent ∈ database.rows record.table.name) (same : record.table = owner.table)
    (known : parent.cell link.localKey ≠ .null) (typed : link.Typed owner target) (tagged : link.Tagged owner target)
    (nodup : link.table.columnNames.Nodup) (stores : work.database.Stores link.table)
    (is : key.IsKey link.keyType cell) (free : link.Free pivot)
    (ran : ((ofRecord owner target link record).add key pivot).runOn work = (.ok (), after)) :
    ∃ row changed, after = { work with database := changed } ∧ work.database.Touches changed link.table.name ∧
      (changed.rows link.table.name).Perm (row :: work.database.rows link.table.name) ∧
      link.table.fullRow row = row ∧ link.belongs owner target parent row = true ∧ row.cell link.relatedKey = cell ∧
      link.assign pivot row = row ∧ ∃ cells, link.cells pivot = .ok cells := by
  have table : (ofRecord owner target link record).link = link := link_ofRecord
  obtain ⟨row, changed, rfl, touched, perm, full, given⟩ :=
    add_eq_ok (by rw [table]; exact stores) (by rw [table]; exact nodup) ran
  rw [table] at touched perm full
  simp only [table] at given
  refine ⟨row, changed, rfl, touched, perm, full, belongs_of_given given shows keeps inside same known typed tagged,
    leads_of_given given is, assign_of_given given nodup full free, PivotLink.exists_cells fun entry listed => ?_⟩
  obtain ⟨column, made, found, formed, -⟩ := given_pivot given listed
  exact ⟨column, made, found, formed⟩

end JoinRows

end ResourceApi
