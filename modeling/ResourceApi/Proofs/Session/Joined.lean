import Mathlib.Data.List.Nodup
import ResourceApi.Mutation.JoinRows
import ResourceApi.Proofs.Session.Found

/-!
Rows of join tables as links. The conditions by which the rows of a record are found, changed and removed say of rows as
the storage keeps them that they lead from that record to another one, where the columns that are matched are of one type.
-/

namespace ResourceApi

open Outcome

namespace Table

variable {table other : Table} {row record : Row} {column key : String}

theorem isStored_ref (nodup : table.columnNames.Nodup) (full : table.fullRow row = row) (column : String) :
    Cell.IsStored (table.ref 0 0 column).type.affinity (row.cell column) := by
  have made := cell_fullRow table row column
  rw [full] at made
  unfold Table.ref
  cases found : table.column? column with
  | none =>
    rw [found] at made
    rw [made]
    rfl
  | some known =>
    obtain ⟨listed, rfl⟩ := mem_of_column? found
    exact isStored_of_full nodup full listed

/-- A cell that is not null is that of a column. -/
theorem column?_of_cell_ne (full : table.fullRow row = row) (known : row.cell column ≠ .null) :
    ∃ found, table.column? column = some found := by
  have made := cell_fullRow table row column
  rw [full] at made
  cases found : table.column? column with
  | none =>
    rw [found] at made
    exact absurd made known
  | some known => exact ⟨known, rfl⟩

theorem holds_compare {value : Json} (known : value ≠ .null) :
    table.holds row column value = Truth.holds (Query.compare .equal (table.ref 0 0 column).type.affinity
      (row.cell column) (Bound.cell ⟨BindType.compared (table.ref 0 0 column).type value, value⟩)) := by
  unfold Table.holds Comparison.outcome
  cases value <;> first | rfl | exact absurd rfl known

end Table

namespace Record.Shows

variable {record : Record} {own : Row} {database : Database} (shows : record.Shows own)
  (keeps : database.Keeps record.table) (inside : own ∈ database.rows record.table.name) {key : String}
include shows keeps inside

/-- The value of a record is compared with other columns as the cell that it was read of. -/
theorem cell_compared (key : String) (type : ColumnType) :
    Bound.cell ⟨BindType.compared type (record.value key).compared, (record.value key).compared⟩ = own.cell key := by
  by_cases known : own.cell key = .null
  · have null : record.value key = .null := by
      cases found : record.table.column? key with
      | none =>
        have absent : record.values.lookup key = none := by
          rw [List.lookup_eq_none_iff]
          intro entry listed
          have named : entry.1 ∈ record.table.columnNames := by
            rw [← Table.names_of_read shows.read]
            exact List.mem_map_of_mem listed
          obtain ⟨column, present, same⟩ := List.mem_map.1 named
          have other := List.find?_eq_none.1 found column present
          rw [← same]
          simpa using fun equal : key = column.name => other (by simp [equal])
        simp [Record.value, Record.value?, absent]
      | some column =>
        obtain ⟨listed, rfl⟩ := Table.mem_of_column? found
        have read := (shows.value_eq keeps listed).1
        rw [known] at read
        rcases Value.ofCell_eq_ok read with ⟨plain, -⟩ | ⟨-, s, text, none, -⟩
        · exact plain
        · cases none
    rw [null, known]
    cases type <;> rfl
  · obtain ⟨column, found⟩ := Table.column?_of_cell_ne (keeps.full own inside) known
    obtain ⟨listed, rfl⟩ := Table.mem_of_column? found
    exact (keeps.returns own inside column listed).cell_compared
      (Table.isStored_of_full keeps.nodup (keeps.full own inside) listed) (shows.value_eq keeps listed).1 type

theorem compared_ne_null (known : own.cell key ≠ .null) : (record.value key).compared ≠ .null := by
  intro null
  have cell := shows.cell_compared keeps inside key .integer
  rw [null] at cell
  exact known cell.symm

/-- A column has the value of a record if it agrees with the column that the value is read of. -/
theorem holds_compare {between : Table} {row : Row} {column : String} (nodup : between.columnNames.Nodup)
    (full : between.fullRow row = row)
    (typed : (between.ref 0 0 column).type = (record.table.ref 0 0 key).type) :
    Truth.holds (Query.compare .equal (between.ref 0 0 column).type.affinity (row.cell column)
        (Bound.cell ⟨BindType.compared (between.ref 0 0 column).type (record.value key).compared,
          (record.value key).compared⟩)) = between.agrees row column record.table own key := by
  have first := Table.isStored_ref nodup full column
  have second := Table.isStored_ref keeps.nodup (keeps.full own inside) key
  rw [← typed] at second
  rw [shows.cell_compared keeps inside, Query.holds_compare, Cell.orderFor_of_isStored first second, Table.agrees, ← typed,
    Cell.orderBetween_of_isStored first second]

end Record.Shows

namespace JoinRows

variable {rows : JoinRows}

theorem link_ofRecord {owner target : Resource} {link : PivotLink} {record : Record} :
    (ofRecord owner target link record).link = link := by
  unfold ofRecord
  split <;> rfl

/-- Whether a row belongs to the record. -/
def owns (rows : JoinRows) (row : Row) : Bool :=
  rows.owner.all fun entry => rows.link.table.holds row entry.1 entry.2.compared

/-- Whether a row leads to one of some others. -/
def leads (rows : JoinRows) (related : List Value) (row : Row) : Bool :=
  Truth.holds (Comparison.isIn.outcome (rows.column rows.link.relatedKey).type (row.cell rows.link.relatedKey)
    (.list (related.map Value.compared)))

theorem all_owned {conditions : List Cond} (made : rows.owned = .ok conditions) (database : Database) (row : Row) :
    meets database conditions row = rows.owns row := by
  have pointwise := mapM_eq_ok.1 made
  unfold meets owns
  rw [Query.holds_truths]
  clear made
  generalize rows.owner = owner at pointwise
  induction pointwise with
  | nil => rfl
  | cons here _ ih =>
    rw [List.all_cons, List.all_cons, ih]
    congr 1
    rw [Query.holds, Comparison.truth_ofComparison here]
    rfl

theorem all_linking {database : Database} {related : List Value} {conditions : List Cond}
    (made : rows.linking related = .ok conditions) (row : Row) :
    meets database conditions row = (rows.owns row && rows.leads related row) := by
  obtain ⟨among, member, made⟩ := bind_eq_ok.1 made
  obtain ⟨own, owned, made⟩ := bind_eq_ok.1 made
  obtain rfl := pure_eq_ok.1 made
  have mine := all_owned owned database row
  unfold meets at mine ⊢
  rw [Query.holds_truths] at mine ⊢
  rw [List.all_append, mine, List.all_cons, List.all_nil, Bool.and_true, Query.holds,
    Comparison.truth_ofComparison member]
  rfl

/-- A row leads to a single other if it has its value. -/
theorem leads_singleton (related : Value) (row : Row) :
    rows.leads [related] row = Truth.holds (Query.compare .equal (rows.column rows.link.relatedKey).type.affinity
      (row.cell rows.link.relatedKey)
      (Bound.cell ⟨BindType.compared (rows.column rows.link.relatedKey).type related.compared, related.compared⟩)) := by
  simp only [leads, Comparison.outcome, Comparison.candidates, List.map_cons, List.map_nil, List.headD_cons, Query.among,
    Truth.holds_any, List.any_cons, List.any_nil, Bool.or_false]

/-- Removing rows removes those that belong to the record and lead to the others. -/
theorem remove_eq_ok {work after : Work} {related : List Value} (stores : work.database.Stores rows.link.table)
    (ran : (rows.remove related).runOn work = (.ok (), after)) :
    ∃ database, after = { work with database := database } ∧ work.database.Touches database rows.link.table.name ∧
      database.rows rows.link.table.name =
        (work.database.rows rows.link.table.name).filter fun row => !(rows.owns row && rows.leads related row) := by
  unfold remove at ran
  obtain ⟨conditions, made, ran⟩ := Job.of_bind_eq_ok.1 ran
  obtain ⟨_, -, ran⟩ := Job.of_bind_eq_ok.1 ran
  rw [Job.bind_runOn, Job.database_runOn] at ran
  obtain ⟨database, deleted, ran⟩ := Job.of_bind_eq_ok.1 ran
  obtain ⟨touched, left⟩ := Database.delete_eq_ok stores (mapError_eq_ok.1 deleted)
  cases ran
  refine ⟨database, rfl, touched, ?_⟩
  rw [left]
  exact List.filter_congr fun row _ => by rw [all_linking made]

/-- What is given for columns has columns to go to. -/
theorem assigned_eq_ok {values : List (String × Value)} {assigned : List (Column × Value)}
    (made : rows.assigned values = .ok assigned) :
    List.Forall₂ (fun entry result => rows.link.table.column? entry.1 = some result.1 ∧ result.2 = entry.2)
      values assigned := by
  refine (mapM_eq_ok.1 made).imp fun entry result found => ?_
  dsimp only at found
  split at found
  · next column known =>
    cases found
    exact ⟨known, rfl⟩
  · cases found

theorem names_of_assigned {values : List (String × Value)} {assigned : List (Column × Value)}
    (made : rows.assigned values = .ok assigned) : assigned.map (·.1.name) = values.map (·.1) := by
  have pointwise := assigned_eq_ok made
  clear made
  induction pointwise with
  | nil => rfl
  | cons here _ ih => rw [List.map_cons, List.map_cons, ih, (Table.mem_of_column? here.1).2]

end JoinRows

namespace PivotLink

/-- The cells of values for columns of the join table. -/
def cells (link : PivotLink) (pivot : Members) : Except Failure (List (String × Cell)) := do
  let assigned ← JoinRows.assigned ⟨link, []⟩ (pivot.map fun entry => (entry.1, .plain entry.2))
  Value.cells assigned

/-- A row of the join table after it took values for some of its columns. -/
def assign (link : PivotLink) (pivot : Members) (row : Row) : Row :=
  match link.cells pivot with
  | .ok cells => link.table.fullRow (row.update cells)
  | .error _ => row

end PivotLink

namespace JoinRows

variable {rows : JoinRows} {work after : Work} {related : Value} {extra : Members}

/-- Changing rows makes those that belong to the record and lead to the other take the values. -/
theorem change_eq_ok (stores : work.database.Stores rows.link.table)
    (ran : (rows.change related extra).runOn work = (.ok (), after)) :
    (∃ cells, rows.link.cells extra = .ok cells) ∧
      ∃ database, after = { work with database := database } ∧ work.database.Touches database rows.link.table.name ∧
        (database.rows rows.link.table.name).Perm ((work.database.rows rows.link.table.name).map fun row =>
          if rows.owns row && rows.leads [related] row then rows.link.assign extra row else row) := by
  unfold change at ran
  obtain ⟨conditions, made, ran⟩ := Job.of_bind_eq_ok.1 ran
  obtain ⟨assigned, given, ran⟩ := Job.of_bind_eq_ok.1 ran
  obtain ⟨cells, formed, ran⟩ := Job.of_bind_eq_ok.1 ran
  obtain ⟨_, -, ran⟩ := Job.of_bind_eq_ok.1 ran
  rw [Job.bind_runOn, Job.database_runOn] at ran
  obtain ⟨database, updated, ran⟩ := Job.of_bind_eq_ok.1 ran
  obtain ⟨touched, perm⟩ := Database.update_eq_ok stores (mapError_eq_ok.1 updated)
  cases ran
  have known : rows.link.cells extra = .ok cells := bind_eq_ok.2 ⟨assigned, given, formed⟩
  refine ⟨⟨cells, known⟩, database, rfl, touched, perm.trans (List.Perm.of_eq ?_)⟩
  apply List.map_congr_left
  intro row _
  rw [StoredTable.rewritten, all_linking made, PivotLink.assign, known]

theorem change_calls (stores : work.database.Stores rows.link.table)
    (ran : (rows.change related extra).runOn work = (.ok (), after)) : after.calls = work.calls := by
  obtain ⟨-, _, rfl, -⟩ := change_eq_ok stores ran
  rfl

/-- What a new row is given: the values of the record, the key of the other, and values for further columns. -/
def given (rows : JoinRows) (related : Value) (extra : Members) : List (String × Value) :=
  rows.owner ++ (rows.link.relatedKey, related) :: extra.map fun entry => (entry.1, .plain entry.2)

/-- Adding a row puts one among those of the table that has the cells of what it is given. -/
theorem add_eq_ok (stores : work.database.Stores rows.link.table)
    (nodup : rows.link.table.columnNames.Nodup) (ran : (rows.add related extra).runOn work = (.ok (), after)) :
    ∃ row database, after = { work with database := database } ∧
      work.database.Touches database rows.link.table.name ∧
      (database.rows rows.link.table.name).Perm (row :: work.database.rows rows.link.table.name) ∧
      rows.link.table.fullRow row = row ∧
      ∀ entry ∈ rows.given related extra, ∃ column cell, rows.link.table.column? entry.1 = some column ∧
        entry.2.cellFor column = .ok cell ∧
        (cell.stored column.type.affinity ≠ .null ∨ rows.link.table.isPlaceColumn column = false →
          row.cell entry.1 = cell.stored column.type.affinity) := by
  unfold add at ran
  dsimp only at ran
  split at ran
  · cases ran
  next once =>
  obtain ⟨assigned, made, ran⟩ := Job.of_bind_eq_ok.1 ran
  obtain ⟨cells, formed, ran⟩ := Job.of_bind_eq_ok.1 ran
  rw [Job.bind_runOn, Job.database_runOn] at ran
  obtain ⟨⟨database, row⟩, inserted, ran⟩ := Job.of_bind_eq_ok.1 ran
  obtain ⟨touched, perm, rfl, -⟩ := Database.insert_eq_ok stores (mapError_eq_ok.1 inserted)
  cases ran
  refine ⟨_, database, rfl, touched, perm, StoredTable.full_added nodup, ?_⟩
  have pointwise := assigned_eq_ok made
  have names := names_of_assigned made
  have single : ((rows.given related extra).map (·.1)).Nodup := by
    rw [List.nodup_iff_count_le_one]
    intro name
    by_contra more
    have several : 1 < ((rows.given related extra).map (·.1)).count name := Nat.lt_of_not_le more
    exact once (List.any_eq_true.2 ⟨name, List.count_pos_iff.1 (Nat.zero_lt_of_lt several), decide_eq_true several⟩)
  have distinct : ((assigned ++ rows.link.table.columns.filterMap fun column =>
      if ((rows.given related extra).map (·.1)).contains column.name || column.default.isNull then none
      else some (column, Value.plain column.default)).map (·.1.name)).Nodup := by
    rw [List.map_append, List.nodup_append, names]
    refine ⟨single, ?_, ?_⟩
    · refine nodup.sublist ?_
      unfold Table.columnNames
      induction rows.link.table.columns with
      | nil => exact .slnil
      | cons column rest ih =>
        rw [List.filterMap_cons]
        split
        · exact ih.cons _
        · next found =>
          split at found
          · cases found
          · cases found
            exact ih.cons_cons _
    · rintro name named _ other rfl
      obtain ⟨entry, listed, same⟩ := List.mem_map.1 other
      obtain ⟨column, -, found⟩ := List.mem_filterMap.1 listed
      split at found
      · cases found
      · next free =>
        cases found
        simp only [Bool.or_eq_true, not_or, List.contains_iff_mem] at free
        exact free.1 (same ▸ named)
  intro entry listed
  obtain ⟨⟨column, value⟩, present, known, rfl⟩ := forall₂_mem_left pointwise listed
  obtain ⟨cell, is, found⟩ := Value.lookup_cells formed distinct (List.mem_append_left _ present)
  obtain ⟨there, same⟩ := Table.mem_of_column? known
  refine ⟨column, cell, known, is, fun given => ?_⟩
  have held := StoredTable.cell_added nodup there (by
    rw [found]
    exact given) (work.database.rows rows.link.table.name)
  rw [found] at held
  rw [← same]
  exact held

theorem add_calls (stores : work.database.Stores rows.link.table) (nodup : rows.link.table.columnNames.Nodup)
    (ran : (rows.add related extra).runOn work = (.ok (), after)) : after.calls = work.calls := by
  obtain ⟨_, _, rfl, -⟩ := add_eq_ok stores nodup ran
  rfl

private theorem mem_distinct {keys kept : List Value} {key : Value}
    (listed : key ∈ keys.foldl (fun kept key => if kept.any key.same then kept else kept ++ [key]) kept) :
    key ∈ kept ∨ key ∈ keys := by
  induction keys generalizing kept with
  | nil => exact .inl listed
  | cons first rest ih =>
    rw [List.foldl_cons] at listed
    split at listed
    · rcases ih listed with before | later
      · exact .inl before
      · exact .inr (List.mem_cons_of_mem _ later)
    · rcases ih listed with before | later
      · rcases List.mem_append.1 before with old | new
        · exact .inl old
        · exact .inr (by simp [List.mem_singleton.1 new])
      · exact .inr (List.mem_cons_of_mem _ later)

private theorem any_distinct {keys kept : List Value} {key : Value} (self : key.same key = true)
    (listed : kept.any key.same = true ∨ key ∈ keys) :
    (keys.foldl (fun kept key => if kept.any key.same then kept else kept ++ [key]) kept).any key.same = true := by
  induction keys generalizing kept with
  | nil => exact listed.resolve_right (by simp)
  | cons first rest ih =>
    rw [List.foldl_cons]
    apply ih
    rcases listed with before | listed
    · left
      split
      · exact before
      · rw [List.any_append, before, Bool.true_or]
    · rcases List.mem_cons.1 listed with rfl | later
      · left
        split
        · assumption
        · simp [self]
      · exact .inr later

private theorem pairwise_distinct {keys kept : List Value} (once : kept.Pairwise fun a b => b.same a = false) :
    (keys.foldl (fun kept key => if kept.any key.same then kept else kept ++ [key]) kept).Pairwise
      fun a b => b.same a = false := by
  induction keys generalizing kept with
  | nil => exact once
  | cons first rest ih =>
    rw [List.foldl_cons]
    apply ih
    split
    · exact once
    · next new =>
      refine List.pairwise_append.2 ⟨once, List.pairwise_singleton _ _, fun key listed other single => ?_⟩
      rw [List.mem_singleton.1 single, ← Bool.not_eq_true]
      exact fun same => new (List.any_eq_true.2 ⟨key, listed, same⟩)

/-- The keys that a record is linked to: each is read of a row that belongs to it, no such row is left out, and none comes
twice. -/
theorem relatedKeys_eq_ok {keys : List Value} (ran : rows.relatedKeys.runOn work = (.ok keys, after)) :
    after = work ∧
      (∀ key ∈ keys, ∃ row ∈ work.database.rows rows.link.table.name, rows.owns row = true ∧
        Value.ofCell (rows.column rows.link.relatedKey).type (row.cell rows.link.relatedKey) = .ok key) ∧
      (∀ row ∈ work.database.rows rows.link.table.name, rows.owns row = true →
        ∃ key, Value.ofCell (rows.column rows.link.relatedKey).type (row.cell rows.link.relatedKey) = .ok key ∧
          (key.same key = true → keys.any key.same = true)) ∧
      keys.Pairwise fun a b => b.same a = false := by
  unfold relatedKeys at ran
  obtain ⟨conditions, made, ran⟩ := Job.of_bind_eq_ok.1 ran
  obtain ⟨_, -, ran⟩ := Job.of_bind_eq_ok.1 ran
  rw [Job.bind_runOn, Job.database_runOn] at ran
  dsimp only at ran
  obtain ⟨read, _, valued, ran⟩ := Job.bind_eq_ok.1 ran
  rw [Job.mapM_runOn fun _ => Job.of_runOn _ _] at valued
  obtain ⟨known, rfl⟩ := Prod.mk.inj valued
  cases ran
  have pointwise := mapM_eq_ok.1 known
  refine ⟨rfl, fun key listed => ?_, fun row listed mine => ?_, pairwise_distinct .nil⟩
  · obtain ⟨row, found, is⟩ := forall₂_mem_right pointwise ((mem_distinct listed).resolve_left (by simp))
    obtain ⟨listed, mine⟩ := List.mem_filter.1 found
    exact ⟨row, listed, all_owned made _ row ▸ mine, is⟩
  · obtain ⟨key, found, is⟩ := forall₂_mem_left pointwise
      (List.mem_filter.2 ⟨listed, (all_owned made _ row).trans mine⟩)
    exact ⟨key, is, fun self => any_distinct self (.inr found)⟩

end JoinRows

/-! ## Rows that lead from a record -/

namespace PivotLink

/-- Whether a row of the join table belongs to a record. -/
def belongs (link : PivotLink) (owner target : Resource) (parent row : Row) : Bool :=
  (Link.pivot link).ties owner target parent [[], row] && (Link.pivot link).isOfType owner target [[], row]

/-- Whether a row of the join table leads to a record. -/
def reaches (link : PivotLink) (target : Resource) (record row : Row) : Bool :=
  link.table.agrees row link.relatedKey target.table record link.targetKey

/-- Whether the columns of a join table are of the types of the keys that they refer to, and those that say which record
a row belongs to are different ones. -/
structure Typed (link : PivotLink) (owner target : Resource) : Prop where
  foreign : (link.table.ref 0 0 link.foreignKey).type = (owner.table.ref 0 0 link.localKey).type
  related : (link.table.ref 0 0 link.relatedKey).type = (target.table.ref 0 0 link.targetKey).type
  apart : ∀ entry, link.morph = some entry → entry.1 ≠ link.foreignKey

end PivotLink

namespace JoinRows

variable {owner target : Resource} {link : PivotLink} {record : Record} {parent row : Row} {database : Database}

/-- Rows of a join table belong to a record if the link ties them to it. -/
theorem owns_ofRecord (shows : record.Shows parent) (keeps : database.Keeps record.table)
    (inside : parent ∈ database.rows record.table.name) (same : record.table = owner.table)
    (nodup : link.table.columnNames.Nodup) (full : link.table.fullRow row = row) (typed : link.Typed owner target)
    (known : parent.cell link.localKey ≠ .null) :
    (ofRecord owner target link record).owns row = link.belongs owner target parent row := by
  have matched : link.table.holds row link.foreignKey (record.value link.localKey).compared =
      link.table.agrees row link.foreignKey owner.table parent link.localKey := by
    rw [Table.holds_compare (shows.compared_ne_null keeps inside known), ← same]
    exact shows.holds_compare keeps inside nodup full (by rw [same, typed.foreign])
  unfold owns ofRecord PivotLink.belongs
  cases morph : link.morph with
  | none => simp [Link.ties, Link.isOfType, morph, matched]
  | some entry =>
    obtain ⟨column, side⟩ := entry
    have other : (link.foreignKey == column) = false := by simpa using (typed.apart _ morph).symm
    simp only [Record.put, other, Bool.false_eq_true, if_false, List.all_cons, List.all_nil, Bool.and_true, matched]
    simp only [Link.ties, Link.isOfType, morph, Option.all_some, List.getD_cons_succ, List.getD_cons_zero]
    rfl

/-- A row leads to a related record if the link matches them. -/
theorem leads_ofRecord (shows : record.Shows row) (keeps : database.Keeps record.table)
    (inside : row ∈ database.rows record.table.name) (same : record.table = target.table)
    {between : Row} (nodup : link.table.columnNames.Nodup) (full : link.table.fullRow between = between)
    (typed : link.Typed owner target) (other : Record) :
    (ofRecord owner target link other).leads [record.value link.targetKey] between = link.reaches target row between := by
  have table : (ofRecord owner target link other).link = link := link_ofRecord
  rw [leads_singleton, column, table, PivotLink.reaches, ← same]
  exact shows.holds_compare keeps inside nodup full (by rw [same, typed.related])

/-- A row leads to one of several others if its key stands where the key of one stands. -/
theorem leads_iff {rows : JoinRows} {type : ColumnType} {keys : List Value}
    (all : ∀ key ∈ keys, ∃ cell, key.IsKey type cell) (same : (rows.column rows.link.relatedKey).type = type)
    (kept : Cell.IsStored type.affinity (row.cell rows.link.relatedKey)) :
    rows.leads keys row = true ↔ row.cell rows.link.relatedKey ≠ .null ∧
      ∃ key ∈ keys, ∃ cell, key.IsKey type cell ∧ Cell.order (row.cell rows.link.relatedKey) cell = .eq := by
  obtain ⟨cells, each⟩ := exists_forall₂ all
  have candidates : Comparison.candidates type (.list (keys.map Value.compared)) = cells := by
    simp only [Comparison.candidates, List.map_map]
    cases each with
    | nil => rfl
    | @cons first cell rest others here later =>
      simp only [List.map_cons, List.headD_cons, Function.comp_apply, here.cell_among here]
      congr 1
      clear all
      induction later with
      | nil => rfl
      | cons key _ ih => rw [List.map_cons, ih, Function.comp_apply, key.cell_among here]
  have compared {key : Value} {cell : Cell} (is : key.IsKey type cell) :
      Truth.holds (Query.compare .equal type.affinity (row.cell rows.link.relatedKey) cell) = true ↔
        row.cell rows.link.relatedKey ≠ .null ∧ Cell.order (row.cell rows.link.relatedKey) cell = .eq := by
    rw [Query.holds_compare, Cell.orderFor_of_isStored kept is.stored]
    simp [is.ne_null]
  rw [leads, same, Comparison.outcome, Query.among, Truth.holds_any, candidates, List.any_map, List.any_eq_true]
  constructor
  · rintro ⟨cell, listed, met⟩
    obtain ⟨key, present, is⟩ := forall₂_mem_right each listed
    obtain ⟨known, met⟩ := (compared is).1 met
    exact ⟨known, key, present, cell, is, met⟩
  · rintro ⟨known, key, present, cell, is, met⟩
    obtain ⟨own, listed, also⟩ := forall₂_mem_left each present
    have one : cell = own := Except.ok.inj ((is.returns ⟨"", type, false, true, .null⟩ rfl _ is.read).symm.trans
      (also.returns ⟨"", type, false, true, .null⟩ rfl _ also.read))
    subst one
    exact ⟨_, listed, (compared is).2 ⟨known, met⟩⟩

end JoinRows

end ResourceApi
