import ResourceApi.Proofs.Search.Unfiltered
import ResourceApi.Proofs.Session.Lifecycle

/-!
The rows of a resource after any calls. Every call moves each key as the machine says, and what the storage holds stays as
the storage keeps it, so that this goes on from call to call; searches in between see the live rows.
-/

namespace ResourceApi

open Outcome

/-! ## Rows that stay as they are kept -/

/-- A row of a table as the storage keeps it, and that can be read. -/
structure Table.IsSound (table : Table) (row : Row) : Prop where
  full : table.fullRow row = row
  returns : ∀ column ∈ table.columns, column.Returns (row.cell column.name)
  fits : StoredTable.Fits table row
  readable : ∃ values, table.read row = .ok values

/-- A cell that a column keeps as it is, and that can be read there. -/
structure Column.Retains (column : Column) (cell : Cell) : Prop where
  stored : Cell.IsStored column.type.affinity cell
  returns : column.Returns cell
  read : ∃ shown, Value.ofCell column.type cell = .ok shown

theorem Column.retains_null (column : Column) : column.Retains .null where
  stored := by cases column.type <;> trivial
  returns := .null column
  read := ⟨_, Value.ofCell_null _⟩

theorem Column.Remembers.retains {column : Column} {value : Value} (remembers : column.Remembers value) :
    column.Retains (column.made value) where
  stored := Cell.stored_isStored _ _
  returns := remembers.returns
  read := remembers.read

namespace Table

variable {table : Table} {row : Row} {column : Column}

theorem readable_iff : (∃ values, table.read row = .ok values) ↔
    ∀ column ∈ table.columns, ∃ value, Value.ofCell column.type (row.cell column.name) = .ok value := by
  constructor
  · rintro ⟨values, read⟩ column listed
    obtain ⟨entry, -, made⟩ := mapM_image read listed
    obtain ⟨value, is, -⟩ := bind_eq_ok.1 made
    exact ⟨value, is⟩
  · intro each
    refine exists_mapM fun column listed => ?_
    obtain ⟨value, is⟩ := each column listed
    rw [is]
    exact ⟨_, rfl⟩

theorem IsSound.mark (nodup : table.columnNames.Nodup) (listed : column ∈ table.columns) (free : column.IsFree)
    (sound : table.IsSound row) {cell : Cell} (retains : column.Retains cell) : table.IsSound (row.mark column.name cell) := by
  refine ⟨full_mark nodup sound.full listed retains.stored, fun other there => ?_, sound.fits.mark nodup listed free cell,
    readable_iff.2 fun other there => ?_⟩
  · by_cases named : other.name = column.name
    · obtain rfl : other = column := List.inj_on_of_nodup_map nodup there listed named
      rw [cell_mark nodup sound.full listed]
      exact retains.returns
    · rw [Row.cell_mark_other named]
      exact sound.returns other there
  · by_cases named : other.name = column.name
    · obtain rfl : other = column := List.inj_on_of_nodup_map nodup there listed named
      rw [cell_mark nodup sound.full listed]
      exact retains.read
    · rw [Row.cell_mark_other named]
      exact readable_iff.1 sound.readable other there

/-- The cells of a row that can be read can be shown. -/
theorem IsSound.exists_shown (sound : table.IsSound row) {name : String} (there : table.hasColumn name) :
    ∃ value, (row.cell name).shown (table.ref 0 0 name).type = .ok value := by
  obtain ⟨column, found⟩ := Option.isSome_iff_exists.1 there
  obtain ⟨listed, rfl⟩ := mem_of_column? found
  obtain ⟨value, read⟩ := readable_iff.1 sound.readable column listed
  obtain ⟨shown, is, -⟩ := bind_eq_ok.1 read
  rw [type_ref found]
  exact ⟨shown, is⟩

end Table

/-- Sound rows in their places, with keys of their own, are kept. -/
theorem Resource.kept_of_sound {resource : Resource} {database : Database} {rows : List Row}
    (held : database.rows resource.table.name = rows) (stores : database.Stores resource.table)
    (nodup : resource.table.columnNames.Nodup) (keyed : resource.table.keyColumns ≠ [])
    (sound : ∀ row ∈ rows, resource.table.IsSound row)
    (distinct : rows.Pairwise fun a b => ¬StoredTable.sameKey resource.table a b)
    (placed : StoredTable.Placed resource.table rows)
    (unique : rows.Pairwise fun a b => Cell.order (a.cell resource.key) (b.cell resource.key) ≠ .eq)
    (names : (database.tables.map (·.table.name)).Nodup) : resource.Kept database := by
  subst held
  exact ⟨⟨⟨stores, nodup, fun row inside => (sound row inside).full, fun row inside => (sound row inside).returns, distinct⟩,
    keyed, fun row inside => (sound row inside).fits, placed⟩, fun row inside => (sound row inside).readable, unique, names⟩

theorem Resource.Kept.sound {resource : Resource} {database : Database} (kept : resource.Kept database) :
    ∀ row ∈ database.rows resource.table.name, resource.table.IsSound row := fun row inside =>
  ⟨kept.stands.keeps.full row inside, kept.stands.keeps.returns row inside, kept.stands.fits row inside,
    kept.readable row inside⟩

namespace Call

variable {resource : Resource} {key column : Column} {call : Call} {row new : Row} {rows : List Row}

/-! ### What becomes of a row -/

/-- What becomes of a row is the row itself, or the row with another mark. -/
theorem fate_cases (becomes : call.fate resource column row = some new) :
    new = row ∨ ∃ cell, (cell = .null ∨ cell = column.made call.context.now) ∧ new = row.mark column.name cell := by
  unfold fate at becomes
  split at becomes
  · split at becomes
    · split at becomes
      · exact .inr ⟨_, .inr rfl, (Option.some.inj becomes).symm⟩
      · exact .inl (Option.some.inj becomes).symm
    · exact .inr ⟨_, .inl rfl, (Option.some.inj becomes).symm⟩
    · cases becomes
  · exact .inl (Option.some.inj becomes).symm

/-- In all columns but the one of the mark a row stays as it was. -/
theorem fate_agrees (becomes : call.fate resource column row = some new) :
    new.map Prod.fst = row.map Prod.fst ∧ ∀ name ≠ column.name, new.cell name = row.cell name := by
  rcases fate_cases becomes with rfl | ⟨cell, -, rfl⟩
  · exact ⟨rfl, fun _ _ => rfl⟩
  · exact ⟨Row.columns_mark _ _ _, fun name other => Row.cell_mark_other other cell row⟩

section Suits

variable (marks : resource.Marks key column) (suits : call.Suits resource key column)
include marks suits

theorem isSound_fate (nodup : resource.table.columnNames.Nodup) (sound : resource.table.IsSound row)
    (becomes : call.fate resource column row = some new) : resource.table.IsSound new := by
  rcases fate_cases becomes with rfl | ⟨cell, held, rfl⟩
  · exact sound
  · refine sound.mark nodup marks.listed marks.free ?_
    rcases held with rfl | rfl
    · exact column.retains_null
    · exact suits.remembers.retains

/-- After a call the rows are again as the storage keeps them. -/
theorem kept_fates {database : Database} (kept : resource.Kept database) :
    resource.Kept (database.set ⟨resource.table,
      (database.rows resource.table.name).filterMap (call.fate resource column)⟩) := by
  have stores := kept.stands.keeps.stores
  have nodup := kept.stands.keeps.nodup
  have apart := marks.apart nodup
  have sound : ∀ row ∈ (database.rows resource.table.name).filterMap (call.fate resource column),
      resource.table.IsSound row := by
    intro new inside
    obtain ⟨row, there, becomes⟩ := List.mem_filterMap.1 inside
    exact isSound_fate marks suits nodup (kept.sound row there) becomes
  have keyed {row new : Row} (becomes : call.fate resource column row = some new) {other : Column}
      (listed : other ∈ resource.table.keyColumns) : new.cell other.name = row.cell other.name :=
    (fate_agrees becomes).2 _ (marks.free.ne nodup marks.listed (Table.mem_of_mem_keyColumns listed)
      (by simp [List.of_mem_filter listed]))
  have placed : StoredTable.Placed resource.table
      ((database.rows resource.table.name).filterMap (call.fate resource column)) := by
    intro place found
    have listed := StoredTable.isKey_of_placeColumn? found
    refine (kept.stands.placed place found).filterMap _ fun a b before c madeC d madeD => ?_
    rwa [keyed madeC listed, keyed madeD listed]
  have distinct : ((database.rows resource.table.name).filterMap (call.fate resource column)).Pairwise fun a b =>
      ¬StoredTable.sameKey resource.table a b := by
    refine kept.stands.keeps.distinct.filterMap _ fun a b unlike c madeC d madeD same => unlike ?_
    rw [StoredTable.sameKey, Bool.and_eq_true, List.all_eq_true] at same ⊢
    exact ⟨same.1, fun other listed => keyed madeC listed ▸ keyed madeD listed ▸ same.2 other listed⟩
  have unique : ((database.rows resource.table.name).filterMap (call.fate resource column)).Pairwise fun a b =>
      Cell.order (a.cell resource.key) (b.cell resource.key) ≠ .eq := by
    refine kept.unique.filterMap _ fun a b unlike c madeC d madeD => ?_
    rwa [(fate_agrees madeC).2 _ apart, (fate_agrees madeD).2 _ apart]
  have names : ((database.set ⟨resource.table, (database.rows resource.table.name).filterMap
      (call.fate resource column)⟩).tables.map (·.table.name)).Nodup := by
    rw [Database.names_set]
    exact kept.distinct
  exact Resource.kept_of_sound (Database.rows_set stores _) (Database.Stores.set stores _) nodup kept.stands.keyed sound distinct
    placed unique names

/-- A call moves the key of the row that it is for as the machine says. -/
theorem standingOf_fate (nodup : resource.table.columnNames.Nodup) (sound : resource.table.IsSound row)
    (here : resource.isAt call.key.cell row = true) :
    resource.standingOf (call.fate resource column row) = call.kind.moves (resource.standingOf (some row)) := by
  have marked (cell : Cell) := marks.isLive_mark nodup sound.full cell
  rw [fate, if_pos here]
  cases call.kind with
  | destroy =>
    cases live : resource.isLive row with
    | false => simp [Resource.standingOf, live, Deletion.moves, Deletion.next]
    | true => simp [Resource.standingOf, live, marked, suits.remembers.known, Deletion.moves, Deletion.next]
  | restore => cases live : resource.isLive row <;> simp [Resource.standingOf, live, marked, Deletion.moves, Deletion.next]
  | forceDelete => cases live : resource.isLive row <;> simp [Resource.standingOf, live, Deletion.moves, Deletion.next]

omit suits in
/-- Among what a call makes of the rows, a key finds what became of the row that it found before, if that is left. -/
theorem find?_fates (nodup : resource.table.columnNames.Nodup) (cell : Cell) :
    (rows.filterMap (call.fate resource column)).find? (resource.isAt cell) =
      (rows.find? fun row => resource.isAt cell row && (call.fate resource column row).isSome).bind
        (call.fate resource column) := by
  have looked : (fun row => (call.fate resource column row).any (resource.isAt cell)) =
      fun row => resource.isAt cell row && (call.fate resource column row).isSome := by
    funext row
    cases becomes : call.fate resource column row with
    | none => simp
    | some new => simp [Resource.isAt, (fate_agrees becomes).2 _ (marks.apart nodup)]
  rw [List.find?_filterMap, looked]

/-- A call moves its own key by what is asked. -/
theorem standing_fates_own (nodup : resource.table.columnNames.Nodup)
    (sound : ∀ row ∈ rows, resource.table.IsSound row) :
    resource.standing (rows.filterMap (call.fate resource column)) call.key.cell =
      call.kind.moves (resource.standing rows call.key.cell) := by
  rw [Resource.standing, Resource.standing, find?_fates marks nodup]
  by_cases removes : call.kind = .forceDelete
  · have gone : (fun row => resource.isAt call.key.cell row && (call.fate resource column row).isSome) = fun _ => false := by
      funext row
      cases here : resource.isAt call.key.cell row <;> simp [fate, here, removes]
    rw [gone, List.find?_eq_none.2 fun _ _ => Bool.false_ne_true, removes]
    cases resource.standingOf (rows.find? (resource.isAt call.key.cell)) <;> rfl
  · have stays : (fun row => resource.isAt call.key.cell row && (call.fate resource column row).isSome) =
        resource.isAt call.key.cell := by
      funext row
      cases here : resource.isAt call.key.cell row with
      | false => rfl
      | true =>
        rw [fate, if_pos here]
        cases kind : call.kind with
        | forceDelete => exact absurd kind removes
        | _ => rfl
    rw [stays]
    cases found : rows.find? (resource.isAt call.key.cell) with
    | none => cases call.kind <;> rfl
    | some row =>
      exact standingOf_fate marks suits nodup (sound row (List.mem_of_find?_eq_some found)) (List.find?_some found)

omit suits in
/-- A call leaves every other key as it stands. -/
theorem standing_fates_other (nodup : resource.table.columnNames.Nodup) {cell : Cell}
    (other : Cell.order call.key.cell cell ≠ .eq) :
    resource.standing (rows.filterMap (call.fate resource column)) cell = resource.standing rows cell := by
  have apart (row : Row) (there : resource.isAt cell row = true) : call.fate resource column row = some row := by
    refine if_neg fun here => other ?_
    rw [Resource.isAt, beq_iff_eq, Cell.order_eq_iff] at there here
    exact Cell.order_eq_iff.2 (here.symm.trans there)
  have stays : (fun row => resource.isAt cell row && (call.fate resource column row).isSome) = resource.isAt cell := by
    funext row
    cases there : resource.isAt cell row with
    | false => rfl
    | true =>
      rw [apart row there]
      rfl
  rw [Resource.standing, Resource.standing, find?_fates marks nodup, stays]
  cases found : rows.find? (resource.isAt cell) with
  | none => rfl
  | some row => rw [Option.bind_some, apart row (List.find?_some found)]

/-- A call moves each key as the machine says: its own key by what is asked, and no other key. -/
theorem standing_fates (nodup : resource.table.columnNames.Nodup) (sound : ∀ row ∈ rows, resource.table.IsSound row)
    (cell : Cell) : resource.standing (rows.filterMap (call.fate resource column)) cell =
      call.moves cell (resource.standing rows cell) := by
  rw [moves]
  by_cases own : Cell.order call.key.cell cell = .eq
  · have same : resource.isAt cell = resource.isAt call.key.cell := by
      funext row
      rw [Bool.eq_iff_iff, Resource.isAt, Resource.isAt, beq_iff_eq, beq_iff_eq, Cell.order_eq_iff, Cell.order_eq_iff,
        Cell.order_eq_iff.1 own]
    have moved := standing_fates_own marks suits nodup sound
    rw [Resource.standing, Resource.standing] at moved
    rw [if_pos own, Resource.standing, Resource.standing, same, moved]
  · rw [if_neg own, standing_fates_other marks nodup own]

end Suits

/-! ### After any calls -/

/-- What some calls, one after the other, make of a row. -/
def fates (resource : Resource) (column : Column) (calls : List Call) (row : Row) : Option Row :=
  calls.foldlM (fun row call => call.fate resource column row) row

variable {calls : List Call}

theorem fates_agrees (becomes : fates resource column calls row = some new) :
    new.map Prod.fst = row.map Prod.fst ∧ ∀ name ≠ column.name, new.cell name = row.cell name := by
  induction calls generalizing row with
  | nil => exact Option.some.inj becomes ▸ ⟨rfl, fun _ _ => rfl⟩
  | cons call rest ih =>
    obtain ⟨middle, first, later⟩ := Option.bind_eq_some_iff.1 becomes
    obtain ⟨columns, cells⟩ := ih later
    obtain ⟨before, agree⟩ := fate_agrees first
    exact ⟨columns.trans before, fun name other => (cells name other).trans (agree name other)⟩

/-- A row that no call is for stays as it is. -/
theorem fates_of_apart (apart : ∀ call ∈ calls, resource.isAt call.key.cell row = false) :
    fates resource column calls row = some row := by
  induction calls with
  | nil => rfl
  | cons call rest ih =>
    obtain ⟨here, later⟩ := List.forall_mem_cons.1 apart
    have first : call.fate resource column row = some row := by
      rw [fate, here]
      rfl
    rw [fates, List.foldlM_cons, first]
    exact ih later

/-- A row that no call is for is left as it is, and no other row comes in its place. -/
theorem mem_fates_iff (apart : resource.key ≠ column.name)
    (untouched : ∀ call ∈ calls, resource.isAt call.key.cell row = false) :
    row ∈ rows.filterMap (fates resource column calls) ↔ row ∈ rows := by
  rw [List.mem_filterMap]
  constructor
  · rintro ⟨old, there, becomes⟩
    have untouchedToo : ∀ call ∈ calls, resource.isAt call.key.cell old = false := fun call listed => by
      have apartToo := untouched call listed
      rwa [Resource.isAt, (fates_agrees becomes).2 _ apart] at apartToo
    rw [fates_of_apart untouchedToo] at becomes
    exact Option.some.inj becomes ▸ there
  · exact fun there => ⟨row, there, fates_of_apart untouched⟩

section Run

variable (marks : resource.Marks key column) (suits : ∀ call ∈ calls, call.Suits resource key column)
include marks suits

/-- After any calls, each in a session of its own, nothing is in hand, the rows are those that the calls have made of the
ones before, as the storage keeps them, and every key stands as the machine says. -/
theorem runAll_eq {work : Work} (none : work.records = []) (kept : resource.Kept work.database) :
    (runAll resource.name calls work).records = [] ∧ resource.Kept (runAll resource.name calls work).database ∧
      (runAll resource.name calls work).database = work.database.set ⟨resource.table,
        (work.database.rows resource.table.name).filterMap (fates resource column calls)⟩ ∧
      ∀ cell, resource.standing ((runAll resource.name calls work).database.rows resource.table.name) cell =
        calls.foldl (Call.moves cell) (resource.standing (work.database.rows resource.table.name) cell) := by
  induction calls generalizing work with
  | nil =>
    have all : (work.database.rows resource.table.name).filterMap (fates resource column []) =
        work.database.rows resource.table.name := List.filterMap_some
    refine ⟨none, kept, ?_, fun _ => rfl⟩
    rw [all, Database.set_self kept.stands.keeps.stores kept.distinct]
    rfl
  | cons call rest ih =>
    obtain ⟨here, later⟩ := List.forall_mem_cons.1 suits
    obtain ⟨result, last, ran, released, -, stored⟩ := job_runOn marks here none kept
    have stores := kept.stands.keeps.stores
    have next : runAll resource.name (call :: rest) work = runAll resource.name rest last := by
      rw [runAll, List.foldl_cons, ran]
      rfl
    obtain ⟨ended, still, made, stand⟩ := ih later released (stored ▸ kept_fates marks here kept)
    have rows : last.database.rows resource.table.name =
        (work.database.rows resource.table.name).filterMap (call.fate resource column) := by
      rw [stored, Database.rows_set stores]
    rw [next]
    refine ⟨ended, still, ?_, fun cell => ?_⟩
    · rw [made, rows, stored, Database.set_set, List.filterMap_filterMap]
      rfl
    · rw [stand, rows, standing_fates marks here kept.stands.keeps.nodup kept.sound, List.foldl_cons]

end Run

/-- A live row that is destroyed and restored is what it was. -/
theorem fates_destroy_restore (marks : resource.Marks key column) (nodup : resource.table.columnNames.Nodup)
    (sound : resource.table.IsSound row) {destroy restore : Call} (destroys : destroy.kind = .destroy)
    (restores : restore.kind = .restore) (same : restore.key = destroy.key)
    (live : resource.isAt destroy.key.cell row = true → resource.isLive row = true) :
    fates resource column [destroy, restore] row = some row := by
  have two : fates resource column [destroy, restore] row =
      (destroy.fate resource column row).bind (restore.fate resource column) := by
    simp [fates]
  rw [two]
  by_cases here : resource.isAt destroy.key.cell row = true
  · have empty : row.cell column.name = .null := by simpa [Resource.isLive, marks.marks] using live here
    have marked : destroy.fate resource column row = some (row.mark column.name (column.made destroy.context.now)) := by
      rw [fate, if_pos here, destroys]
      simp [live here]
    have back : (row.mark column.name (column.made destroy.context.now)).mark column.name .null = row := by
      rw [Row.mark_mark, ← empty, Table.mark_self nodup sound.full marks.listed]
    have cleared : restore.fate resource column (row.mark column.name (column.made destroy.context.now)) = some row := by
      rw [fate, same, marks.isAt_mark nodup, if_pos here, restores]
      exact congrArg some back
    rw [marked, Option.bind_some, cleared]
  · have first : destroy.fate resource column row = some row := if_neg here
    have second : restore.fate resource column row = some row := if_neg (same ▸ here)
    rw [first, Option.bind_some, second]

/-- To destroy a live row and to restore it is to do nothing. -/
theorem runAll_destroy_restore (marks : resource.Marks key column) {work : Work} (none : work.records = [])
    (kept : resource.Kept work.database) {destroy restore : Call} (suits : destroy.Suits resource key column)
    (suitsToo : restore.Suits resource key column) (destroys : destroy.kind = .destroy) (restores : restore.kind = .restore)
    (same : restore.key = destroy.key)
    (live : resource.standing (work.database.rows resource.table.name) destroy.key.cell = .live) :
    (runAll resource.name [destroy, restore] work).database = work.database := by
  obtain ⟨-, -, made, -⟩ := runAll_eq marks
    (List.forall_mem_cons.2 ⟨suits, List.forall_mem_singleton.2 suitsToo⟩) none kept
  have back : (work.database.rows resource.table.name).filterMap (fates resource column [destroy, restore]) =
      work.database.rows resource.table.name := by
    refine (List.filterMap_congr fun row inside => ?_).trans List.filterMap_some
    refine fates_destroy_restore marks kept.stands.keeps.nodup (kept.sound row inside) destroys restores same fun here => ?_
    rcases Resource.standing_cases kept.unique destroy.key.cell with ⟨-, absent⟩ | ⟨only, -, alone, stands⟩
    · cases live.symm.trans absent
    · have own : row ∈ (work.database.rows resource.table.name).filter (resource.isAt destroy.key.cell) :=
        List.mem_filter.2 ⟨inside, here⟩
      rw [alone, List.mem_singleton] at own
      rw [own]
      by_contra trashed
      rw [if_neg trashed] at stands
      cases live.symm.trans stands
  rw [made, back, Database.set_self kept.stands.keeps.stores kept.distinct]

end Call

/-- The life of the records of a resource that are marked as deleted, over any calls that destroy them, restore them or
delete them for good, each in a session of its own, and so over every beginning of these calls. Every key stands as the
machine of keys says, and the next call is answered by it; one that fails changes nothing. A search without filters and
scopes that returns sees the live rows, and one that only asks for a page of them does return. The rows that are left have in
all columns but that of the mark what they had; rows with other keys, and other tables, are as they were. To destroy a live
row and to restore it is to do nothing. -/
theorem Resource.lifecycle {schema : Schema} {declarations : List ResourceDeclaration} {graph : Graph}
    (built : Graph.build schema declarations = .ok graph) {resource : Resource}
    (named : graph.get? resource.name = some resource) (exposed : resource.key ∈ resource.fields) {key column : Column}
    (marks : resource.Marks key column) {work : Work} (none : work.records = []) (kept : resource.Kept work.database)
    {calls : List Call} (suits : ∀ call ∈ calls, call.Suits resource key column) :
    let rows := work.database.rows resource.table.name
    let after := Call.runAll resource.name calls work
    let left := after.database.rows resource.table.name
    (∀ cell, resource.standing left cell = calls.foldl (Call.moves cell) (resource.standing rows cell)) ∧
    (∀ call : Call, call.Suits resource key column → ∃ result last, (call.job resource.name).runOn after = (result, last) ∧
      call.Answers resource (resource.standing left call.key.cell) after.database result last.database) ∧
    (∀ (spec : Specification) (result : SearchResult) (sorts : List SortKey) (size : Int), 0 < size →
      Search.Returned graph resource after.database spec result → spec.Asks resource [] sorts size →
      let live := Query.inOrder (Plan.fullOrder resource sorts) (left.filter resource.isLive)
      result.total = live.length ∧ ∀ fields, spec.Shows resource fields → List.Forall₂ (resource.table.Shows fields)
        ((live.drop ((max spec.page 1 - 1) * size).toNat).take size.toNat) result.rows) ∧
    (∀ (context : Context) (body : Json) (spec : Specification) (size : Int), context.graph = graph →
      context.allows .viewAny resource .none = true → Search.AsksForPage graph resource body spec size →
      let live := Query.inOrder (Plan.fullOrder resource spec.sorts) (left.filter resource.isLive)
      ∃ result last, (Operations.search context resource.name body).runOn after = (.ok result, last) ∧
        result.total = live.length ∧
        List.Forall₂ (resource.table.Shows (Plan.askedFields resource spec.selects))
          ((live.drop ((max spec.page 1 - 1) * size).toNat).take size.toNat) result.rows) ∧
    (∀ row ∈ left, ∃ old ∈ rows, row.map Prod.fst = old.map Prod.fst ∧
      ∀ name ≠ column.name, row.cell name = old.cell name) ∧
    (∀ row, (∀ call ∈ calls, resource.isAt call.key.cell row = false) → (row ∈ left ↔ row ∈ rows)) ∧
    after.database = work.database.set ⟨resource.table, left⟩ ∧
    (∀ destroy restore : Call, destroy.Suits resource key column → restore.Suits resource key column →
      destroy.kind = .destroy → restore.kind = .restore → restore.key = destroy.key →
      resource.standing left destroy.key.cell = .live →
      (Call.runAll resource.name [destroy, restore] after).database = after.database) := by
  intro rows after left
  obtain ⟨released, still, made, stand⟩ := Call.runAll_eq marks suits none kept
  have apart := marks.apart kept.stands.keeps.nodup
  have leftOf : left = rows.filterMap (Call.fates resource column calls) := by
    change after.database.rows _ = _
    rw [made, Database.rows_set kept.stands.keeps.stores]
  have soundGraph := Graph.sound_of_build built
  refine ⟨stand, fun call suits => ?_, fun spec result sorts size positive returned asks => ?_, ?_, fun row inside => ?_,
    fun row untouched => ?_, ?_, ?_⟩
  · obtain ⟨result, last, ran, -, answers, -⟩ := Call.job_runOn marks suits released still
    exact ⟨result, last, ran, answers⟩
  · exact Search.sees_live_of_returned soundGraph returned positive asks
  · rintro context body spec size rfl allowed asks
    refine asks.sees_live soundGraph named allowed exposed fun row inside name asked => ?_
    have there := Plan.hasColumn_of_asked (soundGraph.of_get? named)
      (Search.fits_of_validate asks.accepted).parts.selects name asked
    exact (still.sound row inside).exists_shown there
  · rw [leftOf] at inside
    obtain ⟨old, there, becomes⟩ := List.mem_filterMap.1 inside
    exact ⟨old, there, Call.fates_agrees becomes⟩
  · rw [leftOf]
    exact Call.mem_fates_iff apart untouched
  · rw [leftOf]
    exact made
  · exact fun destroy restore suits suitsToo destroys restores same live =>
      Call.runAll_destroy_restore marks released still suits suitsToo destroys restores same live

/-! ### Notes -/

namespace Notes

/-- The column of the mark; it may be empty or not. -/
def deletedAt (isFree : Bool) : Column := { name := "deleted_at", type := .datetime, isNullable := isFree }

def id : Column := { name := "id", type := .integer, isKey := true, isNullable := false }

def table (isFree : Bool) : Table := ⟨"notes", [id, { name := "title", type := .string }, deletedAt isFree]⟩

def schema (isFree : Bool) : Schema := { tables := [table isFree] }

def declaration (isFree : Bool) : ResourceDeclaration where
  name := "NoteResource"
  table := table isFree
  options := [("fields", .list [.text "id", .text "title"]), ("soft_deletes", .bool true)]
  scopes := []
  relations := []

def note (isFree : Bool) : Resource where
  name := "NoteResource"
  table := table isFree
  key := "id"
  fields := ["id", "title"]
  scopes := []
  limits := [.int 10, .int 25, .int 50]
  defaultLimit := .int 50
  defaultOrder := [("id", .desc)]
  relations := []
  fillable := ["title"]
  softDeletes := .bool true
  deletedAt := some "deleted_at"
  morphAlias := .text "notes"
  gates := true

def graph (isFree : Bool) : Graph := ⟨[note isFree]⟩

theorem graph_of_declaration (isFree : Bool) : Graph.build (schema isFree) [declaration isFree] = .ok (graph isFree) := by
  cases isFree <;> rfl

def row (id : Int) (title : String) (mark : Cell) : Row := [("id", .int id), ("title", .text title), ("deleted_at", mark)]

/-- A live note and one that is trashed. -/
def work (isFree : Bool) : Work :=
  { database := ⟨[⟨table isFree, [row 1 "a" .null, row 2 "b" (.text "2024-01-01 00:00:00.000000")]⟩]⟩ }

def call (isFree : Bool) (kind : Deletion) (key : Int) : Call := ⟨kind, { graph := graph isFree }, .int key⟩

theorem marks : (note true).Marks id (deletedAt true) := ⟨rfl, rfl, rfl, by simp [note, table], ⟨rfl, rfl⟩⟩

/-- A time of the clock is read as it was written. -/
theorem remembers (isFree : Bool) {text : String} (read : Moment.ofText? (Value.storedMoment text) = some text) :
    (deletedAt isFree).Remembers (.moment text true) := Column.remembers_moment rfl true read

theorem suits (kind : Deletion) {key : Int} (held : Word.holds key = true) :
    (call true kind key).Suits (note true) id (deletedAt true) :=
  ⟨rfl, held, fun _ _ => rfl, remembers true (by cbv)⟩

/-- What the first column holds is written as it is read. -/
theorem returns_id {n : Int} (held : Word.holds n = true) : id.Returns (.int n) := by
  intro value read
  cases read
  simp [Value.cellFor, id, ColumnType.bindType, Bound.formed, Cell.ofJson, held]

theorem retains_trashed : (deletedAt true).Retains (.text "2024-01-01 00:00:00.000000") := by
  have read : Moment.ofText? (Value.storedMoment "2024-01-01T00:00:00") = some "2024-01-01T00:00:00" := by cbv
  have stored : Value.storedMoment "2024-01-01T00:00:00" = "2024-01-01 00:00:00.000000" := by cbv
  have made := @Column.made_moment (deletedAt true) rfl _ true read
  rw [stored] at made
  exact made ▸ (remembers true read).retains

theorem sound_row {n : Int} (held : Word.holds n = true) (title : String) {mark : Cell}
    (retains : (deletedAt true).Retains mark) : (table true).IsSound (row n title mark) := by
  refine ⟨(Table.full_iff (by decide)).2 ⟨rfl, ?_⟩, ?_, ⟨fun place found => ?_, ?_⟩, Table.readable_iff.2 ?_⟩
  · exact List.forall_mem_cons.2 ⟨rfl, List.forall_mem_cons.2 ⟨rfl, List.forall_mem_singleton.2 retains.stored⟩⟩
  · exact List.forall_mem_cons.2 ⟨returns_id held,
      List.forall_mem_cons.2 ⟨.text rfl title, List.forall_mem_singleton.2 retains.returns⟩⟩
  · cases found
    exact ⟨n, rfl⟩
  · exact List.forall_mem_cons.2 ⟨fun _ => by simp [id, row, Row.cell],
      List.forall_mem_cons.2 ⟨(fun same => by cases same), List.forall_mem_singleton.2 fun same => by cases same⟩⟩
  · exact List.forall_mem_cons.2 ⟨⟨_, rfl⟩, List.forall_mem_cons.2 ⟨⟨_, rfl⟩, List.forall_mem_singleton.2 retains.read⟩⟩

theorem kept : (note true).Kept (work true).database := by
  refine Resource.kept_of_sound rfl ⟨_, rfl⟩ (by decide) (by decide) ?_ (by decide) ?_ (by decide) (by decide)
  · exact List.forall_mem_cons.2 ⟨sound_row rfl "a" (Column.retains_null _),
      List.forall_mem_singleton.2 (sound_row rfl "b" retains_trashed)⟩
  · intro place found
    cases found
    decide

/-- Destroys the first note and then deletes it for good, restores the second one, and asks for one that is not there. -/
def calls : List Call :=
  [call true .destroy 1, call true .restore 2, call true .restore 3, call true .forceDelete 1]

/-- A body that asks for nothing is a search for the first page of all notes. -/
theorem asks : Search.AsksForPage (graph true) (note true) (.object []) {} 50 :=
  ⟨rfl, ⟨rfl, rfl, rfl, rfl⟩, by decide, .inr ⟨rfl, rfl⟩, by decide, rfl, rfl⟩

/-- The first note is absent then, and the second one live; the third one is not found, and a search counts the live rows. -/
theorem lifecycle_of_calls :
    let after := Call.runAll "NoteResource" calls (work true)
    let left := after.database.rows "notes"
    (note true).standing left (.int 1) = .absent ∧ (note true).standing left (.int 2) = .live ∧
      (∃ last, ((call true .destroy 3).job "NoteResource").runOn after = (.error (.notFound "NoteResource" (.int 3)), last) ∧
        last.database = after.database) ∧
      ∃ result last, (Operations.search { graph := graph true } "NoteResource" (.object [])).runOn after = (.ok result, last) ∧
        result.total = (left.filter (note true).isLive).length := by
  intro after left
  have suited : ∀ call ∈ calls, call.Suits (note true) id (deletedAt true) := by
    simpa [calls] using ⟨suits .destroy rfl, suits .restore rfl, suits .restore rfl, suits .forceDelete rfl⟩
  obtain ⟨stands, next, -, searches, -⟩ :=
    Resource.lifecycle (graph_of_declaration true) rfl (by decide) marks rfl kept suited
  refine ⟨stands (.int 1), stands (.int 2), ?_, ?_⟩
  · obtain ⟨result, last, ran, answers⟩ := next _ (suits .destroy (rfl : Word.holds 3 = true))
    have absent : (note true).standing left (.int 3) = .absent := stands (.int 3)
    have failed : (call true .destroy 3).Answers (note true) .absent after.database result last.database := by
      rw [← absent]
      exact answers
    obtain ⟨rfl, still⟩ := failed
    exact ⟨last, ran, still⟩
  · obtain ⟨result, last, ran, total, -⟩ := searches { graph := graph true } _ _ _ rfl rfl asks
    exact ⟨result, last, ran, by rw [total, (Query.inOrder_perm _ _).length_eq]; rfl⟩

/-- A note that is trashed, where the mark cannot be empty. -/
def trashed : Work :=
  { database := ⟨[⟨table false, [row 2 "b" (.text "2024-01-01 00:00:00.000000")]⟩]⟩ }

/-- A trashed note is not restored where its mark cannot be empty, and a key that the storage cannot hold is not told to be
absent. -/
theorem refused_by_storage :
    Graph.build (schema false) [declaration false] = .ok (graph false) ∧
      (note false).standing (trashed.database.rows "notes") (.int 2) = .trashed ∧ Deletion.restore.next .trashed = some .live ∧
      (((call false .restore 2).job "NoteResource").runOn trashed).1 = .error (.storage (.notNull "notes" "deleted_at")) ∧
      Graph.build (schema true) [declaration true] = .ok (graph true) ∧
      (note true).standing ((work true).database.rows "notes") (.int 9223372036854775808) = .absent ∧
      Deletion.destroy.next .absent = none ∧
      (((call true .destroy 9223372036854775808).job "NoteResource").runOn (work true)).1 =
        .error (.fault .integerTooLarge) := by
  refine ⟨rfl, by decide, rfl, ?_, rfl, by decide, rfl, ?_⟩
  · cbv
  · rfl

end Notes

end ResourceApi
