import ResourceApi.Proofs.Session.Alone
import ResourceApi.Proofs.Session.Cleared

/-!
The life of a record that is only marked as deleted. To its key it is live, trashed or absent, and every call that destroys,
restores or deletes for good moves the key from one of these to another or finds nothing to do; the rows of all other keys
stay as they are.
-/

namespace ResourceApi

open Outcome

/-! ## The machine of a key -/

/-- How a key stands: its row is live, its row is marked as deleted, or there is no row of it. -/
inductive Standing where
  | live | trashed | absent
  deriving DecidableEq, Repr

/-- What can be asked for a record by its key. -/
inductive Deletion where
  | destroy | restore | forceDelete
  deriving DecidableEq, Repr

namespace Deletion

/-- How a key stands afterwards; none where there is no such record to the call. -/
def next : Deletion → Standing → Option Standing
  | destroy, .live => some .trashed
  | restore, .live | restore, .trashed => some .live
  | forceDelete, .live | forceDelete, .trashed => some .absent
  | destroy, .trashed | destroy, .absent | restore, .absent | forceDelete, .absent => none

/-- A call that finds no record leaves the key as it stands. -/
def moves (deletion : Deletion) (standing : Standing) : Standing := (deletion.next standing).getD standing

end Deletion

/-- How a key stands whose row is given. -/
def Resource.standingOf (resource : Resource) : Option Row → Standing
  | none => .absent
  | some row => if resource.isLive row then .live else .trashed

/-- How a key stands among some rows. -/
def Resource.standing (resource : Resource) (rows : List Row) (cell : Cell) : Standing :=
  resource.standingOf (rows.find? (resource.isAt cell))

/-! ## Calls -/

/-- A call for one record. -/
structure Call where
  kind : Deletion
  context : Context
  key : Json

namespace Call

/-- A call in a session of its own. -/
def job (name : String) (call : Call) : Job WriteResult := Job.alone <|
  match call.kind with
  | .destroy => Operations.destroy call.context name call.key
  | .restore => Operations.restore call.context name call.key
  | .forceDelete => Operations.forceDelete call.context name call.key

/-- The state after some calls. -/
def runAll (name : String) (calls : List Call) (work : Work) : Work :=
  calls.foldl (fun work call => ((call.job name).runOn work).2) work

/-- What a call by a key that stands in some way is answered, and that it leaves all as it was if it fails. -/
def Answers (resource : Resource) (call : Call) (standing : Standing) (before : Database)
    (result : Except Failure WriteResult) (after : Database) : Prop :=
  match call.kind.next standing with
  | some _ => ∃ written, result = .ok written
  | none => result = .error (.notFound resource.name call.key) ∧ after = before

/-- What a call does to how a key stands. -/
def moves (cell : Cell) (standing : Standing) (call : Call) : Standing :=
  if Cell.order call.key.cell cell = .eq then call.kind.moves standing else standing

end Call

/-! ## Resources whose records are marked -/

/-- The cell that a column makes of a value. -/
def Column.made (column : Column) (value : Value) : Cell :=
  ((value.cellFor column).toOption.getD .null).stored column.type.affinity

/-- Whether a column takes a value, and reads what it made of it. -/
structure Column.Remembers (column : Column) (value : Value) : Prop where
  taken : ∃ cell, value.cellFor column = .ok cell
  known : column.made value ≠ .null
  read : ∃ shown, Value.ofCell column.type (column.made value) = .ok shown
  returns : column.Returns (column.made value)

section Moments

variable {column : Column} (date : column.type = .datetime) {text : String} (zoned : Bool)
  (read : Moment.ofText? (Value.storedMoment text) = some text)
include date read

theorem Column.made_moment : column.made (.moment text zoned) = .text (Value.storedMoment text) := by
  rw [made, Value.cellFor_moment date text zoned, date]
  simp [Except.toOption, Cell.stored, ColumnType.affinity, Moment.ofNumberText?_eq_none read]

/-- A column of moments remembers each moment that is read as it was written. -/
theorem Column.remembers_moment : column.Remembers (.moment text zoned) := by
  have made := made_moment date zoned read
  have shown : Value.ofCell column.type (.text (Value.storedMoment text)) = .ok (.moment text false) := by
    rw [date, Value.ofCell, Cell.shown, read]
    rfl
  refine ⟨⟨_, Value.cellFor_moment date text zoned⟩, made ▸ by simp, made ▸ ⟨_, shown⟩, fun value again => ?_⟩
  rw [made] at again ⊢
  obtain rfl := Except.ok.inj (shown.symm.trans again)
  exact Value.cellFor_moment date text false

end Moments

/-- A resource with a key that is always there, whose records are marked as deleted in a column that may be empty. -/
structure Resource.Marks (resource : Resource) (key column : Column) : Prop where
  found : resource.table.column? resource.key = some key
  known : (!key.isNullable || key.isKey) = true
  marks : resource.deletedAt = some column.name
  listed : column ∈ resource.table.columns
  free : column.IsFree

/-- A call for a record of a resource that is allowed, by a key of the right type, at a time that the column of the mark can
hold. -/
structure Call.Suits (resource : Resource) (key column : Column) (call : Call) : Prop where
  named : call.context.graph.get? resource.name = some resource
  takes : key.type.Takes call.key
  allowed : ∀ action key, call.context.allows action resource key = true
  remembers : column.Remembers call.context.now

/-- Whether the rows of a resource are as the storage keeps them, can be read, and have keys of their own. -/
structure Resource.Kept (resource : Resource) (database : Database) : Prop where
  stands : database.Stands resource.table
  readable : ∀ row ∈ database.rows resource.table.name, ∃ values, resource.table.read row = .ok values
  unique : (database.rows resource.table.name).Pairwise fun a b =>
    Cell.order (a.cell resource.key) (b.cell resource.key) ≠ .eq
  distinct : (database.tables.map (·.table.name)).Nodup

/-- What a call makes of a row; nothing is left of a row that is deleted for good. -/
def Call.fate (resource : Resource) (column : Column) (call : Call) (row : Row) : Option Row :=
  if resource.isAt call.key.cell row then
    match call.kind with
    | .destroy => some (if resource.isLive row then row.mark column.name (column.made call.context.now) else row)
    | .restore => some (row.mark column.name .null)
    | .forceDelete => none
  else some row

section Rows

variable {resource : Resource} {key column : Column} (marks : resource.Marks key column)
include marks

theorem Resource.Marks.apart (nodup : resource.table.columnNames.Nodup) : resource.key ≠ column.name := by
  obtain ⟨there, named⟩ := Table.mem_of_column? marks.found
  exact named ▸ marks.free.ne nodup marks.listed there marks.known

/-- A row is live if its mark is empty. -/
theorem Resource.Marks.isLive_mark {row : Row} (nodup : resource.table.columnNames.Nodup)
    (full : resource.table.fullRow row = row) (cell : Cell) :
    resource.isLive (row.mark column.name cell) = (cell == .null) := by
  rw [isLive, marks.marks, Option.all_some, Table.cell_mark nodup full marks.listed]

theorem Resource.Marks.isAt_mark {row : Row} (nodup : resource.table.columnNames.Nodup) (at_ cell : Cell) :
    resource.isAt at_ (row.mark column.name cell) = resource.isAt at_ row := by
  rw [isAt, isAt, Row.cell_mark_other (marks.apart nodup)]

end Rows

/-- Of rows of which no two are alike, at most one is taken. -/
private theorem filter_eq_toList {p : Row → Bool} {rows : List Row}
    (apart : rows.Pairwise fun a b => p a = true → p b = true → False) : rows.filter p = (rows.find? p).toList := by
  induction rows with
  | nil => rfl
  | cons row rest ih =>
    obtain ⟨here, later⟩ := List.pairwise_cons.1 apart
    cases is : p row with
    | false => rw [List.filter_cons_of_neg (by simp [is]), List.find?_cons_of_neg (by simp [is]), ih later]
    | true =>
      have none : rest.filter p = [] := List.filter_eq_nil_iff.2 fun other there => here other there is
      rw [List.filter_cons_of_pos is, List.find?_cons_of_pos is, none]
      rfl

section Found

variable {resource : Resource} {rows : List Row}
  (unique : rows.Pairwise fun a b => Cell.order (a.cell resource.key) (b.cell resource.key) ≠ .eq) (cell : Cell)
include unique

theorem Resource.filter_isAt : rows.filter (resource.isAt cell) = (rows.find? (resource.isAt cell)).toList := by
  refine filter_eq_toList (unique.imp fun apart first second => apart ?_)
  have one := Cell.order_eq_iff.1 (beq_iff_eq.1 first)
  have two := Cell.order_eq_iff.1 (beq_iff_eq.1 second)
  exact Cell.order_eq_iff.2 (one.trans two.symm)

/-- A key stands as the one row that has it, if there is one. -/
theorem Resource.standing_cases :
    rows.filter (resource.isAt cell) = [] ∧ resource.standing rows cell = .absent ∨
      ∃ row ∈ rows, rows.filter (resource.isAt cell) = [row] ∧
        resource.standing rows cell = if resource.isLive row then .live else .trashed := by
  rw [filter_isAt unique, standing]
  cases found : rows.find? (resource.isAt cell) with
  | none => exact .inl ⟨rfl, rfl⟩
  | some row => exact .inr ⟨row, List.mem_of_find?_eq_some found, rfl, rfl⟩

end Found

/-- The one row that is taken out of a list is the only one of its kind. -/
private theorem iff_of_filter_eq {p : Row → Bool} {rows : List Row} {row : Row} (alone : rows.filter p = [row]) :
    ∀ other ∈ rows, p other = true ↔ other = row := by
  intro other there
  have listed : other ∈ rows.filter p ↔ other ∈ [row] := by rw [alone]
  rw [List.mem_filter, List.mem_singleton] at listed
  exact ⟨fun is => listed.1 ⟨there, is⟩, fun own => (listed.2 own).2⟩

namespace Call

variable {resource : Resource} {column : Column} {call : Call} {rows : List Row}

/-- Nothing becomes of rows that a call is not for. -/
theorem fates_of_none (absent : rows.filter (resource.isAt call.key.cell) = []) :
    rows.filterMap (call.fate resource column) = rows := by
  rw [List.filter_eq_nil_iff] at absent
  rw [List.filterMap_congr (g := some) fun row there => by rw [fate, if_neg (absent row there)], List.filterMap_some]

section One

variable {row : Row} (alone : rows.filter (resource.isAt call.key.cell) = [row])
include alone

/-- A call that keeps the row it is for makes one row of it. -/
theorem fates_of_some {new : Row} (becomes : call.fate resource column row = some new) :
    rows.filterMap (call.fate resource column) = rows.map fun other => if other = row then new else other := by
  rw [← List.filterMap_eq_map]
  refine List.filterMap_congr fun other there => ?_
  by_cases own : other = row
  · rw [own, becomes, Function.comp_apply, if_pos rfl]
  · rw [fate, if_neg fun is => own ((iff_of_filter_eq alone other there).1 is), Function.comp_apply, if_neg own]

theorem fates_of_removed (becomes : call.fate resource column row = none) :
    rows.filterMap (call.fate resource column) = rows.filter (· ≠ row) := by
  rw [← List.filterMap_eq_filter]
  refine List.filterMap_congr fun other there => ?_
  by_cases own : other = row
  · rw [own, becomes]
    simp [Option.guard]
  · rw [fate, if_neg fun is => own ((iff_of_filter_eq alone other there).1 is)]
    simp [Option.guard, own]

end One

end Call

/-! ## One call -/

theorem Value.eq_null_of_same {value : Value} (same : value.same .null = true) : value = .null := by
  cases value with
  | plain j => cases j <;> first | rfl | cases same
  | moment text zoned => cases same

@[simp]
theorem Value.ofCell_null (type : ColumnType) : Value.ofCell type .null = .ok .null := by
  cases type <;> rfl

namespace Resource.Kept

variable {resource : Resource} {key column : Column} {database : Database} {row : Row} (kept : resource.Kept database)
include kept

/-- In the rows of a resource a key is looked for by its cell. -/
theorem filter_isFor (marks : resource.Marks key column) {asked : Json} (takes : key.type.Takes asked) (withDeleted : Bool) :
    (database.rows resource.table.name).filter (resource.isFor asked withDeleted) =
      ((database.rows resource.table.name).filter (resource.isAt asked.cell)).filter fun row =>
        withDeleted || resource.isLive row := by
  rw [List.filter_filter]
  refine List.filter_congr fun row inside => ?_
  obtain ⟨listed, named⟩ := Table.mem_of_column? marks.found
  have known := (kept.stands.fits row inside).known key listed marks.known
  have stored := Table.isStored_of_full kept.stands.keeps.nodup (kept.stands.keeps.full row inside) listed
  have returns := kept.stands.keeps.returns row inside key listed
  rw [named] at known stored returns
  rw [isFor_eq marks.found takes stored known, Bool.and_comm]
  intro none
  rw [none] at returns
  refine returns.isNumber (fun date => ?_) rfl
  -- a column of moments cannot be read where it holds a number
  obtain ⟨values, read⟩ := kept.readable row inside
  obtain ⟨entry, -, made⟩ := mapM_image read listed
  obtain ⟨value, is, -⟩ := bind_eq_ok.1 made
  rw [date, named, none] at is
  cases is

end Resource.Kept

namespace Call

open Job Operations

section Step

variable {resource : Resource} {key column : Column} (marks : resource.Marks key column) {call : Call}
  (suits : call.Suits resource key column) {work : Work} (none : work.records = [])
include marks suits none

/-- A call that finds no record fails and changes nothing. -/
private theorem job_runOn_none (absent : (work.database.rows resource.table.name).filter
      (resource.isFor call.key (call.kind != .destroy)) = []) :
    ∃ last, (call.job resource.name).runOn work = (.error (.notFound resource.name call.key), last) ∧
      last.records = [] ∧ last.database = work.database := by
  have fresh : ({ work with opened := .none } : Work).records = [] := none
  obtain ⟨kind, context, asked⟩ := call
  cases kind with
  | destroy =>
    refine alone_runOn_error suits.named rfl
      (asked_runOn_none fresh marks.found suits.takes false context .delete absent _) ?_
    rfl
  | restore =>
    apply alone_runOn_error suits.named
    · dsimp only
      rw [marks.marks]
    · exact asked_runOn_none fresh marks.found suits.takes true context .restore absent _
    · rfl
  | forceDelete =>
    refine alone_runOn_error suits.named rfl
      (asked_runOn_none fresh marks.found suits.takes true context .forceDelete absent _) ?_
    rfl

end Step

/-! ### A call that finds its record -/

section Found

variable {resource : Resource} {key column : Column} (marks : resource.Marks key column) {context : Context} {asked : Json}
  {work : Work} (none : work.records = []) (kept : resource.Kept work.database) {row : Row}
  (inside : row ∈ work.database.rows resource.table.name)

include marks kept in
/-- The key finds the one row that has it, when the row may be seen. -/
private theorem filter_isFor_one (takes : key.type.Takes asked)
    (alone : (work.database.rows resource.table.name).filter (resource.isAt asked.cell) = [row]) (withDeleted : Bool)
    (visible : (withDeleted || resource.isLive row) = true) :
    (work.database.rows resource.table.name).filter (resource.isFor asked withDeleted) = [row] := by
  rw [kept.filter_isFor marks takes, alone, List.filter_singleton, visible]
  rfl

include marks none kept inside

/-- A live record that is destroyed keeps its row, with the current time in the column for deletions. -/
private theorem destroy_runOn (suits : Suits resource key column ⟨.destroy, context, asked⟩)
    (alone : (work.database.rows resource.table.name).filter (resource.isAt asked.cell) = [row])
    (live : resource.isLive row = true) :
    ∃ result last, (Call.job resource.name ⟨.destroy, context, asked⟩).runOn work = (.ok result, last) ∧
      last.records = [] ∧ last.database = work.database.set ⟨resource.table,
        (work.database.rows resource.table.name).filterMap (Call.fate resource column ⟨.destroy, context, asked⟩)⟩ := by
  have fresh : ({ work with opened := .none } : Work).records = [] := none
  obtain ⟨values, read⟩ := kept.readable row inside
  have shows : Record.Shows ⟨resource.table, values, values, true⟩ row := ⟨rfl, rfl, read⟩
  have here : resource.isAt asked.cell row = true := (iff_of_filter_eq alone row inside).2 rfl
  have holds := (shows.value_eq kept.stands.keeps marks.listed).1
  obtain ⟨made, written⟩ := suits.remembers.taken
  have empty : row.cell column.name = .null := by simpa [Resource.isLive, marks.marks] using live
  rw [empty, Value.ofCell_null] at holds
  have becomes : Call.fate resource column ⟨.destroy, context, asked⟩ row =
      some (row.mark column.name (made.stored column.type.affinity)) := by
    rw [fate, if_pos here]
    simp [live, Column.made, written]
    rfl
  have looked := filter_isFor_one marks kept suits.takes alone false (by simpa using live)
  obtain ⟨result, after, ran, still, stored⟩ := asked_runOn_set fresh marks.found suits.takes false context .delete
    (suits.allowed .delete) looked read kept.stands inside kept.distinct marks.listed marks.free written
    (empty ▸ Value.ofCell_null _) (fun same => by
      rw [Value.eq_null_of_same same, Value.cellFor_null] at written
      rw [empty, ← Except.ok.inj written]
      cases column.type <;> rfl) "delete"
  have done : ∃ last, (Call.job resource.name ⟨.destroy, context, asked⟩).runOn work = (.ok result, last) ∧
      last.records = [] ∧ last.database = after.database := by
    apply alone_runOn_ok suits.named
    · rfl
    · rw [marks.marks]
      exact ran
    · exact still
  obtain ⟨last, done, released, same⟩ := done
  rw [fates_of_some alone becomes]
  exact ⟨result, last, done, released, same.trans stored⟩

/-- A record that is restored keeps its row, with the column for deletions empty. -/
private theorem restore_runOn (suits : Suits resource key column ⟨.restore, context, asked⟩)
    (alone : (work.database.rows resource.table.name).filter (resource.isAt asked.cell) = [row]) :
    ∃ result last, (Call.job resource.name ⟨.restore, context, asked⟩).runOn work = (.ok result, last) ∧
      last.records = [] ∧ last.database = work.database.set ⟨resource.table,
        (work.database.rows resource.table.name).filterMap (Call.fate resource column ⟨.restore, context, asked⟩)⟩ := by
  have fresh : ({ work with opened := .none } : Work).records = [] := none
  obtain ⟨values, read⟩ := kept.readable row inside
  have shows : Record.Shows ⟨resource.table, values, values, true⟩ row := ⟨rfl, rfl, read⟩
  have here : resource.isAt asked.cell row = true := (iff_of_filter_eq alone row inside).2 rfl
  have holds := (shows.value_eq kept.stands.keeps marks.listed).1
  have null : Cell.null.stored column.type.affinity = .null := by cases column.type <;> rfl
  have becomes : Call.fate resource column ⟨.restore, context, asked⟩ row = some (row.mark column.name .null) := by
    rw [fate, if_pos here]
  have looked := filter_isFor_one marks kept suits.takes alone true rfl
  obtain ⟨result, after, ran, still, stored⟩ := asked_runOn_set fresh marks.found suits.takes true context .restore
    (suits.allowed .restore) looked read kept.stands inside kept.distinct marks.listed marks.free
    (Value.cellFor_null column) holds (fun same => by
      rw [Value.same_null same] at holds
      rw [null, Value.cell_of_null holds]) "restore"
  have done : ∃ last, (Call.job resource.name ⟨.restore, context, asked⟩).runOn work = (.ok result, last) ∧
      last.records = [] ∧ last.database = after.database := by
    apply alone_runOn_ok suits.named
    · dsimp only
      rw [marks.marks]
    · exact ran
    · exact still
  obtain ⟨last, done, released, same⟩ := done
  rw [null] at stored
  rw [fates_of_some alone becomes]
  exact ⟨result, last, done, released, same.trans stored⟩

/-- A record that is deleted for good, live or not, loses its row. -/
private theorem forceDelete_runOn (suits : Suits resource key column ⟨.forceDelete, context, asked⟩)
    (alone : (work.database.rows resource.table.name).filter (resource.isAt asked.cell) = [row]) :
    ∃ result last, (Call.job resource.name ⟨.forceDelete, context, asked⟩).runOn work = (.ok result, last) ∧
      last.records = [] ∧ last.database = work.database.set ⟨resource.table,
        (work.database.rows resource.table.name).filterMap
          (Call.fate resource column ⟨.forceDelete, context, asked⟩)⟩ := by
  have fresh : ({ work with opened := .none } : Work).records = [] := none
  obtain ⟨values, read⟩ := kept.readable row inside
  have here : resource.isAt asked.cell row = true := (iff_of_filter_eq alone row inside).2 rfl
  have becomes : Call.fate resource column ⟨.forceDelete, context, asked⟩ row = .none := by
    rw [fate, if_pos here]
  have looked := filter_isFor_one marks kept suits.takes alone true rfl
  obtain ⟨result, after, ran, still, stored⟩ := asked_runOn_remove fresh marks.found suits.takes true context .forceDelete
    (suits.allowed .forceDelete) looked read kept.stands inside "force_delete"
  have done : ∃ last, (Call.job resource.name ⟨.forceDelete, context, asked⟩).runOn work = (.ok result, last) ∧
      last.records = [] ∧ last.database = after.database := by
    apply alone_runOn_ok suits.named
    · rfl
    · exact ran
    · exact still
  obtain ⟨last, done, released, same⟩ := done
  rw [fates_of_removed alone becomes]
  exact ⟨result, last, done, released, same.trans stored⟩

end Found

section Step

variable {resource : Resource} {key column : Column} (marks : resource.Marks key column) {call : Call}
  (suits : call.Suits resource key column) {work : Work} (none : work.records = [])
include marks suits none

/-- A call that finds its record gives a result, and the rows become what the call makes of them. -/
private theorem job_runOn_one (kept : resource.Kept work.database) {row : Row}
    (inside : row ∈ work.database.rows resource.table.name)
    (alone : (work.database.rows resource.table.name).filter (resource.isAt call.key.cell) = [row])
    (seen : call.kind = .destroy → resource.isLive row = true) :
    ∃ result last, (call.job resource.name).runOn work = (.ok result, last) ∧ last.records = [] ∧
      last.database = work.database.set ⟨resource.table,
        (work.database.rows resource.table.name).filterMap (call.fate resource column)⟩ := by
  obtain ⟨kind, context, asked⟩ := call
  cases kind with
  | destroy => exact destroy_runOn marks none kept inside suits alone (seen rfl)
  | restore => exact restore_runOn marks none kept inside suits alone
  | forceDelete => exact forceDelete_runOn marks none kept inside suits alone

/-- A call in a session of its own is answered by how its key stands, and makes of each row what becomes of it. -/
theorem job_runOn (kept : resource.Kept work.database) :
    ∃ result last, (call.job resource.name).runOn work = (result, last) ∧ last.records = [] ∧
      call.Answers resource (resource.standing (work.database.rows resource.table.name) call.key.cell) work.database result
        last.database ∧
      last.database = work.database.set ⟨resource.table,
        (work.database.rows resource.table.name).filterMap (call.fate resource column)⟩ := by
  have same : work.database.set ⟨resource.table, work.database.rows resource.table.name⟩ = work.database :=
    Database.set_self kept.stands.keeps.stores kept.distinct
  have looked := kept.filter_isFor marks suits.takes (call.kind != .destroy)
  rcases Resource.standing_cases kept.unique call.key.cell with ⟨absent, standing⟩ | ⟨row, inside, alone, standing⟩
  · rw [absent] at looked
    obtain ⟨last, ran, released, still⟩ := job_runOn_none marks suits none looked
    have unanswered : call.kind.next .absent = .none := by cases call.kind <;> rfl
    rw [standing, fates_of_none absent, same]
    refine ⟨_, last, ran, released, ?_, still⟩
    rw [Answers, unanswered]
    exact ⟨rfl, still⟩
  · by_cases hidden : call.kind = .destroy ∧ resource.isLive row = false
    · obtain ⟨destroys, trashed⟩ := hidden
      rw [alone, List.filter_singleton, destroys, trashed] at looked
      obtain ⟨last, ran, released, still⟩ := job_runOn_none marks suits none (by rw [destroys]; exact looked)
      have becomes : call.fate resource column row = some row := by
        rw [fate, destroys, trashed]
        simp
      have unchanged : (work.database.rows resource.table.name).filterMap (call.fate resource column) =
          work.database.rows resource.table.name := by
        rw [fates_of_some alone becomes]
        refine (List.map_congr_left fun other _ => ?_).trans (List.map_id _)
        split
        · next own => exact own.symm
        · rfl
      rw [standing, unchanged, same]
      refine ⟨_, last, ran, released, ?_, still⟩
      rw [Answers, destroys, trashed]
      exact ⟨rfl, still⟩
    · have seen (destroys : call.kind = .destroy) : resource.isLive row = true := by
        by_contra trashed
        exact hidden ⟨destroys, by simpa using trashed⟩
      obtain ⟨result, last, ran, released, stored⟩ := job_runOn_one marks suits none kept inside alone seen
      refine ⟨_, last, ran, released, ?_, stored⟩
      have answered : ∃ after, call.kind.next (resource.standing (work.database.rows resource.table.name) call.key.cell) =
          some after := by
        rw [standing]
        cases is : call.kind with
        | destroy => exact ⟨_, by rw [seen is]; rfl⟩
        | restore | forceDelete => cases resource.isLive row <;> exact ⟨_, rfl⟩
      obtain ⟨after, answered⟩ := answered
      rw [Answers, answered]
      exact ⟨result, rfl⟩

end Step

end Call

end ResourceApi
