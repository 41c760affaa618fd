import ResourceApi.Proofs.Mutation.Single
import ResourceApi.Proofs.Session.Synced

/-!
The state of work that syncs the rows of a join table. The keys that a record is linked to are read once and grow with the
rows that are added, so that they are the keys of its rows all the time, each once.
-/

namespace ResourceApi

open Outcome

/-! ## Keys that are known -/

namespace PivotLink

variable {link : PivotLink} {owner target : Resource} {parent : Row} {existing desired : List Value}
  {now later : List Row} {asked : List (Row × Members)}

/-- A key of a row is among the keys that are asked for if the row leads to what is asked. -/
theorem Progress.any_desired_iff {before : List Row} {row : Row} {key : Value} {cell : Cell}
    (progress : link.Progress owner target parent before asked now) (nodup : link.table.columnNames.Nodup)
    (first : link.Linked owner target parent before) (typed : link.Typed owner target) (asks : link.Asks asked)
    (keys : List.Forall₂ (fun key entry => key.IsKey link.keyType (entry.1.cell link.targetKey)) desired asked)
    (there : row ∈ now) (mine : link.belongs owner target parent row = true) (is : key.IsKey link.keyType cell)
    (place : (row.cell link.relatedKey).place = cell.place) :
    desired.any key.same = true ↔ ∃ entry ∈ asked, link.reaches target entry.1 row = true := by
  rw [List.any_eq_true]
  constructor
  · rintro ⟨other, listed, same⟩
    obtain ⟨entry, present, also⟩ := forall₂_mem_left keys listed
    refine ⟨entry, present, (progress.place_eq nodup first typed asks there mine present).2 (place.trans ?_)⟩
    exact Cell.order_eq_iff.1 ((is.same_iff also).1 same)
  · rintro ⟨entry, present, reached⟩
    obtain ⟨other, listed, also⟩ := forall₂_mem_right keys present
    refine ⟨other, listed, (is.same_iff also).2 (Cell.order_eq_iff.2 (place.symm.trans ?_))⟩
    exact (progress.place_eq nodup first typed asks there mine present).1 reached

/-- A record whose own key is the one by which it is linked is looked for by a key if it has that key. -/
theorem isFor_iff {key : Value} {cell : Cell} {record : Row} (typed : link.Typed owner target)
    (named : link.targetKey = target.key) (is : key.IsKey link.keyType cell)
    (stored : Cell.IsStored link.keyType.affinity (record.cell link.targetKey)) :
    target.isFor key.compared true record = true ↔
      record.cell link.targetKey ≠ .null ∧ (record.cell link.targetKey).place = cell.place := by
  have type : (target.table.ref 0 0 target.key).type = link.keyType := named ▸ typed.related.symm
  have known : key.compared ≠ .null := by
    intro null
    have none : Bound.cell ⟨BindType.compared link.keyType .null, .null⟩ = .null := by cases link.keyType <;> rfl
    have made := is.cell_among is
    rw [null, none] at made
    exact is.ne_null made.symm
  rw [Resource.isFor, Bool.true_or, Bool.and_true, Table.holds_compare known, type, is.cell_among is, ← named,
    Query.holds_compare, Cell.orderFor_of_isStored stored is.stored, ← Cell.order_eq_iff]
  simp [is.ne_null]

/-- Whether keys are those of the rows of a record, each once. -/
structure Known (link : PivotLink) (owner target : Resource) (parent : Row) (existing : List Value) (now : List Row) :
    Prop where
  read : ∀ key ∈ existing, ∃ row ∈ now, link.belongs owner target parent row = true ∧
    ∃ cell, key.IsKey link.keyType cell ∧ (row.cell link.relatedKey).place = cell.place
  known : ∀ row ∈ now, link.belongs owner target parent row = true →
    ∃ key ∈ existing, ∃ cell, key.IsKey link.keyType cell ∧ (row.cell link.relatedKey).place = cell.place
  once : existing.Pairwise fun a b => b.same a = false

namespace Known

variable (known : link.Known owner target parent existing now)
include known

/-- A key is known if a row has it. -/
theorem any_iff {key : Value} {cell : Cell} (is : key.IsKey link.keyType cell) :
    existing.any key.same = true ↔
      ∃ row ∈ now, link.belongs owner target parent row = true ∧ (row.cell link.relatedKey).place = cell.place := by
  rw [List.any_eq_true]
  constructor
  · rintro ⟨other, listed, same⟩
    obtain ⟨row, there, mine, found, also, place⟩ := known.read other listed
    exact ⟨row, there, mine, place.trans (Cell.order_eq_iff.1 ((is.same_iff also).1 same)).symm⟩
  · rintro ⟨row, there, mine, place⟩
    obtain ⟨other, listed, found, also, same⟩ := known.known row there mine
    exact ⟨other, listed, (is.same_iff also).2 (Cell.order_eq_iff.2 (place.symm.trans same))⟩

/-- Keys stay the same when rows take values that leave alone what they link. -/
theorem change {change : Row → Row} (perm : later.Perm (now.map change))
    (same : ∀ row ∈ now, ∀ name ∈ link.marks, (change row).cell name = row.cell name) :
    link.Known owner target parent existing later := by
  have related : link.relatedKey ∈ link.marks := by simp [marks]
  refine ⟨?_, ?_, known.once⟩
  · intro key listed
    obtain ⟨row, there, mine, cell, is, place⟩ := known.read key listed
    refine ⟨change row, perm.mem_iff.2 (List.mem_map_of_mem there), ?_, cell, is, ?_⟩
    · rw [belongs_congr (same row there), mine]
    · rw [same row there _ related, place]
  · intro row listed mine
    obtain ⟨row, there, rfl⟩ := List.mem_map.1 (perm.mem_iff.1 listed)
    rw [belongs_congr (same row there)] at mine
    rw [same row there _ related]
    exact known.known row there mine

/-- The key of a row that is added is one more. -/
theorem add {new : Row} {key : Value} (perm : later.Perm (new :: now)) (unknown : existing.any key.same = false)
    (mine : link.belongs owner target parent new = true) {cell : Cell} (is : key.IsKey link.keyType cell)
    (place : (new.cell link.relatedKey).place = cell.place) :
    link.Known owner target parent (existing ++ [key]) later := by
  refine ⟨?_, ?_, List.pairwise_append.2 ⟨known.once, List.pairwise_singleton _ _, fun other listed new single => ?_⟩⟩
  · intro other listed
    rcases List.mem_append.1 listed with before | same
    · obtain ⟨row, there, found⟩ := known.read other before
      exact ⟨row, perm.mem_iff.2 (List.mem_cons_of_mem new there), found⟩
    · obtain rfl := List.mem_singleton.1 same
      exact ⟨new, perm.mem_iff.2 List.mem_cons_self, mine, cell, is, place⟩
  · intro row listed own
    rcases List.mem_cons.1 (perm.mem_iff.1 listed) with rfl | there
    · exact ⟨key, by simp, cell, is, place⟩
    · obtain ⟨other, listed, found⟩ := known.known row there own
      exact ⟨other, List.mem_append_left _ listed, found⟩
  · rw [List.mem_singleton.1 single]
    exact Bool.not_eq_true _ ▸ List.any_eq_false.1 unknown other listed

/-- The rows whose keys nobody asked for are those that lead to no record that was asked for. -/
theorem leads_stale {rows : JoinRows} {before : List Row} (own : rows.link = link)
    (progress : link.Progress owner target parent before asked now) (nodup : link.table.columnNames.Nodup)
    (first : link.Linked owner target parent before) (typed : link.Typed owner target) (asks : link.Asks asked)
    (keys : List.Forall₂ (fun key entry => key.IsKey link.keyType (entry.1.cell link.targetKey)) desired asked)
    {row : Row} (there : row ∈ now) (mine : link.belongs owner target parent row = true) :
    rows.leads (existing.filter fun key => !desired.any key.same) row = true ↔
      ∀ entry ∈ asked, link.reaches target entry.1 row = false := by
  obtain ⟨value, linked⟩ := (progress.linked nodup first asks).keyed row there mine
  have all : ∀ key ∈ existing.filter fun key => !desired.any key.same, ∃ cell, key.IsKey link.keyType cell := by
    intro key listed
    obtain ⟨_, _, _, cell, is, _⟩ := known.read key (List.mem_of_mem_filter listed)
    exact ⟨cell, is⟩
  subst own
  rw [JoinRows.leads_iff all rfl linked.stored]
  constructor
  · rintro ⟨-, key, listed, cell, is, met⟩ entry present
    obtain ⟨-, unasked⟩ := List.mem_filter.1 listed
    rw [Bool.not_eq_true'] at unasked
    by_contra reached
    rw [Bool.not_eq_false] at reached
    rw [(progress.any_desired_iff nodup first typed asks keys there mine is (Cell.order_eq_iff.1 met)).2
      ⟨entry, present, reached⟩] at unasked
    cases unasked
  · intro none
    obtain ⟨key, listed, cell, is, place⟩ := known.known row there mine
    refine ⟨linked.ne_null, key, List.mem_filter.2 ⟨listed, ?_⟩, cell, is, Cell.order_eq_iff.2 place⟩
    rw [Bool.not_eq_true', Bool.eq_false_iff]
    intro wanted
    obtain ⟨entry, present, reached⟩ :=
      (progress.any_desired_iff nodup first typed asks keys there mine is place).1 wanted
    rw [none entry present] at reached
    cases reached

end Known

end PivotLink

/-! ## Work on the rows of a join table -/

/-- The records in hand when some are let go of. -/
theorem Work.InStep.filter {work : Work} (inStep : work.InStep) (keep : Nat × Record → Bool) :
    Work.InStep { work with records := work.records.filter keep } where
  fresh entry listed := inStep.fresh entry (List.mem_of_mem_filter listed)
  nodup := inStep.nodup.sublist (List.filter_sublist.map _)
  shows entry listed := inStep.shows entry (List.mem_of_mem_filter listed)

/-- Tables that a change does not touch are kept as they were. -/
theorem Database.Keeps.of_touches {before after : Database} {name : String} {table : Table} (keeps : before.Keeps table)
    (touched : before.Touches after name) (other : table.name ≠ name) : after.Keeps table := by
  have rows := touched.rows_other other
  refine ⟨touched.stores keeps.stores, keeps.nodup, ?_, ?_, ?_⟩ <;> rw [rows]
  · exact keeps.full
  · exact keeps.returns
  · exact keeps.distinct

/-- Whether records in hand are in step while only one table is worked on, which has none of them. -/
structure Work.Beside (name : String) (first : Database) (work : Work) : Prop where
  inStep : work.InStep
  apart : ∀ entry ∈ work.records, entry.2.table.name ≠ name
  touched : first.Touches work.database name

namespace Work.Beside

variable {name : String} {first database : Database} {work after : Work}

/-- The table that is worked on may change. -/
theorem touch (beside : work.Beside name first) (touched : work.database.Touches database name) :
    Work.Beside name first { work with database := database } where
  inStep := by
    refine ⟨beside.inStep.fresh, beside.inStep.nodup, fun entry listed => ?_⟩
    obtain ⟨keeps, keyed, row, there, shows⟩ := beside.inStep.shows entry listed
    have other := beside.apart entry listed
    refine ⟨keeps.of_touches touched other, keyed, row, ?_, shows⟩
    change row ∈ database.rows _
    rw [touched.rows_other other]
    exact there
  apart := beside.apart
  touched := beside.touched.trans touched

/-- Records of another table may come in hand. -/
theorem grow {table : Table} (beside : work.Beside name first) (inStep : after.InStep) (grown : work.Grown after)
    (adds : work.Adds after table) (other : table.name ≠ name) : after.Beside name first where
  inStep := inStep
  apart entry listed := (adds entry listed).elim (beside.apart entry) fun new => new ▸ other
  touched := grown.database ▸ beside.touched

theorem alike (beside : work.Beside name first) (alike : work.Alike after) : after.Beside name first where
  inStep := alike.inStep beside.inStep
  apart entry listed := beside.apart entry (alike.records ▸ listed)
  touched := alike.database ▸ beside.touched

/-- Records may be let go of. -/
theorem replace {start new : Nat} {old : Option Nat} {u : Unit} {record : Record} (beside : work.Beside name first)
    (there : work.records.lookup new = some record)
    (ran : (Mutation.replace start old new).runOn work = (.ok u, after)) :
    after.Beside name first ∧ after.database = work.database ∧ after.records.lookup new = some record := by
  unfold Mutation.replace at ran
  split at ran
  · next number =>
    split at ran
    · next away =>
      simp only [Bool.and_eq_true, decide_eq_true_eq] at away
      have unlike : number ≠ new := away.2
      cases ran
      refine ⟨⟨beside.inStep.filter _, fun entry listed => beside.apart entry (List.mem_of_mem_filter listed),
        beside.touched⟩, rfl, ?_⟩
      refine lookup_of_mem (beside.inStep.filter _).nodup (List.mem_filter.2 ⟨mem_of_lookup there, ?_⟩)
      simpa using unlike.symm
    · cases ran
      exact ⟨beside, rfl, there⟩
  · cases ran
    exact ⟨beside, rfl, there⟩

end Work.Beside

/-! ## Node by node -/

namespace PivotLink

/-- A join table whose rows can be matched with the records that they link: the columns that are matched are of one type,
the related records have keys of it, and the table is that of neither record. -/
structure Matched (link : PivotLink) (owner target : Resource) (database : Database) : Prop where
  stores : database.Stores link.table
  nodup : link.table.columnNames.Nodup
  typed : link.Typed owner target
  tagged : link.Tagged owner target
  keyed : ∀ row ∈ database.rows target.table.name, link.keyType.Holds (row.cell link.targetKey)
  besideOwner : owner.table.name ≠ link.table.name
  besideTarget : target.table.name ≠ link.table.name

/-- Whether rows are as the columns keep them, and what is read of those of a record are keys. -/
structure Readable (link : PivotLink) (owner target : Resource) (parent : Row) (rows : List Row) : Prop where
  full : ∀ row ∈ rows, link.table.fullRow row = row
  keyed : ∀ row ∈ rows, link.belongs owner target parent row = true → ∀ key,
    Value.ofCell link.keyType (row.cell link.relatedKey) = .ok key → key.IsKey link.keyType (row.cell link.relatedKey)

theorem Linked.readable {link : PivotLink} {owner target : Resource} {parent : Row} {rows : List Row}
    (linked : link.Linked owner target parent rows) : link.Readable owner target parent rows := by
  refine ⟨linked.full, fun row there mine key read => ?_⟩
  obtain ⟨own, is⟩ := linked.keyed row there mine
  cases Except.ok.inj (is.read.symm.trans read)
  exact is

/-- The work after some records were asked for. -/
structure Syncing (link : PivotLink) (owner target : Resource) (parent : Row) (first : Database)
    (asked : List (Row × Members)) (existing desired : List Value) (work : Work) : Prop where
  beside : work.Beside link.table.name first
  progress : link.Progress owner target parent (first.rows link.table.name) asked (work.database.rows link.table.name)
  known : link.Known owner target parent existing (work.database.rows link.table.name)
  asks : link.Asks asked
  keys : List.Forall₂ (fun key entry => key.IsKey link.keyType (entry.1.cell link.targetKey)) desired asked
  valued : ∀ entry ∈ asked, ∃ cells, link.cells entry.2 = .ok cells

/-- The database after all that was asked for: the rows that nobody asked for are gone. -/
structure Ended (link : PivotLink) (owner target : Resource) (parent : Row) (first : Database)
    (asked : List (Row × Members)) (last : Database) : Prop where
  asks : link.Asks asked
  valued : ∀ entry ∈ asked, ∃ cells, link.cells entry.2 = .ok cells
  touched : first.Touches last link.table.name
  rows : ∃ now, link.Progress owner target parent (first.rows link.table.name) asked now ∧
    last.rows link.table.name = now.filter (link.wanted owner target parent asked)

namespace Syncing

variable {link : PivotLink} {owner target : Resource} {parent row : Row} {first : Database}
  {asked : List (Row × Members)} {existing desired : List Value} {work after : Work} {record found : Record}
  {pivot : Members}

section Step

variable (syncing : link.Syncing owner target parent first asked existing desired work)
  (linked : link.Linked owner target parent (first.rows link.table.name)) (nodup : link.table.columnNames.Nodup)
  (stores : first.Stores link.table) (typed : link.Typed owner target)
  (shows : record.Shows parent) (keeps : first.Keeps record.table)
  (inside : parent ∈ first.rows record.table.name) (same : record.table = owner.table)
  (known : parent.cell link.localKey ≠ .null)
  (showsToo : found.Shows row) (keepsToo : first.Keeps found.table)
  (insideToo : row ∈ first.rows found.table.name) (sameToo : found.table = target.table)
  (is : (found.value link.targetKey).IsKey link.keyType (row.cell link.targetKey)) (free : link.Free pivot)

include syncing is free in
/-- One more record that is asked for by a key, with values that can be stored. -/
private theorem asks_concat (cells : ∃ cells, link.cells pivot = .ok cells) :
    link.Asks (asked ++ [(row, pivot)]) ∧
      List.Forall₂ (fun key entry => key.IsKey link.keyType (entry.1.cell link.targetKey))
        (desired ++ [found.value link.targetKey]) (asked ++ [(row, pivot)]) ∧
      ∀ entry ∈ asked ++ [(row, pivot)], ∃ cells, link.cells entry.2 = .ok cells := by
  refine ⟨⟨?_, ?_⟩, List.rel_append syncing.keys (.cons is .nil), ?_⟩
  · exact List.forall_mem_append.2 ⟨syncing.asks.keyed, by simpa using ⟨_, is⟩⟩
  · exact List.forall_mem_append.2 ⟨syncing.asks.spares, by simpa using free.spares⟩
  · exact List.forall_mem_append.2 ⟨syncing.valued, by simpa using cells⟩

include syncing linked nodup is in
/-- A key is known if a row of the record leads to what is asked. -/
private theorem any_iff (typed : link.Typed owner target) :
    existing.any (found.value link.targetKey).same = true ↔
      ∃ row' ∈ work.database.rows link.table.name, link.belongs owner target parent row' = true ∧
        link.reaches target row row' = true := by
  rw [syncing.known.any_iff is]
  refine exists_congr fun row' => and_congr_right fun there => and_congr_right fun mine => ?_
  obtain ⟨key, leads⟩ := (syncing.progress.linked nodup linked syncing.asks).keyed row' there mine
  exact (reaches_iff typed leads is).symm

include syncing linked nodup stores typed shows keeps inside same known showsToo keepsToo insideToo sameToo is free in
/-- The rows that lead to a record take the values that are asked with it. -/
theorem change (any : existing.any (found.value link.targetKey).same = true)
    (ran : ((JoinRows.ofRecord owner target link record).change (found.value link.targetKey) pivot).runOn work =
      (.ok (), after)) :
    link.Syncing owner target parent first (asked ++ [(row, pivot)]) existing (desired ++ [found.value link.targetKey])
      after := by
  have table : (JoinRows.ofRecord owner target link record).link = link := JoinRows.link_ofRecord
  obtain ⟨cells, database, rfl, touched, perm⟩ :=
    JoinRows.change_eq_ok (by rw [table]; exact syncing.beside.touched.stores stores) ran
  rw [table] at cells touched perm
  obtain ⟨asks, keys, valued⟩ := syncing.asks_concat is free cells
  have still := syncing.progress.linked nodup linked syncing.asks
  have changed : (work.database.rows link.table.name).map (fun row' =>
      if (JoinRows.ofRecord owner target link record).owns row' &&
        (JoinRows.ofRecord owner target link record).leads [found.value link.targetKey] row'
      then link.assign pivot row' else row') =
      (work.database.rows link.table.name).map (link.changed owner target parent (row, pivot)) := by
    refine List.map_congr_left fun row' there => ?_
    have full := still.full row' there
    rw [JoinRows.owns_ofRecord shows keeps inside same nodup full typed known,
      JoinRows.leads_ofRecord showsToo keepsToo insideToo sameToo nodup full typed]
    rfl
  rw [changed] at perm
  exact ⟨syncing.beside.touch touched,
    syncing.progress.change nodup linked asks ((syncing.any_iff linked nodup is typed).1 any) perm,
    syncing.known.change perm fun row' there => cell_changed nodup (still.full row' there) owner target parent free.spares,
    asks, keys, valued⟩

include syncing linked nodup typed is in
/-- No values are asked with a record that rows lead to. -/
theorem leave (any : existing.any (found.value link.targetKey).same = true) :
    link.Syncing owner target parent first (asked ++ [(row, [])]) existing (desired ++ [found.value link.targetKey])
      work := by
  obtain ⟨asks, keys, valued⟩ := syncing.asks_concat is (show link.Free [] from ⟨List.forall_mem_nil _, List.forall_mem_nil _⟩) ⟨[], rfl⟩
  have still := syncing.progress.linked nodup linked syncing.asks
  have perm : (work.database.rows link.table.name).Perm
      ((work.database.rows link.table.name).map (link.changed owner target parent (row, []))) := by
    refine List.Perm.of_eq ?_
    conv_lhs => rw [← List.map_id (work.database.rows link.table.name)]
    refine List.map_congr_left fun row' there => ?_
    unfold changed
    split
    · exact (assign_nil nodup (still.full row' there)).symm
    · rfl
  exact ⟨syncing.beside, syncing.progress.change nodup linked asks ((syncing.any_iff linked nodup is typed).1 any) perm,
    syncing.known, asks, keys, valued⟩

include syncing linked nodup stores typed shows keeps inside same known is free in
/-- A row is added for a record that no row leads to. -/
theorem add (tagged : link.Tagged owner target) (none : existing.any (found.value link.targetKey).same = false)
    (ran : ((JoinRows.ofRecord owner target link record).add (found.value link.targetKey) pivot).runOn work =
      (.ok (), after)) :
    link.Syncing owner target parent first (asked ++ [(row, pivot)]) (existing ++ [found.value link.targetKey])
      (desired ++ [found.value link.targetKey]) after := by
  obtain ⟨new, database, rfl, touched, perm, full, mine, cell, carried, cells⟩ := JoinRows.add_links shows keeps inside same
    known typed tagged nodup (syncing.beside.touched.stores stores) is free ran
  obtain ⟨asks, keys, valued⟩ := syncing.asks_concat is free cells
  have leads : (found.value link.targetKey).IsKey link.keyType (new.cell link.relatedKey) := by
    rw [cell]
    exact is
  have absent (row' : Row) (there : row' ∈ work.database.rows link.table.name)
      (own : link.belongs owner target parent row' = true) : link.reaches target row row' = false := by
    rw [Bool.eq_false_iff]
    intro reached
    rw [(syncing.any_iff linked nodup is typed).2 ⟨row', there, own, reached⟩] at none
    cases none
  exact ⟨syncing.beside.touch touched,
    syncing.progress.add nodup linked typed asks leads ((reaches_iff typed leads is).2 (congrArg Cell.place cell)) absent
      full mine carried perm,
    syncing.known.add perm none mine is (congrArg Cell.place cell), asks, keys, valued⟩

end Step

section Unlinked

variable (typed : link.Typed owner target) (named : link.targetKey = target.key) (keeps : first.Keeps target.table)
include typed keeps

private theorem stored_key {record : Row} (inside : record ∈ first.rows target.table.name) :
    Cell.IsStored link.keyType.affinity (record.cell link.targetKey) := by
  have stored := Table.isStored_ref keeps.nodup (keeps.full record inside) link.targetKey
  rwa [← typed.related] at stored

include named

/-- A record is looked for by the key of a row if the row leads to it. -/
theorem isFor_eq_reaches {key value : Value} {cell : Cell} {record row : Row} (inside : record ∈ first.rows target.table.name)
    (is : key.IsKey link.keyType cell) (linked : value.IsKey link.keyType (row.cell link.relatedKey))
    (place : (row.cell link.relatedKey).place = cell.place) :
    target.isFor key.compared true record = link.reaches target record row := by
  have stored := stored_key typed keeps inside
  rw [Bool.eq_iff_iff, isFor_iff typed named is stored, reaches_iff_of_isStored typed linked stored, place,
    eq_comm (a := Cell.place _)]

variable (syncing : link.Syncing owner target parent first asked existing desired work)
  (linked : link.Linked owner target parent (first.rows link.table.name)) (nodup : link.table.columnNames.Nodup)
  {stale : List Value} (only : stale.Perm (existing.filter fun key => !desired.any key.same))
include syncing linked nodup only

/-- A key that nobody asked for is that of rows that lead to nothing that is asked, and to just the records that are looked
for by it. -/
theorem row_of_stale {key : Value} (listed : key ∈ stale) :
    ∃ row ∈ work.database.rows link.table.name, link.belongs owner target parent row = true ∧
      (∀ entry ∈ asked, link.reaches target entry.1 row = false) ∧
        ∀ record ∈ first.rows target.table.name, target.isFor key.compared true record = link.reaches target record row := by
  obtain ⟨known, unasked⟩ := List.mem_filter.1 (only.mem_iff.1 listed)
  obtain ⟨row, there, mine, cell, is, place⟩ := syncing.known.read key known
  obtain ⟨value, own⟩ := (syncing.progress.linked nodup linked syncing.asks).keyed row there mine
  refine ⟨row, there, mine, fun entry present => ?_, fun record inside => isFor_eq_reaches typed named keeps inside is own place⟩
  by_contra reached
  rw [Bool.not_eq_false] at reached
  rw [(syncing.progress.any_desired_iff nodup linked typed syncing.asks syncing.keys there mine is place).2
    ⟨entry, present, reached⟩] at unasked
  cases unasked

variable {gone later : List Row} (keyed : target.table.keyColumns ≠ [])
  (finds : List.Forall₂ (fun key record =>
    (first.rows target.table.name).filter (target.isFor key.compared true) = [record]) stale gone)
include finds

omit linked nodup in
/-- No record is found by two keys that nobody asked for. -/
private theorem nodup_gone : gone.Nodup := by
  -- keys by which one record is found are the same, which no two of those that are known are
  have apart : stale.Pairwise fun a b => ∀ record ∈ first.rows target.table.name,
      ¬(target.isFor a.compared true record = true ∧ target.isFor b.compared true record = true) := by
    refine (only.pairwise_iff fun both record inside met => both record inside met.symm).2 ?_
    refine (syncing.known.once.filter _).imp_of_mem fun first second different record inside met => ?_
    obtain ⟨row, there, mine, cell, is, place⟩ := syncing.known.read _ (List.mem_of_mem_filter first)
    obtain ⟨other, thereToo, mineToo, cellToo, also, placeToo⟩ := syncing.known.read _ (List.mem_of_mem_filter second)
    have stored := stored_key typed keeps inside
    have one := ((isFor_iff typed named is stored).1 met.1).2
    have two := ((isFor_iff typed named also stored).1 met.2).2
    rw [(also.same_iff is).2 (Cell.order_eq_iff.2 (two.symm.trans one))] at different
    cases different
  clear only
  induction finds with
  | nil => exact List.nodup_nil
  | @cons key record rest others here later ih =>
    obtain ⟨unlike, distinct⟩ := List.pairwise_cons.1 apart
    refine List.nodup_cons.2 ⟨fun again => ?_, ih distinct⟩
    obtain ⟨other, listed, alone⟩ := forall₂_mem_right later again
    obtain ⟨inside, met⟩ := List.mem_filter.1 (here ▸ List.mem_singleton_self record)
    have metToo := (List.mem_filter.1 (alone ▸ List.mem_singleton_self record)).2
    exact unlike other listed record inside ⟨met, metToo⟩

include keyed

/-- The records that are found by the keys that nobody asked for are those that lose their rows. -/
theorem gone_perm (left : later = (work.database.rows link.table.name).filter (link.wanted owner target parent asked)) :
    gone.Perm (link.unlinked owner target parent (first.rows target.table.name) (first.rows link.table.name) later) := by
  have rows : (first.rows target.table.name).Nodup := by
    refine keeps.distinct.imp ?_
    rintro record _ different rfl
    exact different (Database.Keeps.sameKey_self keyed record)
  have iff {record : Row} (inside : record ∈ first.rows target.table.name) :=
    syncing.progress.mem_unlinked_iff nodup linked typed syncing.asks left inside (stored_key typed keeps inside)
  refine (List.perm_ext_iff_of_nodup (syncing.nodup_gone typed named keeps only finds)
    (rows.sublist List.filter_sublist)).2 fun record => ?_
  constructor
  · intro listed
    obtain ⟨key, asked, alone⟩ := forall₂_mem_right finds listed
    obtain ⟨inside, met⟩ := List.mem_filter.1 (alone ▸ List.mem_singleton_self record)
    obtain ⟨row, there, mine, unasked, leads⟩ := syncing.row_of_stale typed named keeps linked nodup only asked
    exact (iff inside).2 ⟨row, there, mine, (leads record inside).symm.trans met, unasked⟩
  · intro listed
    have inside := List.mem_of_mem_filter listed
    obtain ⟨row, there, mine, reached, unasked⟩ := (iff inside).1 listed
    obtain ⟨key, known, cell, is, place⟩ := syncing.known.known row there mine
    obtain ⟨value, own⟩ := (syncing.progress.linked nodup linked syncing.asks).keyed row there mine
    have fresh : desired.any key.same = false := by
      rw [← Bool.not_eq_true, syncing.progress.any_desired_iff nodup linked typed syncing.asks syncing.keys there mine is place]
      rintro ⟨entry, present, met⟩
      rw [unasked entry present] at met
      cases met
    obtain ⟨other, listed, alone⟩ := forall₂_mem_left finds
      (only.mem_iff.2 (List.mem_filter.2 ⟨known, by rw [fresh]; rfl⟩))
    have met := (isFor_eq_reaches typed named keeps inside is own place).trans reached
    have one : record ∈ [other] := alone ▸ List.mem_filter.2 ⟨inside, met⟩
    rwa [List.mem_singleton.1 one]

end Unlinked

end Syncing

end PivotLink

end ResourceApi
