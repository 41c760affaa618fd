import ResourceApi.Proofs.Mutation.Single
import ResourceApi.Proofs.Session.Held
import ResourceApi.Proofs.Session.Ready

/-!
Related records of a request, one at a time. A record that a node names is found, made or changed, and its row is among
those of its table then and bears what the result tells of it; the rows that no node names stay.
-/

namespace ResourceApi

open Outcome

/-- Whether a row bears what a result tells of its record, where that is not what is no number. -/
def WriteResult.Tells (result : WriteResult) (table : Table) (row : Row) : Prop :=
  ∀ column ∈ table.columns, (result.attributes.lookup column.name).getD .null ≠ .plain (.double .notANumber) →
    column.Bears ((result.attributes.lookup column.name).getD .null) (row.cell column.name)

namespace WriteResult.Tells

variable {related : WriteResult} {table : Table} {row : Row} (tells : related.Tells table row) {name : String}
  {column : Column} (there : table.column? name = some column)
include tells there

theorem bears {value : Value} (told : related.attributes.lookup name = some value)
    (number : value ≠ .plain (.double .notANumber)) : column.Bears value (row.cell name) := by
  obtain ⟨listed, same⟩ := Table.mem_of_column? there
  have bears := tells column listed
  rw [same, told, Option.getD_some] at bears
  exact bears number

/-- A column of which nothing is told holds null. -/
theorem told (known : row.cell name ≠ .null) : ∃ value, related.attributes.lookup name = some value := by
  cases told : related.attributes.lookup name with
  | some value => exact ⟨value, rfl⟩
  | none =>
    obtain ⟨listed, same⟩ := Table.mem_of_column? there
    have bears := tells column listed
    rw [same, told, Option.getD_none] at bears
    exact absurd ((bears fun none => by cases none).eq_null (.inl rfl)) known

end WriteResult.Tells

/-- What is known of a record by column is what is known of it. -/
theorem Record.lookup_inOrder {record : Record} {column : Column} (nodup : record.table.columnNames.Nodup)
    (listed : column ∈ record.table.columns) : record.inOrder.lookup column.name = record.value? column.name := by
  unfold Record.inOrder
  unfold Table.columnNames at nodup
  generalize record.table.columns = columns at nodup listed
  induction columns with
  | nil => cases listed
  | cons first rest ih =>
    obtain ⟨fresh, others⟩ := List.nodup_cons.1 nodup
    rcases List.mem_cons.1 listed with rfl | later
    · cases known : record.value? column.name with
      | some value => simp [known]
      | none =>
        simp only [List.filterMap_cons, known, Option.map_none]
        rw [List.lookup_eq_none_iff]
        intro entry inside
        obtain ⟨other, there, found⟩ := List.mem_filterMap.1 inside
        obtain ⟨value, -, rfl⟩ := Option.map_eq_some_iff.1 found
        rw [bne_iff_ne]
        intro same
        exact fresh (List.mem_map.2 ⟨other, there, same.symm⟩)
    · have unlike : (column.name == first.name) = false := by
        rw [beq_eq_false_iff_ne]
        intro same
        exact fresh (List.mem_map.2 ⟨column, later, same⟩)
      rw [List.filterMap_cons]
      cases record.value? first.name with
      | none => exact ih others later
      | some value =>
        rw [Option.map_some, List.lookup_cons, unlike]
        exact ih others later

theorem Record.value?_of_inOrder {record : Record} {name : String} {value : Value}
    (told : record.inOrder.lookup name = some value) : record.value? name = some value := by
  obtain ⟨column, -, found⟩ := List.mem_filterMap.1 (mem_of_lookup told)
  obtain ⟨held, known, same⟩ := Option.map_eq_some_iff.1 found
  cases same
  exact known

theorem Record.Stands.tells {record : Record} {row : Row} {name operation : String} {key : Value}
    {relations : List (String × List WriteResult)} (stands : record.Stands row) (nodup : record.table.columnNames.Nodup) :
    WriteResult.Tells (.mk name operation key record.inOrder relations) record.table row := by
  intro column listed _
  rw [WriteResult.attributes, Record.lookup_inOrder nodup listed]
  exact stands.bears column listed

namespace Mutation

open Job

/-- How a request brings a related record about: no more than one row was looked for, its row is among those of the target
then, it bears what is told of it, and the rows that were not looked for are there still. -/
structure Brings (target : Resource) (looked : Row → Bool) (before after : Database) (related : WriteResult) (row : Row) :
    Prop where
  alone : ∀ one ∈ before.rows target.table.name, ∀ other ∈ before.rows target.table.name, looked one = true →
    looked other = true → one = other
  inside : row ∈ after.rows target.table.name
  touched : before.Touches after target.table.name
  orderly : after.Orderly target.table
  stays : ∀ other ∈ before.rows target.table.name, looked other = false →
    other ∈ after.rows target.table.name ∧ other ≠ row
  tells : related.Tells target.table row

namespace Brings

variable {target : Resource} {looked : Row → Bool} {before after : Database} {related : WriteResult} {row own : Row}
  {table : Table} (brings : Brings target looked before after related row)
include brings

/-- A row of any table that was not looked for is there still, and is not that of the related record. -/
theorem stays_of (there : own ∈ before.rows table.name) (other : target.table.name = table.name → looked own = false) :
    own ∈ after.rows table.name ∧ (target.table.name = table.name → own ≠ row) := by
  by_cases same : target.table.name = table.name
  · rw [← same] at there
    obtain ⟨still, apart⟩ := brings.stays own there (other same)
    exact ⟨same ▸ still, fun _ => apart⟩
  · rw [brings.touched.rows_other (Ne.symm same)]
    exact ⟨there, fun equal => absurd equal same⟩

/-- Where another row was looked for, a row was not. -/
theorem not_looked {sought : Row} (there : own ∈ before.rows target.table.name)
    (inside : sought ∈ before.rows target.table.name) (met : looked sought = true) (other : sought ≠ own) :
    looked own = false :=
  Bool.eq_false_iff.2 fun metToo => other (brings.alone sought inside own there met metToo)

theorem orderly_of (orderly : before.Orderly table) : after.Orderly table := by
  by_cases same : table.name = target.table.name
  · obtain ⟨rows, found⟩ := brings.touched.stores orderly.stores
    obtain ⟨others, here⟩ := brings.orderly.stores
    rw [same, here] at found
    cases found
    exact brings.orderly
  · exact orderly.of_touches brings.touched same

end Brings

variable {context : Context} {work after : Work} {number : Nat} {owner target : Resource} {node : Node} {link : Values}
  {operation : Operation} {looked : Row → Bool} {key : Json}

/-- A row that is found alone is the only one that is looked for. -/
private theorem alone_of_filter {rows : List Row} {row : Row} (alone : rows.filter looked = [row]) :
    ∀ one ∈ rows, ∀ other ∈ rows, looked one = true → looked other = true → one = other := by
  have only (one : Row) (there : one ∈ rows) (met : looked one = true) : one = row := by
    simpa [alone] using List.mem_filter.2 ⟨there, met⟩
  exact fun one there other thereToo met metToo => (only one there met).trans (only other thereToo metToo).symm

/-- A record that was found and in which values were set is brought about by writing it. -/
theorem brings_of_flush {record : Record} {row : Row} {values : Values} {set : Work} {before : List (Nat × Record)}
    (quiet : Record.Quiet before number) (held : set.records = before ++ [(number, record.setAll values)])
    (ran : (flush number).runOn set = (.ok (), after)) (same : record.table = target.table) (shows : record.Shows row)
    (orderly : set.database.Orderly target.table) (keyed : target.table.keyColumns ≠ [])
    (alone : (set.database.rows target.table.name).filter looked = [row]) (proper : target.table.IsProper row) :
    ∃ new changed, after = { set with database := after.database, records := before ++ [(number, changed)] } ∧
      changed.table = target.table ∧ changed.values = (record.setAll values).values ∧
      ∀ name operation key relations, Brings target looked set.database after.database
        (.mk name operation key changed.inOrder relations) new := by
  obtain ⟨inside, found⟩ := List.mem_filter.1 (alone ▸ List.mem_singleton_self row)
  rw [← same] at orderly keyed inside proper
  obtain ⟨new, changed, replaces, left, sameToo, known, stands, -⟩ :=
    flush_last ran quiet held shows orderly keyed inside proper
  rw [same] at replaces inside keyed
  refine ⟨new, changed, left, sameToo.trans same, known, fun name operation key relations => ?_⟩
  refine ⟨alone_of_filter alone, replaces.mem inside, replaces.touched, replaces.orderly, fun other there apart => ?_, ?_⟩
  · refine replaces.mem_other keyed inside there ?_
    rintro rfl
    rw [found] at apart
    cases apart
  · rw [← same, ← sameToo]
    exact stands.tells (by rw [sameToo, same]; exact replaces.orderly.nodup)

/-- Where work is ready, asking whether something may be done with a record takes its row in hand. -/
private theorem found_of_asked {action : Action} (ready : work.Ready target.table (target.isFor key false))
    (ran : (do
      let number ← Job.find target key false
      Job.authorize context action target (some (← Job.keyOf target number))
      return number : Job Nat).runOn work = (.ok number, after)) :
    ∃ row record, (work.database.rows target.table.name).filter (target.isFor key false) = [row] ∧ number = work.next ∧
      work.Took after record ∧ record.table = target.table ∧ record.Shows row ∧ target.table.IsProper row := by
  obtain ⟨_, middle, found, ran⟩ := bind_eq_ok.1 ran
  obtain ⟨row, record, alone, rfl, took, same, shows, proper⟩ := find_eq_ok_of_ready ready found
  have there : middle.records.lookup work.next = some record := took.records ▸ ready.quiet.lookup_last record
  rw [bind_runOn, keyOf_runOn _ there] at ran
  dsimp only at ran
  obtain ⟨_, last, allowed, ran⟩ := bind_eq_ok.1 ran
  cases ran
  have alike := authorize_eq_ok allowed
  exact ⟨row, record, alone, rfl, ⟨alike.database.trans took.database, alike.records.trans took.records,
    alike.next.trans took.next⟩, same, shows, proper⟩

/-- The record that a node links or unlinks is found as any record is. -/
theorem findLinked_eq_ok_of_ready
    (ready : work.Ready target.table (target.isFor ((Members.get? node.attributes target.key).getD .null) false))
    (ran : (findLinked context target node operation).runOn work = (.ok number, after)) :
    ∃ row record, (work.database.rows target.table.name).filter
        (target.isFor ((Members.get? node.attributes target.key).getD .null) false) = [row] ∧
      number = work.next ∧ work.Took after record ∧ record.table = target.table ∧ record.Shows row ∧
      target.table.IsProper row :=
  found_of_asked ready ran

/-- The record of a node without a key is a new one. -/
theorem takeRecord_of_null (null : key.isNull = true)
    (ran : (takeRecord context target key).runOn work = (.ok number, after)) :
    number = work.next ∧ work.Took after (Record.new target.table) := by
  rw [takeRecord, if_pos null] at ran
  obtain ⟨_, middle, allowed, took⟩ := bind_eq_ok.1 ran
  have alike := authorize_eq_ok allowed
  cases took
  rw [← alike.next]
  refine ⟨rfl, alike.database, ?_, ?_⟩
  · rw [← alike.records, ← alike.next]
  · rw [← alike.next]

/-- The record of a node with a key is found. -/
theorem takeRecord_of_ready (known : key.isNull = false) (ready : work.Ready target.table (target.isFor key false))
    (ran : (takeRecord context target key).runOn work = (.ok number, after)) :
    ∃ row record, (work.database.rows target.table.name).filter (target.isFor key false) = [row] ∧ number = work.next ∧
      work.Took after record ∧ record.table = target.table ∧ record.Shows row ∧ target.table.IsProper row := by
  rw [takeRecord, known, if_neg (by simp)] at ran
  exact found_of_asked ready ran

/-- Writing a node without relations brings its record about, with the values of the link if they are not null. -/
theorem writeNode_brings {related : WriteResult} (ready : work.Ready target.table looked)
    (none : ((Members.get? node.attributes target.key).getD .null).isNull = true → ∀ row, looked row = false)
    (all : ((Members.get? node.attributes target.key).getD .null).isNull = false →
      looked = target.isFor ((Members.get? node.attributes target.key).getD .null) false)
    (flat : node.relations = [])
    (ran : (writeNode context target link node).runOn work = (.ok related, after)) :
    after.records = work.records ∧ (∃ row, Brings target looked work.database after.database related row) ∧
      ∀ column ∈ target.table.columns, ∀ value, link.reverse.lookup column.name = some value → value.isNull = false →
        related.attributes.lookup column.name = some value := by
  obtain ⟨number, taken, above, before, set, flushed, below, last, ended, taking, wroteAbove, setGiven, wrote,
    wroteBelow, shown, rfl⟩ := writeNode_steps ran
  rw [flat] at wroteAbove wroteBelow
  cases wroteAbove
  cases wroteBelow
  cases null : ((Members.get? node.attributes target.key).getD .null).isNull with
  | false =>
    obtain ⟨row, record, alone, rfl, took, same, shows, proper⟩ := takeRecord_of_ready null (all null ▸ ready) taking
    rw [setValues_last ready.quiet took.records] at setGiven
    cases setGiven
    obtain ⟨new, changed, left, sameToo, known, brings⟩ := brings_of_flush ready.quiet rfl wrote same shows
      (took.database ▸ ready.orderly) ready.keyed (took.database ▸ all null ▸ alone) proper
    have held : flushed.records = work.records ++ [(work.next, changed)] := by rw [left]
    rw [resultOf_runOn _ _ _ (held ▸ ready.quiet.lookup_last changed)] at shown
    cases shown
    refine ⟨by rw [held]; exact ready.quiet.release_last changed, ⟨new, took.database ▸ brings _ _ _ _⟩, ?_⟩
    intro column listed value linked _
    rw [WriteResult.attributes, Record.lookup_inOrder (sameToo ▸ ready.orderly.nodup) (sameToo ▸ listed), Record.value?,
      known]
    change (record.setAll _).value? column.name = _
    rw [Record.value?_setAll, List.reverse_append, List.lookup_append, linked]
    rfl
  | true =>
    obtain ⟨rfl, took⟩ := takeRecord_of_null null taking
    rw [setValues_last ready.quiet took.records] at setGiven
    cases setGiven
    have orderly : taken.database.Orderly target.table := took.database ▸ ready.orderly
    obtain ⟨row, changed, left, touched, kept, perm, sameToo, bears, known⟩ :=
      flush_last_new wrote ready.quiet rfl Record.isStored_setAll (by rw [Record.table_setAll]; exact orderly)
    rw [Record.table_setAll] at touched kept perm sameToo bears
    change taken.database.Touches flushed.database target.table.name at touched
    have held : flushed.records = work.records ++ [(work.next, changed)] := by rw [left]
    rw [resultOf_runOn _ _ _ (held ▸ ready.quiet.lookup_last changed)] at shown
    cases shown
    refine ⟨by rw [held]; exact ready.quiet.release_last changed, ⟨row, ?_⟩, ?_⟩
    · rw [← took.database]
      have nodup : changed.table.columnNames.Nodup := sameToo ▸ ready.orderly.nodup
      refine ⟨fun one _ other _ met _ => ?_, perm.mem_iff.2 List.mem_cons_self, touched, kept,
        fun other there _ => ?_, fun column listed number => ?_⟩
      · rw [none null one] at met
        cases met
      · refine ⟨perm.mem_iff.2 (List.mem_cons_of_mem _ there), ?_⟩
        rintro rfl
        have apart := List.pairwise_cons.1 (kept.distinct.perm perm.symm)
        exact apart.1 other there (Database.Keeps.sameKey_self ready.keyed other)
      · rw [WriteResult.attributes, Record.lookup_inOrder nodup (sameToo ▸ listed)] at number ⊢
        exact bears column listed number
    · intro column listed value linked notNull
      have set : ((Record.new target.table).setAll (given target node.attributes ++ link)).value? column.name =
          some value := by
        rw [Record.value?_setAll, List.reverse_append, List.lookup_append, linked]
        rfl
      rw [WriteResult.attributes, Record.lookup_inOrder (sameToo ▸ ready.orderly.nodup) (sameToo ▸ listed), known, set]
      rwa [Record.value, set, Option.getD_some]

/-! ## Through a relation -/

/-- Whether a row is the one that a node is about; a record that is made anew is none that is there. -/
def seeks (target : Resource) (operation : Operation) (node : Node) (row : Row) : Bool :=
  !(operation == .create && ((Members.get? node.attributes target.key).getD .null).isNull) &&
    target.isFor ((Members.get? node.attributes target.key).getD .null) false row

variable {record : Record} {relation : Relation} {linked : Node} {results : List WriteResult}

theorem seeks_of_ne (other : operation ≠ .create) (target : Resource) (node : Node) :
    seeks target operation node = target.isFor ((Members.get? node.attributes target.key).getD .null) false := by
  funext row
  have unlike : (operation == .create) = false := by simpa using other
  simp [seeks, unlike]

theorem seeks_of_null {node : Node} (null : ((Members.get? node.attributes target.key).getD .null).isNull = true)
    (create : operation = .create) (row : Row) : seeks target operation node row = false := by
  simp [seeks, null, create]

theorem seeks_of_known {node : Node} (known : ((Members.get? node.attributes target.key).getD .null).isNull = false)
    (operation : Operation) :
    seeks target operation node = target.isFor ((Members.get? node.attributes target.key).getD .null) false := by
  funext row
  simp [seeks, known]

@[simp]
theorem replace_none (start new : Nat) (work : Work) : (replace start none new).runOn work = (.ok (), work) := rfl

/-- A relation whose link the related records keep: the values of the link are what is told of the related record. -/
theorem writeEntry_child_brings {link : ChildLink} (own : relation.link = .child link)
    (ready : ∀ target, context.graph.target relation = .ok target → work.Ready target.table (seeks target operation linked))
    (there : work.records.lookup number = some record) (flat : linked.relations = [])
    (ran : (writeEntry context owner number relation (.mk operation [linked])).runOn work = (.ok results, after)) :
    ∃ target related row, context.graph.target relation = .ok target ∧ results = [related] ∧
      after.records = work.records ∧
      Brings target (seeks target operation linked) work.database after.database related row ∧
      ∀ column ∈ target.table.columns, ∀ value,
        (if operation = .detach then (childLink owner link record).map fun entry => (entry.1, .null)
          else childLink owner link record).reverse.lookup column.name = some value →
        (operation = .create → value.isNull = false) → related.attributes.lookup column.name = some value := by
  rw [writeEntry, own] at ran
  dsimp only at ran
  split at ran
  · cases ran
  rw [bind_runOn, get_runOn] at ran
  dsimp only at ran
  obtain ⟨target, leads, ran⟩ := of_bind_eq_ok.1 ran
  rw [bind_runOn, record_runOn there] at ran
  dsimp only at ran
  obtain ⟨_, last, wrote, ended⟩ := bind_eq_ok.1 ran
  cases ended
  have ready := ready target leads
  rw [writeChildren] at wrote
  split at wrote
  · next create =>
    obtain ⟨related, made, nested, wrote⟩ := bind_eq_ok.1 wrote
    rw [writeChildren] at wrote
    cases wrote
    obtain ⟨records, ⟨row, brings⟩, known⟩ := writeNode_brings ready (seeks_of_null · create)
      (fun known => seeks_of_known known operation) flat nested
    refine ⟨target, related, row, leads, rfl, ?_, brings, fun column listed value linked notNull => ?_⟩
    · dsimp only
      rw [records]
      exact List.filter_eq_self.2 fun entry listed => by simpa using ready.quiet.fresh entry listed
    · rw [if_neg (by rw [create]; decide)] at linked
      exact known column listed value linked (notNull create)
  · next other =>
    have looked := seeks_of_ne other target linked
    obtain ⟨found, middle, sought, wrote⟩ := bind_eq_ok.1 wrote
    obtain ⟨row, held, alone, rfl, took, same, shows, proper⟩ := findLinked_eq_ok_of_ready (looked ▸ ready) sought
    rw [bind_runOn, replace_none] at wrote
    dsimp only at wrote
    rw [bind_runOn, setValues_last ready.quiet took.records] at wrote
    dsimp only at wrote
    obtain ⟨_, flushed, flush, wrote⟩ := bind_eq_ok.1 wrote
    obtain ⟨new, changed, left, sameToo, known, brings⟩ := brings_of_flush ready.quiet rfl flush same shows
      (took.database ▸ ready.orderly) ready.keyed (took.database ▸ looked ▸ alone) proper
    have records : flushed.records = work.records ++ [(work.next, changed)] := by rw [left]
    rw [bind_runOn, resultOf_runOn _ _ _ (records ▸ ready.quiet.lookup_last changed)] at wrote
    dsimp only at wrote
    rw [writeChildren] at wrote
    cases wrote
    refine ⟨target, _, new, leads, rfl, ?_, took.database ▸ brings _ _ _ _, fun column listed value linked _ => ?_⟩
    · dsimp only
      rw [records]
      exact ready.quiet.release_last changed
    · rw [WriteResult.attributes, Record.lookup_inOrder (sameToo ▸ ready.orderly.nodup) (sameToo ▸ listed), Record.value?,
        known]
      change (held.setAll _).value? column.name = _
      rw [Record.value?_setAll, linked]
      rfl

/-- A record that was found and is left as it is. -/
theorem brings_of_found {row : Row} (shows : record.Shows row) (same : record.table = target.table)
    (orderly : work.database.Orderly target.table) (proper : target.table.IsProper row) {looked : Row → Bool}
    (alone : (work.database.rows target.table.name).filter looked = [row]) (name operation : String) (key : Value)
    (relations : List (String × List WriteResult)) :
    Brings target looked work.database work.database (.mk name operation key record.inOrder relations) row := by
  obtain ⟨inside, found⟩ := List.mem_filter.1 (alone ▸ List.mem_singleton_self row)
  refine ⟨alone_of_filter alone, inside, .refl _ _, orderly, fun other there apart => ⟨there, ?_⟩, ?_⟩
  · rintro rfl
    rw [found] at apart
    cases apart
  · rw [← same] at orderly proper ⊢
    exact (shows.stands orderly.nodup proper).tells orderly.nodup

/-- What is done through a join table for one related record: it is brought about, and a row that links the two records is
added, or those that do are removed. -/
structure Joins (target : Resource) (rows : JoinRows) (link : PivotLink) (operation : Operation) (linked : Node)
    (before middle after : Database) (related : WriteResult) (row : Row) (key : Value) : Prop where
  brings : Brings target (seeks target operation linked) before middle related row
  touched : middle.Touches after link.table.name
  detached : operation = .detach → middle = before ∧
    (row.cell link.targetKey ≠ .null →
      row.cell link.targetKey ≠ .real .notANumber ∧ key.compared ≠ .null ∧
        target.table.holds row link.targetKey key.compared = true) ∧
    after.rows link.table.name = (middle.rows link.table.name).filter fun between =>
      !(rows.owns between && rows.leads [key] between)
  attached : operation ≠ .detach → (∀ value, related.attributes.lookup link.targetKey = some value → key = value) ∧
    ∃ between, (after.rows link.table.name).Perm (between :: middle.rows link.table.name) ∧
      ∀ entry ∈ rows.given key linked.pivot, ∃ column cell,
        link.table.column? entry.1 = some column ∧ entry.2.cellFor column = .ok cell ∧
        (cell.stored column.type.affinity ≠ .null ∨ link.table.isPlaceColumn column = false →
          between.cell entry.1 = cell.stored column.type.affinity)

section Joined

variable {rows : JoinRows} {link : PivotLink} {start : Nat} (own : rows.link = link)
  (ready : work.Ready target.table (seeks target operation linked)) (joined : work.database.Orderly link.table)
  (ran : (writeJoined context target rows operation start none [linked]).runOn work = (.ok results, after))
include own ready joined ran

/-- A related record is made, and a row added that links it. -/
private theorem joins_of_create (create : operation = .create) (flat : linked.relations = []) :
    ∃ related row key middle, results = [related] ∧ after.records.filter (·.1 < work.next) = work.records ∧
      Joins target rows link operation linked work.database middle after.database related row key := by
  subst own
  rw [writeJoined, if_pos create] at ran
  obtain ⟨related, made, nested, ran⟩ := bind_eq_ok.1 ran
  obtain ⟨records, ⟨row, brings⟩, -⟩ := writeNode_brings ready (seeks_of_null · create)
    (fun known => seeks_of_known known operation) flat nested
  obtain ⟨_, added, add, ran⟩ := bind_eq_ok.1 ran
  rw [writeJoined] at ran
  cases ran
  have joined := brings.orderly_of joined
  obtain ⟨between, database, rfl, touched, perm, -, given⟩ := JoinRows.add_eq_ok joined.stores joined.nodup add
  refine ⟨related, row, related.linkValue rows.link.targetKey, made.database, rfl, ?_, brings, touched, fun detach => ?_,
    fun _ => ⟨fun value told => ?_, between, perm, given⟩⟩
  · dsimp only
    rw [records]
    exact List.filter_eq_self.2 fun entry listed => by simpa using ready.quiet.fresh entry listed
  · rw [create] at detach
    cases detach
  · rw [WriteResult.linkValue, told, Option.getD_some]

/-- A related record is found, and left as it is: a row is added that links it, or those that do are removed. -/
private theorem joins_of_found (other : operation ≠ .create) :
    ∃ related row key middle, results = [related] ∧ after.records.filter (·.1 < work.next) = work.records ∧
      Joins target rows link operation linked work.database middle after.database related row key := by
  subst own
  rw [writeJoined, if_neg other] at ran
  have looked := seeks_of_ne other target linked
  obtain ⟨number, middle, sought, ran⟩ := bind_eq_ok.1 ran
  obtain ⟨row, held, alone, rfl, took, same, shows, proper⟩ := findLinked_eq_ok_of_ready (looked ▸ ready) sought
  have inside := List.mem_of_mem_filter (alone ▸ List.mem_singleton_self row)
  have there : middle.records.lookup work.next = some held := took.records ▸ ready.quiet.lookup_last held
  rw [bind_runOn, replace_none] at ran
  dsimp only at ran
  rw [bind_runOn, record_runOn there] at ran
  dsimp only at ran
  rw [bind_runOn, resultOf_runOn _ _ _ there] at ran
  dsimp only at ran
  have brings := brings_of_found shows same ready.orderly proper (looked ▸ alone) target.name operation.name
    (held.value target.key) []
  have released : middle.records.filter (·.1 < work.next) = work.records := by
    rw [took.records]
    exact ready.quiet.release_last held
  have joined : middle.database.Orderly rows.link.table := took.database ▸ joined
  split at ran
  · next detach =>
    obtain ⟨_, removed, remove, ran⟩ := bind_eq_ok.1 ran
    rw [writeJoined] at ran
    cases ran
    obtain ⟨database, rfl, touched, left⟩ := JoinRows.remove_eq_ok joined.stores remove
    rw [took.database] at touched left
    refine ⟨_, row, held.value rows.link.targetKey, work.database, rfl, released, brings, touched,
      fun _ => ⟨rfl, fun known => ?_, left⟩, fun attach => absurd detach attach⟩
    obtain ⟨column, found⟩ := Table.column?_of_cell_ne (ready.orderly.full row inside) known
    obtain ⟨listed, named⟩ := Table.mem_of_column? found
    rw [← named] at known ⊢
    rw [← same] at listed proper ⊢
    have nodup : held.table.columnNames.Nodup := same ▸ ready.orderly.nodup
    have full : held.table.fullRow row = row := same ▸ ready.orderly.full row inside
    exact ⟨(shows.bears nodup proper listed).isNumber, shows.holds_value nodup full listed (proper column listed).2 known⟩
  · next attach =>
    obtain ⟨_, added, add, ran⟩ := bind_eq_ok.1 ran
    rw [writeJoined] at ran
    cases ran
    obtain ⟨between, database, rfl, touched, perm, -, given⟩ := JoinRows.add_eq_ok joined.stores joined.nodup add
    rw [took.database] at touched perm
    refine ⟨_, row, held.value rows.link.targetKey, work.database, rfl, released, brings, touched,
      fun detach => absurd detach attach, fun _ => ⟨fun value told => ?_, between, perm, given⟩⟩
    rw [Record.value, Record.value?_of_inOrder told, Option.getD_some]

end Joined

/-- A relation whose links are rows of a join table: a row of it is added, or those that link the two records are removed. -/
theorem writeEntry_pivot_brings {link : PivotLink} (own : relation.link = .pivot link) (notSync : operation ≠ .sync)
    (ready : ∀ target, context.graph.target relation = .ok target → work.Ready target.table (seeks target operation linked))
    (joined : work.database.Orderly link.table) (there : work.records.lookup number = some record)
    (flat : linked.relations = [])
    (ran : (writeEntry context owner number relation (.mk operation [linked])).runOn work = (.ok results, after)) :
    ∃ target related row key middle, context.graph.target relation = .ok target ∧ results = [related] ∧
      after.records = work.records ∧
      Joins target (JoinRows.ofRecord owner target link record) link operation linked work.database middle after.database
        related row key := by
  rw [writeEntry, own] at ran
  dsimp only at ran
  split at ran
  · cases ran
  rw [bind_runOn, get_runOn] at ran
  dsimp only at ran
  obtain ⟨target, leads, ran⟩ := of_bind_eq_ok.1 ran
  rw [bind_runOn, record_runOn there] at ran
  dsimp only at ran
  obtain ⟨_, last, wrote, ended⟩ := bind_eq_ok.1 ran
  cases ended
  have ready := ready target leads
  have table : (JoinRows.ofRecord owner target link record).link = link := JoinRows.link_ofRecord
  by_cases create : operation = .create
  · obtain ⟨related, row, key, middle, rfl, released, joins⟩ := joins_of_create table ready joined wrote create flat
    exact ⟨target, related, row, key, middle, leads, rfl, released, joins⟩
  · obtain ⟨related, row, key, middle, rfl, released, joins⟩ := joins_of_found table ready joined wrote create
    exact ⟨target, related, row, key, middle, leads, rfl, released, joins⟩

/-- A relation whose link the record keeps: the related record is brought about, and the record takes the values of the
link. -/
theorem writeEntry_parent_brings {link : ParentLink} (own : relation.link = .parent link)
    (ready : ∀ target, targetOf context.graph relation linked.resource = .ok target →
      work.Ready target.table (seeks target operation linked))
    (held : work.records = [(number, record)]) (fresh : number < work.next) (flat : linked.relations = [])
    (ran : (writeEntry context owner number relation (.mk operation [linked])).runOn work = (.ok results, after)) :
    ∃ target related row key, targetOf context.graph relation linked.resource = .ok target ∧ results = [related] ∧
      Brings target (seeks target operation linked) work.database after.database related row ∧
      after.records = [(number, record.setAll
        (parentLink link (if operation = .detach then none else some (key, target))))] ∧
      (operation ≠ .detach → ∀ value, related.attributes.lookup link.ownerKey = some value → key = value) := by
  have none : Record.Quiet [] number := ⟨by simp, by simp, by simp⟩
  rw [writeEntry, own] at ran
  dsimp only at ran
  split at ran
  · cases ran
  rw [bind_runOn, get_runOn] at ran
  dsimp only at ran
  obtain ⟨_, last, wrote, ended⟩ := bind_eq_ok.1 ran
  cases ended
  rw [writeParents] at wrote
  obtain ⟨target, leads, wrote⟩ := of_bind_eq_ok.1 wrote
  have ready := ready target leads
  split at wrote
  · next create =>
    obtain ⟨related, made, nested, wrote⟩ := bind_eq_ok.1 wrote
    obtain ⟨records, ⟨row, brings⟩, -⟩ := writeNode_brings ready (seeks_of_null · create)
      (fun known => seeks_of_known known operation) flat nested
    rw [bind_runOn, setValues_last none (records.trans held)] at wrote
    dsimp only at wrote
    rw [writeParents] at wrote
    cases wrote
    refine ⟨target, related, row, related.linkValue link.ownerKey, leads, rfl, brings, ?_, fun _ value told => ?_⟩
    · rw [if_neg (by rw [create]; decide)]
      simp [fresh]
    · rw [WriteResult.linkValue, told, Option.getD_some]
  · next other =>
    have looked := seeks_of_ne other target linked
    obtain ⟨found, middle, sought, wrote⟩ := bind_eq_ok.1 wrote
    obtain ⟨row, found, alone, rfl, took, same, shows, proper⟩ := findLinked_eq_ok_of_ready (looked ▸ ready) sought
    have there : middle.records.lookup work.next = some found := took.records ▸ ready.quiet.lookup_last found
    have mine : middle.records.lookup number = some record := by
      rw [took.records, held]
      simp
    rw [bind_runOn, replace_none] at wrote
    dsimp only at wrote
    rw [bind_runOn, record_runOn there] at wrote
    dsimp only at wrote
    rw [bind_runOn, resultOf_runOn _ _ _ there] at wrote
    dsimp only at wrote
    rw [bind_runOn, setValues_runOn mine] at wrote
    dsimp only at wrote
    rw [writeParents] at wrote
    cases wrote
    have brings := brings_of_found shows same ready.orderly proper (looked ▸ alone) target.name operation.name
      (found.value target.key) []
    refine ⟨target, _, row, found.value link.ownerKey, leads, rfl, took.database ▸ brings, ?_, fun _ value told => ?_⟩
    · have apart : work.next ≠ number := (Nat.ne_of_lt fresh).symm
      simp only [took.records, held]
      simp [fresh, apart]
      rfl
    · rw [Record.value, Record.value?_of_inOrder told, Option.getD_some]

end Mutation

end ResourceApi
