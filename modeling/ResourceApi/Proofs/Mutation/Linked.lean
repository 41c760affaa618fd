import ResourceApi.Proofs.Mutation.Performed
import ResourceApi.Proofs.Mutation.Related
import ResourceApi.Proofs.Relation.BroughtIn

/-!
Links that are written and read. A record that was linked to another one by a request is among the records that queries
bring in for that one through the same relation, and one that was unlinked is not.
-/

namespace ResourceApi

open Outcome

/-! ## Columns of links -/

/-- Whether a column refers to a key: both are there, and of one type. -/
def Table.Refers (table : Table) (column : String) (other : Table) (key : String) : Prop :=
  ∃ first second, table.column? column = some first ∧ other.column? key = some second ∧ first.type = second.type

/-- Whether a column can tell the type of a record beside the column that refers to it. -/
structure Table.CanTell (table : Table) (column beside : String) (morphAlias : Json) : Prop where
  apart : column ≠ beside
  textual : ∃ found, table.column? column = some found ∧ found.type = .string
  number : morphAlias ≠ .double .notANumber

namespace Link

/-- Whether the columns of a link are of the types of the keys that they refer to, and the one that tells a type is a
column of texts of its own. -/
def Refers (owner target : Resource) : Link → Prop
  | .child link => target.table.Refers link.foreignKey owner.table link.localKey ∧
      ∀ column, link.morphType = some column → target.table.CanTell column link.foreignKey owner.morphAlias
  | .parent link => owner.table.Refers link.foreignKey target.table link.ownerKey ∧
      ∀ column, link.morphType = some column → owner.table.CanTell column link.foreignKey target.morphAlias
  | .pivot link => link.table.Refers link.foreignKey owner.table link.localKey ∧
      link.table.Refers link.relatedKey target.table link.targetKey ∧
      ∀ entry, link.morph = some entry → link.table.CanTell entry.1 link.foreignKey
        (if entry.2 = .parent then owner.morphAlias else target.morphAlias)
  | .through _ => True

/-- Whether the keys that the columns of a link refer to are known. -/
def IsKeyed (parent row : Row) : Link → Prop
  | .child link => parent.cell link.localKey ≠ .null
  | .parent link => row.cell link.ownerKey ≠ .null
  | .pivot link => parent.cell link.localKey ≠ .null ∧ row.cell link.targetKey ≠ .null
  | .through _ => True

/-- Whether the rows between linked records, if there are any, stand in a table of their own. -/
def IsApart (owner target : Resource) : Link → Prop
  | .pivot link => link.table.name ≠ owner.table.name ∧ link.table.name ≠ target.table.name
  | _ => True

end Link

/-! ## Requests -/

namespace Mutation

open Job

/-- A node that is found by its key, takes no other values, and goes through one relation. -/
structure Alone (owner : Resource) (relation : Relation) (entry : Entry) (key : Json) (node : Node) : Prop where
  known : owner.relation? relation.name = some relation
  named : Members.get? node.attributes owner.key = some key
  notNull : key.isNull = false
  nothing : ∀ name ∈ owner.fillable, name ≠ owner.key → Members.get? node.attributes name = none
  through : node.relations = [(relation.name, entry)]

/-- Whether a node below a relation is about another record than the one of a key: a new one, or one that is there. -/
def NamesOther (owner target : Resource) (operation : Operation) (linked : Node) (key : Json) (database : Database) : Prop :=
  (operation = .create ∧ ((Members.get? linked.attributes target.key).getD .null).isNull = true) ∨
    ∃ row ∈ database.rows target.table.name,
      target.isFor ((Members.get? linked.attributes target.key).getD .null) false row = true ∧
        (target.table.name = owner.table.name → owner.isFor key false row = false)

/-- How the record of a node is in hand alone, for a row that gave way to another one. -/
structure InHand (owner : Resource) (first : Database) (work : Work) (number : Nat) (record : Record) (own now : Row) :
    Prop where
  records : work.records = [(number, record)]
  fresh : number < work.next
  written : record.IsWritten
  table : record.table = owner.table
  stands : record.Stands now
  replaces : first.Replaces work.database owner.table own now

section Requests

variable {context : Context} {work after : Work} {number : Nat} {record : Record} {owner target : Resource}
  {relation : Relation} {linked node : Node} {operation : Operation} {key : Json} {first : Database} {own now : Row}
  {results : List WriteResult}

namespace InHand

variable (inHand : InHand owner first work number record own now) (inside : own ∈ first.rows owner.table.name)
  (found : owner.isFor key false own = true) (keyed : owner.table.keyColumns ≠ [])
include inHand inside found keyed

/-- A row that the key of the record does not name is there still, and not that of the record. -/
private theorem stays {other : Row} (there : other ∈ first.rows target.table.name)
    (apart : target.table.name = owner.table.name → owner.isFor key false other = false) :
    other ∈ work.database.rows target.table.name ∧ (target.table.name = owner.table.name → other ≠ now) := by
  by_cases same : target.table.name = owner.table.name
  · have unlike : other ≠ own := by
      rintro rfl
      rw [apart same] at found
      cases found
    obtain ⟨still, distinct⟩ := inHand.replaces.mem_other keyed inside (same ▸ there) unlike
    exact ⟨same ▸ still, fun _ => distinct⟩
  · rw [inHand.replaces.touched.rows_other same]
    exact ⟨there, fun equal => absurd equal same⟩

omit inside found keyed in
theorem bears {name : String} {column : Column} (there : owner.table.column? name = some column) :
    column.Bears (record.value name) (now.cell name) := by
  obtain ⟨listed, rfl⟩ := Table.mem_of_column? there
  exact inHand.stands.bears column (inHand.table ▸ listed)

/-- Where a further record is named that is another one, work is ready for it. -/
theorem ready (orderly : first.Orderly target.table) (keyedToo : target.table.keyColumns ≠ [])
    (proper : ∀ row ∈ first.rows target.table.name, target.table.IsProper row)
    (other : NamesOther owner target operation linked key first) :
    work.Ready target.table (seeks target operation linked) := by
  refine .of_stands inHand.records inHand.fresh inHand.written inHand.stands (inHand.table ▸ inHand.replaces.orderly)
    (inHand.replaces.orderly_of orderly) keyedToo ?_ fun row alone => ?_
  · rw [inHand.table]
    exact inHand.replaces.mem inside
  rw [inHand.table]
  obtain ⟨-, sought⟩ := List.mem_filter.1 (alone ▸ List.mem_singleton_self row)
  rcases other with ⟨create, null⟩ | ⟨named, there, met, apart⟩
  · rw [seeks_of_null null create] at sought
    cases sought
  · obtain ⟨still, distinct⟩ := inHand.stays inside found keyed there apart
    obtain rfl : named = row := by
      have sought : seeks target operation linked named = true := by
        simp only [seeks, Bool.and_eq_true] at sought ⊢
        exact ⟨sought.1, met⟩
      simpa [alone] using List.mem_filter.2 ⟨still, sought⟩
    exact ⟨proper named there, fun equal => distinct equal.symm⟩

/-- A record that is brought about as another one is not that in hand. -/
theorem not_sought {database : Database} {related : WriteResult} {row : Row}
    (brings : Brings target (seeks target operation linked) work.database database related row)
    (other : NamesOther owner target operation linked key first) (same : target.table.name = owner.table.name) :
    seeks target operation linked now = false := by
  rcases other with ⟨create, null⟩ | ⟨named, there, met, apart⟩
  · exact seeks_of_null null create now
  · obtain ⟨still, distinct⟩ := inHand.stays inside found keyed there apart
    cases create : operation == .create && ((Members.get? linked.attributes target.key).getD .null).isNull with
    | true => simp [seeks, create]
    | false =>
      have sought : seeks target operation linked named = true := by simp [seeks, create, met]
      exact brings.not_looked (same ▸ inHand.replaces.mem inside) still sought (distinct same)

end InHand

variable {entry : Entry} {taken : Work}

theorem mem_given (alone : Alone owner relation entry key node) {value : String × Value}
    (listed : value ∈ given owner node.attributes) : value = (owner.key, .plain key) := by
  obtain ⟨name, fillable, made⟩ := List.mem_filterMap.1 listed
  obtain ⟨j, told, rfl⟩ := Option.map_eq_some_iff.1 made
  by_cases same : name = owner.key
  · subst same
    cases alone.named.symm.trans told
    rfl
  · rw [alone.nothing name fillable same] at told
    cases told

/-- The record of a node is taken in hand. -/
theorem inHand_of_take (empty : work.records = []) (notNull : key.isNull = false) (keeps : work.database.Keeps owner.table)
    (keyed : owner.table.keyColumns ≠ []) (proper : ∀ row ∈ work.database.rows owner.table.name, owner.table.IsProper row)
    (taking : (takeRecord context owner key).runOn work = (.ok number, taken)) :
    ∃ own record, (work.database.rows owner.table.name).filter (owner.isFor key false) = [own] ∧
      InHand owner work.database taken number record own own ∧ record.Shows own ∧ taken.database = work.database := by
  have ready : work.Ready owner.table (owner.isFor key false) := by
    refine ⟨⟨by simp [empty], by simp [empty], by simp [empty]⟩, keeps.orderly, keyed, fun row alone => ?_, by simp [empty]⟩
    exact proper row (List.mem_of_mem_filter (alone ▸ List.mem_singleton_self row))
  obtain ⟨own, record, alone, rfl, took, same, shows, properOwn⟩ := takeRecord_of_ready notNull ready taking
  have nodup : record.table.columnNames.Nodup := same ▸ keeps.nodup
  rw [← same] at properOwn
  refine ⟨own, record, alone, ⟨?_, ?_, ⟨shows.kept, shows.changes_of_proper nodup properOwn⟩, same,
    shows.stands nodup properOwn, ?_⟩, shows, took.database⟩
  · rw [took.records, empty, List.nil_append]
  · rw [took.next]
    exact Nat.lt_succ_self _
  · rw [took.database]
    exact .refl keeps.orderly own

/-- Whether a text is given as the key of a column of floats that clients may write: the column may take it for another
number than the storage does. -/
def Ambiguous (owner : Resource) (key : Json) : Prop :=
  owner.key ∈ owner.fillable ∧ (owner.table.ref 0 0 owner.key).type = .float ∧ ∃ s, key = .text s

section Roots

variable (keeps : work.database.Keeps owner.table) (keyed : owner.table.keyColumns ≠ [])
  (proper : ∀ row ∈ work.database.rows owner.table.name, owner.table.IsProper row) (empty : work.records = [])
  (alone : Alone owner relation entry key node)

/-- A key that finds a row is the same as itself. -/
private theorem same_self_of_isFor (full : owner.table.fullRow own = own) (notNull : key.isNull = false)
    (found : owner.isFor key false own = true) : key.same key = true := by
  have known : key ≠ .null := by
    rintro rfl
    exact absurd notNull (by decide)
  rw [Resource.isFor, Bool.and_eq_true] at found
  obtain ⟨column, there⟩ := Table.column?_of_cell_ne full (Table.ne_null_of_holds known found.1)
  obtain ⟨taken, some, -⟩ := Table.order_of_holds there known found.1
  exact Json.same_self some taken

/-- What a record in hand knows of a row that it was written to is held by the row. -/
private theorem holds_of_set {new : Record} (alone : Alone owner relation entry key node) (plain : ¬Ambiguous owner key)
    (orderly : first.Orderly owner.table) (after : now ∈ first.rows owner.table.name) (shows : record.Shows own)
    (same : record.table = owner.table) (full : owner.table.fullRow own = own) (proper : owner.table.IsProper own)
    (found : owner.isFor key false own = true)
    (values : new.values = (record.setAll (given owner node.attributes)).values) (sameToo : new.table = owner.table)
    (stands : new.Stands now) {name : String} (known : now.cell name ≠ .null) :
    owner.table.holds now name (new.value name).compared = true := by
  have nodup : record.table.columnNames.Nodup := same ▸ orderly.nodup
  obtain ⟨column, there⟩ := Table.column?_of_cell_ne (orderly.full now after) known
  obtain ⟨listed, rfl⟩ := Table.mem_of_column? there
  have bears := stands.bears column (sameToo ▸ listed)
  have before := shows.bears nodup (same ▸ proper) (same ▸ listed)
  have value : new.value? column.name =
      ((given owner node.attributes).reverse.lookup column.name).or (record.value? column.name) := by
    rw [← Record.value?_setAll, Record.value?, values]
    rfl
  obtain ⟨holds, place⟩ : owner.table.holds own column.name (new.value column.name).compared = true ∧
      (now.cell column.name).place = (own.cell column.name).place := by
    cases taken : (given owner node.attributes).reverse.lookup column.name with
    | none =>
      rw [taken, Option.none_or] at value
      have still : new.value column.name = record.value column.name := by rw [Record.value, Record.value, value]
      rw [still] at bears ⊢
      have knownToo : own.cell column.name ≠ .null := before.ne_null bears rfl known
      have holds := (shows.holds_value nodup (same ▸ full) (same ▸ listed) (proper column listed).2 knownToo).2
      rw [same] at holds
      exact ⟨holds, bears.place_eq before rfl⟩
    | some given =>
      have inside := List.mem_reverse.1 (mem_of_lookup taken)
      obtain ⟨named, rfl⟩ := Prod.mk.inj (mem_given alone inside)
      rw [taken, Option.some_or] at value
      have still : new.value column.name = .plain key := by rw [Record.value, value, Option.getD_some]
      rw [still] at bears ⊢
      have holds : owner.table.holds own column.name key = true := by
        rw [Resource.isFor, Bool.and_eq_true, ← named] at found
        exact found.1
      have notNull : key ≠ .null := by
        rintro rfl
        exact absurd alone.notNull (by decide)
      refine ⟨holds, Column.Bears.place_of_holds there (proper column listed).1 notNull holds bears fun float s text => ?_⟩
      refine plain ⟨?_, by rw [← named, Table.type_ref there, float], s, text⟩
      obtain ⟨other, fillable, made⟩ := List.mem_filterMap.1 inside
      obtain ⟨_, -, entry⟩ := Option.map_eq_some_iff.1 made
      rw [← named, ← (Prod.mk.inj entry).1]
      exact fillable
  rw [← holds]
  exact Table.holds_congr there there rfl bears.isStored before.isStored bears.isNumber before.isNumber place

/-- The values that a node gives to its record are all for its key. -/
private theorem lookup_given (alone : Alone owner relation entry key node) {name : String}
    (other : owner.key ∈ owner.fillable → name ≠ owner.key) : (given owner node.attributes).reverse.lookup name = none := by
  cases taken : (given owner node.attributes).reverse.lookup name with
  | none => rfl
  | some value =>
    have inside := List.mem_reverse.1 (mem_of_lookup taken)
    obtain ⟨fillable, listed, made⟩ := List.mem_filterMap.1 inside
    obtain ⟨_, -, told⟩ := Option.map_eq_some_iff.1 made
    have named := (Prod.mk.inj (mem_given alone inside)).1
    rw [(Prod.mk.inj told).1, named] at listed
    exact absurd named (other listed)

include keeps keyed proper empty alone

/-- Writing a node that goes through a relation whose link the record does not keep: the record is found and written, then
the relation is. -/
theorem writeNode_below {written : WriteResult} (below : relation.kind.linkPlace ≠ .parent)
    (ran : (writeNode context owner [] node).runOn work = (.ok written, after)) :
    ∃ own now record number flushed results last,
      (work.database.rows owner.table.name).filter (owner.isFor key false) = [own] ∧
      InHand owner work.database flushed number record own now ∧
      (¬Ambiguous owner key → ∀ name, now.cell name ≠ .null →
        owner.table.holds now name (record.value name).compared = true) ∧
      (writeEntry context owner number relation entry).runOn flushed = (.ok results, last) ∧
      (last.records = flushed.records → after.database = last.database ∧ written.Tells owner.table now ∧
        ∃ operation key attributes, written = .mk owner.name operation key attributes [(relation.name, results)]) := by
  obtain ⟨number, taken, above, before, set, flushed, below', last, ended, taking, wroteAbove, setGiven, wrote, wroteBelow,
    shown, rfl⟩ := writeNode_steps ran
  rw [alone.named, Option.getD_some] at taking shown
  obtain ⟨own, record, found, inHand, shows, database⟩ := inHand_of_take empty alone.notNull keeps keyed proper taking
  rw [alone.through] at wroteAbove wroteBelow
  have elsewhere : (relation.kind.linkPlace == .parent) = false := by simpa using below
  have skipped := writeEntries_single alone.known wroteAbove
  have entries := writeEntries_single alone.known wroteBelow
  rw [elsewhere, if_neg (by simp)] at skipped
  rw [elsewhere, if_pos rfl] at entries
  obtain ⟨rfl, rfl⟩ := skipped
  obtain ⟨results, entered, rfl⟩ := entries
  obtain ⟨inside, met⟩ := List.mem_filter.1 (found ▸ List.mem_singleton_self own)
  have quiet : Record.Quiet [] number := ⟨by simp, by simp, by simp⟩
  rw [List.append_nil, setValues_last quiet (inHand.records.trans rfl)] at setGiven
  cases setGiven
  have same := inHand.table
  obtain ⟨now, changed, replaces, left, sameToo, values, stands, settled⟩ := flush_last wrote quiet rfl shows
    (same ▸ database ▸ keeps.orderly) (same ▸ keyed) (by rw [same]; exact database ▸ inside) (same ▸ proper own inside)
  rw [same] at replaces
  dsimp only at replaces
  rw [database] at replaces
  have alike : ∀ entry ∈ given owner node.attributes, entry.2.same entry.2 = true := by
    intro entry listed
    obtain rfl := mem_given alone listed
    exact same_self_of_isFor (keeps.full own inside) alone.notNull met
  have records : flushed.records = [(number, changed)] := by rw [left]; rfl
  have fresh : number < flushed.next := by rw [left]; exact inHand.fresh
  refine ⟨own, now, changed, number, flushed, results, last, found,
    ⟨records, fresh, settled alike, sameToo.trans same, stands, replaces⟩, ?_, entered, fun still => ?_⟩
  · intro plain name known
    exact holds_of_set alone plain replaces.orderly (replaces.mem inside) shows same (keeps.full own inside)
      (proper own inside) met values (sameToo.trans same) stands known
  · have there : last.records.lookup number = some changed := by rw [still, records]; simp
    rw [resultOf_runOn _ _ _ there] at shown
    cases shown
    refine ⟨rfl, ?_, _, _, _, rfl⟩
    rw [← same, ← sameToo]
    exact stands.tells (by rw [sameToo, same]; exact keeps.nodup)

/-- Writing a node that goes through a relation whose link its record keeps: the record is found, the relation is written,
and then the record with the values of the link. -/
theorem writeNode_above {written : WriteResult} (above : relation.kind.linkPlace = .parent)
    (ran : (writeNode context owner [] node).runOn work = (.ok written, after)) :
    ∃ own record number taken results before,
      (work.database.rows owner.table.name).filter (owner.isFor key false) = [own] ∧
      InHand owner work.database taken number record own own ∧ record.Shows own ∧ taken.database = work.database ∧
      (writeEntry context owner number relation entry).runOn taken = (.ok results, before) ∧
      ∀ values, before.records = [(number, record.setAll values)] → before.database.Orderly owner.table →
        own ∈ before.database.rows owner.table.name →
        ∃ (now : Row) (changed : Record), before.database.Replaces after.database owner.table own now ∧
          changed.table = owner.table ∧
          changed.values = (record.setAll (values ++ given owner node.attributes)).values ∧ changed.Stands now ∧
          written.Tells owner.table now ∧
          ∃ operation key attributes, written = .mk owner.name operation key attributes [(relation.name, results)] := by
  obtain ⟨number, taken, above', before, set, flushed, below, last, ended, taking, wroteAbove, setGiven, wrote, wroteBelow,
    shown, rfl⟩ := writeNode_steps ran
  rw [alone.named, Option.getD_some] at taking shown
  obtain ⟨own, record, found, inHand, shows, database⟩ := inHand_of_take empty alone.notNull keeps keyed proper taking
  rw [alone.through] at wroteAbove wroteBelow
  have here : (relation.kind.linkPlace == .parent) = true := by simpa using above
  have entries := writeEntries_single alone.known wroteAbove
  have skipped := writeEntries_single alone.known wroteBelow
  rw [here, if_pos rfl] at entries
  rw [here, if_neg (by simp)] at skipped
  obtain ⟨rfl, rfl⟩ := skipped
  obtain ⟨results, entered, rfl⟩ := entries
  refine ⟨own, record, number, taken, results, before, found, inHand, shows, database, entered,
    fun values records orderly inside => ?_⟩
  have quiet : Record.Quiet [] number := ⟨by simp, by simp, by simp⟩
  rw [List.append_nil, setValues_last quiet (records.trans rfl), ← Record.setAll_append] at setGiven
  cases setGiven
  have same := inHand.table
  obtain ⟨now, changed, replaces, left, sameToo, known, stands, -⟩ := flush_last wrote quiet rfl shows (same ▸ orderly)
    (same ▸ keyed) (same ▸ inside) (same ▸ proper own (List.mem_of_mem_filter (found ▸ List.mem_singleton_self own)))
  rw [same] at replaces
  have there : last.records.lookup number = some changed := by rw [left]; simp
  rw [resultOf_runOn _ _ _ there] at shown
  cases shown
  refine ⟨now, changed, replaces, sameToo.trans same, known, stands, ?_, _, _, _, by rw [List.append_nil]⟩
  rw [← same, ← sameToo]
  exact stands.tells (by rw [sameToo, same]; exact keeps.nodup)

end Roots

/-- How a record that was linked or unlinked is read through the relation afterwards: linked, it is brought in for the other
one as long as the keys of the link are known and it is not deleted, and unlinked it is not. -/
structure Reads (owner target : Resource) (relation : Relation) (operation : Operation) (after : Database)
    (related : WriteResult) (parent row : Row) (brought : List Row) : Prop where
  inside : (operation = .detach → relation.link.IsApart owner target) →
    parent ∈ after.rows owner.table.name ∧ row ∈ after.rows target.table.name
  linked : operation ≠ .detach → relation.link.IsKeyed parent row →
    (∀ name, related.attributes.lookup name ≠ some (.plain (.double .notANumber))) → target.isLive row = true → row ∈ brought
  unlinked : operation = .detach → row ∉ brought

/-- The values by which one record refers to another: its key, and its type where a column tells it. -/
private theorem lookup_link {column : String} {morph : Option String} (value type : Value)
    (apart : ∀ other, morph = some other → other ≠ column) :
    ((column, value) :: morph.toList.map fun other => (other, type)).reverse.lookup column = some value ∧
      ∀ other, morph = some other →
        ((column, value) :: morph.toList.map fun other => (other, type)).reverse.lookup other = some type := by
  cases morph with
  | none => exact ⟨by simp, fun _ told => by cases told⟩
  | some mark =>
    have unlike : (column == mark) = false := by simpa using (apart mark rfl).symm
    refine ⟨by simp [List.lookup_cons, unlike], fun other told => ?_⟩
    cases told
    simp

/-- A record that is to refer to no other one is given null. -/
private theorem lookup_unlinked (column : String) (morph : Option String) :
    ((column, Value.null) :: morph.toList.map fun other => (other, .null)).reverse.lookup column = some .null := by
  cases morph with
  | none => simp
  | some mark => cases same : column == mark <;> simp [List.lookup_cons, same]

/-- A column that was given a value that a column of its type bears, and that is not null, bears it. -/
private theorem bears_of_given {table : Table} {name : String} {first second : Column} {value : Value} {cell other : Cell}
    (holder : second.Bears value other) (known : other ≠ .null) (type : first.type = second.type)
    (there : table.column? name = some first)
    (given : ∃ column made, table.column? name = some column ∧ value.cellFor column = .ok made ∧
      (made.stored column.type.affinity ≠ .null ∨ table.isPlaceColumn column = false →
        cell = made.stored column.type.affinity)) : first.Bears value cell := by
  obtain ⟨column, made, found, written, kept⟩ := given
  cases there.symm.trans found
  refine .inl ⟨made, written, kept (.inl fun none => known ?_)⟩
  rw [Value.cellFor_congr type] at written
  have place := holder.place_of_written written
  rw [← type, none] at place
  exact Cell.eq_null_of_place holder.isNumber place.symm

private theorem mem_given_related {link : PivotLink} {value : Value} {extra : Members} :
    (link.relatedKey, value) ∈ (JoinRows.ofRecord owner target link record).given value extra := by
  refine List.mem_append_right _ ?_
  rw [JoinRows.link_ofRecord]
  exact List.mem_cons_self

/-- The values by which a row of a join table refers to a record: its key, and its type where a column tells it. -/
private theorem owner_ofRecord {link : PivotLink} (owner target : Resource) (record : Record)
    (apart : ∀ entry, link.morph = some entry → entry.1 ≠ link.foreignKey) :
    (JoinRows.ofRecord owner target link record).owner = (link.foreignKey, record.value link.localKey) ::
      link.morph.toList.map fun entry =>
        (entry.1, .plain (if entry.2 = .parent then owner.morphAlias else target.morphAlias)) := by
  unfold JoinRows.ofRecord
  cases morph : link.morph with
  | none => rfl
  | some entry =>
    obtain ⟨column, side⟩ := entry
    have unlike : (link.foreignKey == column) = false := by simpa using (apart _ morph).symm
    simp [Record.put, unlike]

section Between

variable {link : PivotLink} {row between : Row} {value : Value} (refers : (Link.pivot link).Refers owner target)
  (nodup : link.table.columnNames.Nodup)
  (holder : ∀ column, owner.table.column? link.localKey = some column →
    column.Bears (record.value link.localKey) (now.cell link.localKey))
include refers nodup holder

/-- A row of a join table that was given the keys of two records refers to both of them, and tells the type. -/
private theorem agrees_of_given {extra : Members} (ownerAlias : owner.morphAlias ≠ .null)
    (targetAlias : target.morphAlias ≠ .null)
    (holderToo : ∀ column, target.table.column? link.targetKey = some column →
      column.Bears value (row.cell link.targetKey))
    (known : now.cell link.localKey ≠ .null) (knownToo : row.cell link.targetKey ≠ .null)
    (given : ∀ entry ∈ (JoinRows.ofRecord owner target link record).given value extra, ∃ column cell,
      link.table.column? entry.1 = some column ∧ entry.2.cellFor column = .ok cell ∧
      (cell.stored column.type.affinity ≠ .null ∨ link.table.isPlaceColumn column = false →
        between.cell entry.1 = cell.stored column.type.affinity)) :
    link.table.agrees between link.foreignKey owner.table now link.localKey = true ∧
      link.table.agrees between link.relatedKey target.table row link.targetKey = true ∧
      ∀ entry, link.morph = some entry → link.table.holds between entry.1
        (if entry.2 = .parent then owner.morphAlias else target.morphAlias) = true := by
  obtain ⟨⟨foreign, localColumn, here, also, type⟩, ⟨relating, targetColumn, hereToo, alsoToo, typeToo⟩, tells⟩ := refers
  have ofRecord := owner_ofRecord owner target record fun entry marked => (tells entry marked).apart
  refine ⟨?_, ?_, fun entry marked => ?_⟩
  · refine Table.agrees_of_bears here also type ?_ (holder _ also) known
    exact bears_of_given (holder _ also) known type here (given _ (List.mem_append_left _ (ofRecord ▸ List.mem_cons_self)))
  · refine Table.agrees_of_bears hereToo alsoToo typeToo ?_ (holderToo _ alsoToo) knownToo
    exact bears_of_given (holderToo _ alsoToo) knownToo typeToo hereToo (given _ mem_given_related)
  · obtain ⟨-, ⟨mark, there, textual⟩, number⟩ := tells entry marked
    have listed : (entry.1, Value.plain (if entry.2 = .parent then owner.morphAlias else target.morphAlias)) ∈
        (JoinRows.ofRecord owner target link record).given value extra := by
      refine List.mem_append_left _ ?_
      rw [ofRecord, marked]
      simp
    obtain ⟨column, made, found, written, kept⟩ := given _ listed
    cases there.symm.trans found
    have unplaced : link.table.isPlaceColumn mark = false := by
      refine Bool.eq_false_iff.2 fun placed => ?_
      have integer := Table.type_of_isPlaceColumn nodup (Table.mem_of_column? there).1 placed
      rw [textual] at integer
      cases integer
    refine Table.holds_of_bears there textual ?_ number (.inl ⟨made, written, kept (.inr unplaced)⟩)
    split
    · exact ownerAlias
    · exact targetAlias

/-- A row of a join table that links two records is one of those that are removed when the two are unlinked. -/
private theorem owns_of_agrees (full : link.table.fullRow between = between)
    (owned : link.table.agrees between link.foreignKey owner.table now link.localKey = true)
    (reaches : link.table.agrees between link.relatedKey target.table row link.targetKey = true)
    (typed : ∀ entry, link.morph = some entry → link.table.holds between entry.1
      (if entry.2 = .parent then owner.morphAlias else target.morphAlias) = true)
    (holds : owner.table.holds now link.localKey (record.value link.localKey).compared = true)
    (storedToo : ∀ column, target.table.column? link.targetKey = some column →
      Cell.IsStored column.type.affinity (row.cell link.targetKey))
    (numberToo : row.cell link.targetKey ≠ .real .notANumber) (notNull : value.compared ≠ .null)
    (holdsToo : target.table.holds row link.targetKey value.compared = true) :
    (JoinRows.ofRecord owner target link record).owns between = true ∧
      (JoinRows.ofRecord owner target link record).leads [value] between = true := by
  obtain ⟨⟨foreign, localColumn, here, also, type⟩, ⟨relating, targetColumn, hereToo, alsoToo, typeToo⟩, tells⟩ := refers
  have ofRecord := owner_ofRecord owner target record fun entry marked => (tells entry marked).apart
  have stored {name : String} {column : Column} (there : link.table.column? name = some column) :
      Cell.IsStored column.type.affinity (between.cell name) := by
    obtain ⟨listed, rfl⟩ := Table.mem_of_column? there
    exact Table.isStored_of_full nodup full listed
  constructor
  · have bears := holder _ also
    rw [JoinRows.owns, JoinRows.link_ofRecord, ofRecord, List.all_cons, Bool.and_eq_true, List.all_map, List.all_eq_true]
    refine ⟨Table.holds_of_agrees here also type (stored here) bears.isStored bears.isNumber owned holds, ?_⟩
    intro entry marked
    exact typed entry (Option.mem_toList.1 marked)
  · rw [JoinRows.leads_singleton, JoinRows.column, JoinRows.link_ofRecord, ← Table.holds_compare notNull]
    exact Table.holds_of_agrees hereToo alsoToo typeToo (stored hereToo) (storedToo _ alsoToo) numberToo reaches holdsToo

end Between

section Entries

variable {last : Work} (kept : Kept context.graph first)
  (proper : ∀ resource ∈ context.graph.resources, ∀ row ∈ first.rows resource.table.name, resource.table.IsProper row)
  (aliases : ∀ resource ∈ context.graph.resources, resource.morphAlias ≠ .null)
  (inHand : InHand owner first work number record own now) (inside : own ∈ first.rows owner.table.name)
  (found : owner.isFor key false own = true) (keyed : owner.table.keyColumns ≠ [])
  (other : ∀ target, targetOf context.graph relation linked.resource = .ok target →
    NamesOther owner target operation linked key first)
  (flat : linked.relations = [])
  (ran : (writeEntry context owner number relation (.mk operation [linked])).runOn work = (.ok results, last))
include kept proper aliases inHand inside found keyed other flat ran

/-- A link that the related record keeps is read as it was written. -/
theorem reads_child {link : ChildLink} (kind : relation.link = .child link) (below : relation.kind.linkPlace ≠ .parent)
    (declared : owner ∈ context.graph.resources) (all : link.pick = none)
    (refers : ∀ target, targetOf context.graph relation linked.resource = .ok target → relation.link.Refers owner target) :
    ∃ target related row, targetOf context.graph relation linked.resource = .ok target ∧ results = [related] ∧
      last.records = work.records ∧ related.Tells target.table row ∧
      Reads owner target relation operation last.database related now row
        ((relation.link.related last.database.rows owner target now).map (·.getD 0 [])) := by
  have there : work.records.lookup number = some record := by rw [inHand.records]; simp
  have named {target : Resource} (leads : context.graph.target relation = .ok target) :
      targetOf context.graph relation linked.resource = .ok target := targetOf_of_target leads below
  obtain ⟨target, related, row, leads, rfl, records, brings, told⟩ := writeEntry_child_brings kind
    (fun target leads => inHand.ready inside found keyed (kept.keeps target (Graph.mem_of_target leads)).orderly
      (kept.keyed target (Graph.mem_of_target leads)) (proper target (Graph.mem_of_target leads)) (other target (named leads)))
    there flat ran
  have told {name : String} {column : Column} {value : Value} (there : target.table.column? name = some column) := by
    obtain ⟨listed, same⟩ := Table.mem_of_column? there
    exact same ▸ told column listed value
  refine ⟨target, related, row, named leads, rfl, records, brings.tells, ?_⟩
  have still := brings.stays_of (inHand.replaces.mem inside)
    (inHand.not_sought inside found keyed brings (other target (named leads)))
  refine ⟨fun _ => ⟨still.1, brings.inside⟩, fun linking known numbers live => ?_, fun detach brought => ?_⟩
  · obtain ⟨⟨foreign, localColumn, here, also, type⟩, tells⟩ := kind ▸ refers target (named leads)
    rw [kind] at known ⊢
    change now.cell link.localKey ≠ .null at known
    simp only [if_neg linking] at told
    obtain ⟨value, morph⟩ := lookup_link (record.value link.localKey) (.plain owner.morphAlias)
      fun column typed => (tells column typed).apart
    have holder := inHand.bears also
    obtain ⟨notNull, number⟩ := holder.ne_of_known known
    refine Link.mem_related_child brings.inside live ?_ (fun column typed => ?_) all
    · have is := told here value fun _ => notNull
      exact Table.agrees_of_bears here also type (brings.tells.bears here is number) holder known
    · obtain ⟨-, ⟨mark, there, textual⟩, number⟩ := tells column typed
      have some := aliases owner declared
      have is := told there (morph column typed) fun _ => Value.isNull_plain some
      exact Table.holds_of_bears there textual some number (brings.tells.bears there is (by simpa using number))
  · rw [kind] at brought
    have agrees := Link.of_mem_related_child brought
    have known : row.cell link.foreignKey ≠ .null := by
      simp only [Table.agrees, Bool.and_eq_true, bne_iff_ne] at agrees
      exact agrees.1.1
    obtain ⟨foreign, here⟩ := Table.column?_of_cell_ne (brings.orderly.full row brings.inside) known
    have is : related.attributes.lookup link.foreignKey = some .null := by
      refine told here ?_ (by simp [detach])
      rw [if_pos detach]
      simpa [childLink, Function.comp_def] using lookup_unlinked link.foreignKey link.morphType
    exact known ((brings.tells.bears here is fun none => by cases none).eq_null (.inl rfl))

/-- A link that rows of a join table keep is read as it was written. -/
theorem reads_pivot {link : PivotLink} (kind : relation.link = .pivot link) (below : relation.kind.linkPlace ≠ .parent)
    (declared : owner ∈ context.graph.resources) (notSync : operation ≠ .sync) (joined : first.Orderly link.table)
    (holds : operation = .detach → ∀ name, now.cell name ≠ .null →
      owner.table.holds now name (record.value name).compared = true)
    (refers : ∀ target, targetOf context.graph relation linked.resource = .ok target → relation.link.Refers owner target) :
    ∃ target related row, targetOf context.graph relation linked.resource = .ok target ∧ results = [related] ∧
      last.records = work.records ∧ related.Tells target.table row ∧
      Reads owner target relation operation last.database related now row
        ((relation.link.related last.database.rows owner target now).map (·.getD 0 [])) := by
  have there : work.records.lookup number = some record := by rw [inHand.records]; simp
  have named {target : Resource} (leads : context.graph.target relation = .ok target) :
      targetOf context.graph relation linked.resource = .ok target := targetOf_of_target leads below
  obtain ⟨target, related, row, value, middle, leads, rfl, records, ⟨brings, touched, detached, attached⟩⟩ :=
    writeEntry_pivot_brings kind notSync
      (fun target leads => inHand.ready inside found keyed (kept.keeps target (Graph.mem_of_target leads)).orderly
        (kept.keyed target (Graph.mem_of_target leads)) (proper target (Graph.mem_of_target leads)) (other target (named leads)))
      (inHand.replaces.orderly_of joined) there flat ran
  obtain ⟨still, -⟩ := brings.stays_of (inHand.replaces.mem inside)
    (inHand.not_sought inside found keyed brings (other target (named leads)))
  have refers : (Link.pivot link).Refers owner target := kind ▸ refers target (named leads)
  have between := brings.orderly_of (inHand.replaces.orderly_of joined)
  refine ⟨target, related, row, named leads, rfl, records, brings.tells, ?_⟩
  have stays (name : String) (row' : Row) (inside : row' ∈ middle.rows name)
      (other : operation = .detach → name ≠ link.table.name) : row' ∈ last.database.rows name := by
    by_cases same : name = link.table.name
    · by_cases detach : operation = .detach
      · exact absurd same (other detach)
      · obtain ⟨-, _, perm, -⟩ := attached detach
        rw [same] at inside ⊢
        exact perm.mem_iff.2 (List.mem_cons_of_mem _ inside)
    · rw [touched.rows_other same]
      exact inside
  refine ⟨fun apart => ?_, fun linking known numbers live => ?_, fun detach brought => ?_⟩
  · rw [kind] at apart
    exact ⟨stays _ _ still fun detach => (apart detach).1.symm, stays _ _ brings.inside fun detach => (apart detach).2.symm⟩
  · rw [kind] at known ⊢
    obtain ⟨told, row', perm, given⟩ := attached linking
    obtain ⟨known, knownToo⟩ := known
    have holderToo (column : Column) (also : target.table.column? link.targetKey = some column) :
        column.Bears value (row.cell link.targetKey) := by
      obtain ⟨toldKey, known'⟩ := brings.tells.told also knownToo
      obtain rfl := told _ known'
      exact brings.tells.bears also known' fun number => numbers _ (number ▸ known')
    obtain ⟨owned, reaches, typed⟩ := agrees_of_given refers joined.nodup (fun _ also => inHand.bears also)
      (aliases owner declared) (aliases target (Graph.mem_of_target leads)) holderToo known knownToo given
    exact Link.mem_related_pivot (stays _ _ brings.inside fun detach => absurd detach linking)
      (perm.mem_iff.2 List.mem_cons_self) live owned reaches typed
  · rw [kind] at brought
    obtain ⟨rfl, leading, left⟩ := detached detach
    obtain ⟨row', there, reaches, owned, typed⟩ := Link.of_mem_related_pivot brought
    rw [left] at there
    obtain ⟨there, spared⟩ := List.mem_filter.1 there
    have known : now.cell link.localKey ≠ .null ∧ row.cell link.targetKey ≠ .null := by
      simp only [Table.agrees, Bool.and_eq_true, bne_iff_ne] at owned reaches
      exact ⟨owned.1.2, reaches.1.2⟩
    obtain ⟨number, notNull, holdsToo⟩ := leading known.2
    have storedToo (column : Column) (also : target.table.column? link.targetKey = some column) :
        Cell.IsStored column.type.affinity (row.cell link.targetKey) := by
      obtain ⟨listed, same⟩ := Table.mem_of_column? also
      exact same ▸ Table.isStored_of_full brings.orderly.nodup (brings.orderly.full row brings.inside) listed
    obtain ⟨owns, leads⟩ := owns_of_agrees refers between.nodup (fun _ also => inHand.bears also) (between.full row' there)
      owned reaches typed (holds detach _ known.1) storedToo number notNull holdsToo
    rw [owns, leads] at spared
    cases spared

end Entries

section Roots

variable (kept : Kept context.graph work.database)
  (proper : ∀ resource ∈ context.graph.resources, ∀ row ∈ work.database.rows resource.table.name,
    resource.table.IsProper row)
  (aliases : ∀ resource ∈ context.graph.resources, resource.morphAlias ≠ .null) (empty : work.records = [])
  (declared : owner ∈ context.graph.resources) (alone : Alone owner relation (.mk operation [linked]) key node)
  (flat : linked.relations = [])
  (other : ∀ target, targetOf context.graph relation linked.resource = .ok target →
    NamesOther owner target operation linked key work.database)
  (refers : ∀ target, targetOf context.graph relation linked.resource = .ok target → relation.link.Refers owner target)

/-- The results of a request that links or unlinks two records, with the rows that they tell of, and how the one is read
from the other. -/
def Answers (context : Context) (owner : Resource) (relation : Relation) (operation : Operation) (linked : Node)
    (after : Database) (written : WriteResult) : Prop :=
  ∃ target operationName key attributes related parent row brought,
    targetOf context.graph relation linked.resource = .ok target ∧
    written = .mk owner.name operationName key attributes [(relation.name, [related])] ∧
    written.Tells owner.table parent ∧ related.Tells target.table row ∧
    Related.broughtIn owner target relation after parent = .ok brought ∧
    Reads owner target relation operation after related parent row brought

include kept proper aliases empty declared alone flat other refers

/-- A link that a record keeps itself is read as it was written. -/
theorem reads_parent {written : WriteResult} {link : ParentLink} (kind : relation.link = .parent link)
    (above : relation.kind.linkPlace = .parent)
    (spared : owner.key ∈ owner.fillable → owner.key ∉ link.foreignKey :: link.morphType.toList)
    (ran : (writeNode context owner [] node).runOn work = (.ok written, after)) :
    Answers context owner relation operation linked after.database written := by
  have keyed := kept.keyed owner declared
  obtain ⟨own, record, number, taken, results, before, found, inHand, shows, database, entered, wrote⟩ :=
    writeNode_above (kept.keeps owner declared) keyed (proper owner declared) empty alone above ran
  obtain ⟨inside, met⟩ := List.mem_filter.1 (found ▸ List.mem_singleton_self own)
  obtain ⟨target, related, row, value, leads, rfl, brings, records, told⟩ := writeEntry_parent_brings kind
    (fun target leads => inHand.ready inside met keyed (kept.keeps target (mem_of_targetOf leads)).orderly
      (kept.keyed target (mem_of_targetOf leads)) (proper target (mem_of_targetOf leads)) (other target leads))
    inHand.records inHand.fresh flat entered
  obtain ⟨still, apart⟩ := brings.stays_of (inHand.replaces.mem inside)
    (inHand.not_sought inside met keyed brings (other target leads))
  obtain ⟨now, changed, replaces, same, values, stands, tells, operationName, shown, attributes, made⟩ :=
    wrote _ records (brings.orderly_of inHand.replaces.orderly) still
  refine ⟨target, operationName, shown, attributes, related, now, row, _, leads, made, tells, brings.tells,
    Related.broughtIn_eq _ _ _ _ _, ?_⟩
  have rowThere : row ∈ after.database.rows target.table.name := by
    by_cases equal : target.table.name = owner.table.name
    · have there := brings.inside
      rw [equal] at there ⊢
      exact (replaces.mem_other keyed still there (apart equal).symm).1
    · rw [replaces.touched.rows_other equal]
      exact brings.inside
  -- what was set for a column of the link is known of the record, as the node gives no value for it
  have known {name : String} {held : Value} (listed : name ∈ link.foreignKey :: link.morphType.toList)
      (set : (parentLink link (if operation = .detach then none else some (value, target))).reverse.lookup name =
        some held) : changed.value name = held := by
    have mine : changed.value? name = (record.setAll (parentLink link (if operation = .detach then none else
        some (value, target)) ++ given owner node.attributes)).value? name := by
      rw [Record.value?, values]
      rfl
    have unlike := lookup_given alone fun fillable same => spared fillable (same ▸ listed)
    rw [Record.value?_setAll, List.reverse_append, List.lookup_append, unlike, Option.none_or, set, Option.some_or] at mine
    rw [Record.value, mine, Option.getD_some]
  have holder {name : String} {column : Column} (there : owner.table.column? name = some column) :
      column.Bears (changed.value name) (now.cell name) := by
    obtain ⟨listed, rfl⟩ := Table.mem_of_column? there
    exact stands.bears column (same ▸ listed)
  refine ⟨fun _ => ⟨replaces.mem still, rowThere⟩, fun linking keyed numbers live => ?_, fun detach brought => ?_⟩
  · obtain ⟨⟨foreign, ownerColumn, here, also, type⟩, tellsType⟩ := kind ▸ refers target leads
    rw [kind] at keyed ⊢
    change row.cell link.ownerKey ≠ .null at keyed
    simp only [if_neg linking] at known
    obtain ⟨foreignValue, morph⟩ := lookup_link value (.plain target.morphAlias)
      fun column typed => (tellsType column typed).apart
    obtain ⟨_, toldKey⟩ := brings.tells.told also keyed
    obtain rfl := told linking _ toldKey
    have bears := brings.tells.bears also toldKey fun number => numbers _ (number ▸ toldKey)
    have mine := holder here
    rw [known List.mem_cons_self foreignValue] at mine
    refine Link.mem_related_parent rowThere live ?_ fun column typed => ?_
    · exact Table.agrees_of_bears also here type.symm bears mine (mine.ne_null bears type keyed)
    · obtain ⟨-, ⟨mark, there, textual⟩, number⟩ := tellsType column typed
      have mine := holder there
      rw [known (List.mem_cons_of_mem _ (Option.mem_toList.2 typed)) (morph column typed)] at mine
      exact Table.holds_of_bears there textual (aliases target (mem_of_targetOf leads)) number mine
  · rw [kind] at brought
    have agrees := Link.of_mem_related_parent brought
    simp only [Table.agrees, Bool.and_eq_true, bne_iff_ne] at agrees
    obtain ⟨column, there⟩ := Table.column?_of_cell_ne (replaces.orderly.full now (replaces.mem still)) agrees.1.2
    have mine := holder there
    rw [known List.mem_cons_self (by rw [if_pos detach]; exact (lookup_unlinked _ _))] at mine
    exact agrees.1.2 (mine.eq_null (.inl rfl))

end Roots

/-- A request that links a record to another one, or unlinks it, is answered by the queries that read the relation: in a
graph and a database of any form, and through a link of any kind, provided that the columns of the link are of the types of
the keys that they refer to. -/
theorem answers_of_execute {schema : Schema} {declarations : List ResourceDeclaration} {result : MutationResult}
    (built : Graph.build schema declarations = .ok context.graph) (declared : owner ∈ context.graph.resources)
    (kept : Kept context.graph work.database)
    (exact : ∀ resource ∈ context.graph.resources, ∀ row ∈ work.database.rows resource.table.name,
      ∀ column ∈ resource.table.columns, (row.cell column.name).IsExact)
    (joined : ∀ link, relation.link = .pivot link → work.database.Orderly link.table) (empty : work.records = [])
    (alone : Alone owner relation (.mk operation [linked]) key node) (notSync : operation ≠ .sync)
    (flat : linked.relations = []) (all : ∀ link, relation.link = .child link → link.pick = none)
    (other : ∀ target, targetOf context.graph relation linked.resource = .ok target →
      NamesOther owner target operation linked key work.database)
    (refers : ∀ target, targetOf context.graph relation linked.resource = .ok target → relation.link.Refers owner target)
    (spared : ∀ link, relation.link = .parent link → owner.key ∈ owner.fillable →
      owner.key ∉ link.foreignKey :: link.morphType.toList)
    (plain : operation = .detach → ¬Ambiguous owner key)
    (ran : (execute context owner [node]).runOn work = (.ok result, after)) :
    ∃ written, result.results = [written] ∧ Answers context owner relation operation linked after.database written := by
  obtain ⟨written, ended, wrote, database, results⟩ := execute_single_eq_ok ran
  refine ⟨written, results, ?_⟩
  rw [database]
  have aliases (resource : Resource) (member : resource ∈ context.graph.resources) := Graph.morphAlias_of_build built member
  have proper (resource : Resource) (member : resource ∈ context.graph.resources) (row : Row)
      (there : row ∈ work.database.rows resource.table.name) : resource.table.IsProper row :=
    (kept.keeps resource member).isProper there (exact resource member row there)
  have sound := Graph.sound_of_build built owner declared
  have placed := (sound.relations relation (Resource.mem_of_relation? alone.known).1).placed
  have keyed := kept.keyed owner declared
  cases kind : relation.link with
  | parent link =>
    exact reads_parent kept proper aliases empty declared alone flat other refers kind (by simp [← placed, kind, Link.place])
      (spared link kind) wrote
  | child link =>
    have below : relation.kind.linkPlace ≠ .parent := by simp [← placed, kind, Link.place]
    obtain ⟨own, now, record, number, flushed, shown, last, found, inHand, -, entered, settled⟩ :=
      writeNode_below (kept.keeps owner declared) keyed (proper owner declared) empty alone below wrote
    obtain ⟨inside, met⟩ := List.mem_filter.1 (found ▸ List.mem_singleton_self own)
    obtain ⟨target, related, row, leads, rfl, records, tells, reads⟩ :=
      reads_child kept proper aliases inHand inside met keyed other flat entered kind below declared (all link kind) refers
    obtain ⟨left, told, operationName, shown, attributes, made⟩ := settled records
    rw [left]
    exact ⟨target, operationName, shown, attributes, related, now, row, _, leads, made, told, tells,
      Related.broughtIn_eq _ _ _ _ _, reads⟩
  | pivot link =>
    have below : relation.kind.linkPlace ≠ .parent := by simp [← placed, kind, Link.place]
    obtain ⟨own, now, record, number, flushed, shown, last, found, inHand, holds, entered, settled⟩ :=
      writeNode_below (kept.keeps owner declared) keyed (proper owner declared) empty alone below wrote
    obtain ⟨inside, met⟩ := List.mem_filter.1 (found ▸ List.mem_singleton_self own)
    obtain ⟨target, related, row, leads, rfl, records, tells, reads⟩ :=
      reads_pivot kept proper aliases inHand inside met keyed other flat entered kind below declared notSync
        (joined link kind) (fun detach => holds (plain detach)) refers
    obtain ⟨left, told, operationName, shown, attributes, made⟩ := settled records
    rw [left]
    exact ⟨target, operationName, shown, attributes, related, now, row, _, leads, made, told, tells,
      Related.broughtIn_eq _ _ _ _ _, reads⟩
  | through link =>
    have below : relation.kind.linkPlace ≠ .parent := by simp [← placed, kind, Link.place]
    obtain ⟨_, _, _, number, flushed, shown, last, -, -, -, entered, -⟩ :=
      writeNode_below (kept.keeps owner declared) keyed (proper owner declared) empty alone below wrote
    rw [writeEntry, kind] at entered
    dsimp only at entered
    split at entered <;> cases entered

end Requests

/-! ## Links between columns of one type, and of two types -/

namespace Notes

def owners (type : ColumnType) : Table := ⟨"owners",
  [{ name := "slug", type := .string, isKey := true, isNullable := false }, { name := "number", type }]⟩

def notes (type : ColumnType) : Table := ⟨"notes",
  [{ name := "slug", type := .string, isKey := true, isNullable := false }, { name := "owner", type }]⟩

def below : Relation := ⟨"notes", .hasMany, ["Note"], .child ⟨"owner", "number", none, none⟩⟩

-- the types of the key that is referred to and of the column that refers to it
variable (key foreign : ColumnType)

def schema : Schema := { tables := [owners key, notes foreign] }

def declarations : List ResourceDeclaration := [
  { name := "Owner", table := owners key, options := [("fields", .list [.text "slug"])], scopes := []
    relations := [{ name := "notes", kind := .hasMany, targets := [.text "Note"], foreignKey := .text "owner"
                    localKey := .text "number" }] },
  { name := "Note", table := notes foreign, options := [("fields", .list [.text "slug"])], scopes := [], relations := [] }]

def owner : Resource where
  name := "Owner"
  table := owners key
  key := "slug"
  fields := ["slug"]
  scopes := []
  limits := [.int 10, .int 25, .int 50]
  defaultLimit := .int 50
  defaultOrder := [("slug", .desc)]
  relations := [below]
  fillable := []
  softDeletes := .bool false
  deletedAt := none
  morphAlias := .text "owners"
  gates := true

def note : Resource := { owner foreign with
  name := "Note", table := notes foreign, relations := [], morphAlias := .text "notes" }

def graph : Graph := ⟨[owner key, note foreign]⟩

def numbered (number : Cell) : Row := [("slug", .text "a"), ("number", number)]

def database (number : Cell) : Database :=
  ⟨[⟨owners key, [numbered number]⟩, ⟨notes foreign, [[("slug", .text "x"), ("owner", .null)]]⟩]⟩

def linked : Node := .mk [("slug", .text "x")] [] none []

/-- Puts a note on the owner. -/
def request : Node := .mk [("slug", .text "a")] [] none [("notes", .mk .attach [linked])]

private theorem texts : ∀ resource ∈ (graph .string .string).resources,
    ∀ row ∈ (database .string .string (.text "1")).rows resource.table.name, ∀ column ∈ resource.table.columns,
      row.cell column.name = .null ∨ ∃ s, row.cell column.name = .text s := by
  simp [graph, owner, note, owners, notes, Database.rows, Database.table?, database, numbered, Row.cell, List.lookup_cons]

private theorem kept : Kept (graph .string .string) (database .string .string (.text "1")) := by
  have strings : ∀ resource ∈ (graph .string .string).resources, ∀ column ∈ resource.table.columns, column.type = .string := by
    decide
  refine ⟨fun resource listed => ?_, by decide⟩
  have returns (row : Row) (there : row ∈ (database .string .string (.text "1")).rows resource.table.name) (column : Column)
      (listedToo : column ∈ resource.table.columns) : column.Returns (row.cell column.name) :=
    .textual (strings resource listed column listedToo) (texts resource listed row there column listedToo)
  rcases List.mem_cons.1 listed with rfl | listed
  · exact ⟨⟨_, rfl⟩, by decide, by decide, returns, by decide⟩
  · obtain rfl := List.mem_singleton.1 listed
    exact ⟨⟨_, rfl⟩, by decide, by decide, returns, by decide⟩

private theorem alone : Alone (owner .string) below (.mk .attach [linked]) (.text "a") request :=
  ⟨rfl, rfl, rfl, by simp [owner], rfl⟩

/-- A note that is put on an owner is among the notes of the owner. -/
theorem answers_of_attached : ∃ result after,
    (execute { graph := graph .string .string } (owner .string) [request]).runOn
      { database := database .string .string (.text "1") } = (.ok result, after) ∧
    ∃ written, result.results = [written] ∧
      Answers { graph := graph .string .string } (owner .string) below .attach linked after.database written := by
  obtain ⟨result, after, ran⟩ : ∃ result after, (execute { graph := graph .string .string } (owner .string) [request]).runOn
      { database := database .string .string (.text "1") } = (.ok result, after) := ⟨_, _, rfl⟩
  have built : Graph.build (schema .string .string) (declarations .string .string) = .ok (graph .string .string) := rfl
  have exact : ∀ resource ∈ (graph .string .string).resources,
      ∀ row ∈ (database .string .string (.text "1")).rows resource.table.name, ∀ column ∈ resource.table.columns,
        (row.cell column.name).IsExact := by
    intro resource listed row there column listedToo
    rcases texts resource listed row there column listedToo with null | ⟨s, text⟩
    · rw [null]
      trivial
    · rw [text]
      trivial
  refine ⟨result, after, ran, answers_of_execute built List.mem_cons_self kept exact (fun _ pivot => by cases pivot) rfl alone
    (by simp) rfl (fun link own => by cases own; rfl) (fun target leads => ?_) (fun target leads => ?_)
    (fun _ parent => by cases parent) (by simp) ran⟩
  · cases leads
    exact .inr ⟨_, List.mem_singleton_self _, by decide, by decide⟩
  · cases leads
    exact ⟨⟨_, _, rfl, rfl, rfl⟩, fun _ typed => by cases typed⟩

/-- A number that the column of the note does not have is not the number of the owner any more. -/
theorem attached_but_not_brought_in : ∃ result after,
    (execute { graph := graph .integer .float } (owner .integer) [request]).runOn
      { database := database .integer .float (.int 9007199254740993) } = (.ok result, after) ∧
    after.database.rows "owners" = [numbered (.int 9007199254740993)] ∧
    Related.broughtIn (owner .integer) (note .float) below after.database (numbered (.int 9007199254740993)) = .ok [] :=
  ⟨_, _, rfl, by decide, rfl⟩

end Notes

end Mutation

end ResourceApi
