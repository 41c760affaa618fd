import Mathlib
import ResourceApi.Proofs.Search.Loaded
import ResourceApi.Proofs.Search.Paged
import ResourceApi.Proofs.Session.Values

/-!
What an include brings for a record: the records that its relation links to it and its filters admit, in the order of its
sorts, as many as its limit lets through. They are read for all parents at once and given back to them by the value of a
column; that comes to the same as following the link from each parent alone.
-/

namespace ResourceApi

open Outcome Query

/-! ## The columns that are matched -/

namespace Link

/-- The column of the owner that is matched. -/
def ownColumn : Link → String
  | .child link => link.localKey
  | .parent link => link.foreignKey
  | .pivot link => link.localKey
  | .through link => link.localKey

/-- The table on the related side with the column that it is matched with. -/
def matchedTable (target : Resource) : Link → Table
  | .child _ | .parent _ => target.table
  | .pivot link => link.table
  | .through link => link.table

def matchedColumn : Link → String
  | .child link => link.foreignKey
  | .parent link => link.ownerKey
  | .pivot link => link.foreignKey
  | .through link => link.firstKey

/-- The place of that table among those of the related side. -/
def matchedPlace : Link → Nat
  | .child _ | .parent _ => 0
  | .pivot _ | .through _ => 1

/-- The types that a record of the owner tells by columns of its own. -/
def toldType? (target : Resource) : Link → Option (String × Json)
  | .parent link => link.morphType.map (·, target.morphAlias)
  | _ => none

theorem ties_eq (owner target : Resource) (parent : Row) (frame : Frame) (link : Link) :
    link.ties owner target parent frame =
      (link.matchedTable target).agrees (frame.getD link.matchedPlace []) link.matchedColumn owner.table parent
        link.ownColumn := by
  cases link <;> rfl

theorem mem_of_mem_frames {rows : String → List Row} {target : Resource} {link : Link} {frame : Frame}
    (inside : frame ∈ link.frames rows target) :
    frame.getD 0 [] ∈ rows target.table.name ∧
      frame.getD link.matchedPlace [] ∈ rows (link.matchedTable target).name := by
  cases link with
  | child link | parent link =>
    obtain ⟨record, listed, rfl⟩ := List.mem_map.1 inside
    exact ⟨listed, listed⟩
  | pivot link | through link =>
    obtain ⟨record, listed, further⟩ := List.mem_flatMap.1 inside
    obtain ⟨between, joined, rfl⟩ := List.mem_map.1 further
    exact ⟨listed, List.mem_of_mem_filter joined⟩

end Link

namespace Relation

/-- The columns by which a record is matched and tells a type are those that it has to carry. -/
theorem ownColumn_mem_parentColumns (relation : Relation) : relation.link.ownColumn ∈ relation.parentColumns := by
  unfold parentColumns Link.ownColumn
  cases relation.link <;> exact List.mem_cons_self

theorem mem_parentColumns_of_toldType? {relation : Relation} {target : Resource} {column : String} {type : Json}
    (told : relation.link.toldType? target = some (column, type)) : column ∈ relation.parentColumns := by
  unfold Link.toldType? at told
  split at told
  · next link same =>
    obtain ⟨_, morph, entry⟩ := Option.map_eq_some_iff.1 told
    cases entry
    simp [parentColumns, same, morph]
  · cases told

end Relation

namespace Related

variable {owner target : Resource} {relation : Relation} {slot : Nat} {related : Related}

theorem matching_eq (built : ofTarget owner relation target slot = .ok related) :
    related.matching = (relation.link.matchedTable target).ref 0 (slot + relation.link.matchedPlace)
        relation.link.matchedColumn ∧
      related.parentColumn = relation.link.ownColumn ∧ related.parentType = relation.link.toldType? target := by
  unfold ofTarget at built
  cases same : relation.link with
  | child link =>
    simp only [same, ofChild, bind_eq_ok, pure_eq_ok] at built
    obtain ⟨_, -, _, -, rfl⟩ := built
    exact ⟨rfl, rfl, rfl⟩
  | parent link | through link =>
    simp only [same] at built
    cases built
    exact ⟨rfl, rfl, rfl⟩
  | pivot link =>
    simp only [same, ofPivot, bind_eq_ok, pure_eq_ok] at built
    obtain ⟨_, -, rfl⟩ := built
    exact ⟨rfl, rfl, rfl⟩

end Related

/-! ## Keys -/

/-- What a column of a type holds: null, or a value of the type that it keeps as it is and that is written as it is read. -/
def ColumnType.Keeps (type : ColumnType) (cell : Cell) : Prop :=
  cell = .null ∨
    type.Holds cell ∧ Cell.IsStored type.affinity cell ∧ ∀ column : Column, column.type = type → column.Returns cell

/-- The two columns by which a link is followed have one type, and hold values of it. -/
structure Link.Typed (rows : String → List Row) (owner target : Resource) (link : Link) : Prop where
  one : ((link.matchedTable target).ref 0 0 link.matchedColumn).type = (owner.table.ref 0 0 link.ownColumn).type
  own : ∀ row ∈ rows owner.table.name, (owner.table.ref 0 0 link.ownColumn).type.Keeps (row.cell link.ownColumn)
  matched : ∀ row ∈ rows (link.matchedTable target).name,
    (owner.table.ref 0 0 link.ownColumn).type.Keeps (row.cell link.matchedColumn)

/-- Only null is the same as null. -/
theorem Json.eq_null_of_same {j : Json} (same : j.same .null = true) : j = .null := by
  cases j <;> simp_all [Json.same, Json.sameScalar, Json.integer?]

namespace ColumnType.Keeps

variable {type : ColumnType} {cell other : Cell} {key second : Json}

/-- A value that is shown is that of a key, unless it is null. -/
theorem exists_isKey (keeps : type.Keeps cell) (shown : cell.shown type = .ok key) :
    cell = .null ∧ key = .null ∨ ∃ value, Value.IsKey type value cell ∧ value.json "" = key := by
  rcases keeps with rfl | ⟨holds, stored, returns⟩
  · cases type <;> cases shown <;> exact .inl ⟨rfl, rfl⟩
  · right
    have read : ∃ value, Value.ofCell type cell = .ok value ∧ value.json "" = key := by
      unfold Value.ofCell
      rw [shown, ok_bind]
      cases type <;> cases cell <;> cases holds
      · cases shown
        exact ⟨_, rfl, rfl⟩
      · cases shown
        exact ⟨_, rfl, rfl⟩
      · rw [Cell.shown] at shown
        split at shown
        · cases shown
          exact ⟨_, rfl, rfl⟩
        · cases shown
      · cases shown
        exact ⟨_, rfl, rfl⟩
    obtain ⟨value, read, json⟩ := read
    exact ⟨value, ⟨read, holds, stored, returns⟩, json⟩

protected theorem int {n : Int} (word : Word.holds n) : ColumnType.integer.Keeps (.int n) := by
  refine .inr ⟨trivial, rfl, fun column type value read => ?_⟩
  rw [type] at read
  cases read
  simp [Value.cellFor, type, ColumnType.bindType, Bound.formed, Cell.ofJson, word]

end ColumnType.Keeps

/-- Keys are shown as the same value exactly if they are the same. -/
theorem Value.IsKey.json_same {type : ColumnType} {value other : Value} {cell second : Cell}
    (key : value.IsKey type cell) (also : other.IsKey type second) :
    (value.json "").same (other.json "") = value.same other := by
  rcases ofCell_eq_ok key.read with ⟨rfl, plain⟩ | ⟨rfl, s, text, -, rfl⟩
  · rcases ofCell_eq_ok also.read with ⟨rfl, -⟩ | ⟨rfl, t, words, -, rfl⟩
    · rfl
    · exact absurd (plain rfl) key.ne_null
  · rcases ofCell_eq_ok also.read with ⟨rfl, plain⟩ | ⟨-, t, words, -, rfl⟩
    · exact absurd (plain rfl) also.ne_null
    · simp [json, same, Json.same, Json.sameScalar]

theorem Value.IsKey.json_ne_null {type : ColumnType} {value : Value} {cell : Cell} (key : value.IsKey type cell) :
    value.json "" ≠ .null := by
  rcases ofCell_eq_ok key.read with ⟨rfl, -⟩ | ⟨-, s, text, -, rfl⟩
  · have known := key.ne_null
    cases cell <;> simp_all [json, Cell.json]
  · simp [json]

namespace Plan

/-- A key of a parent is handed over as the cell that it was read of. -/
theorem cell_keyBound {type : ColumnType} {value : Value} {cell : Cell} (key : value.IsKey type cell)
    {query : IncludeQuery} (bind : keyType query = type.bindType) (moments : query.byMoment = decide (type = .datetime)) :
    (keyBound query (value.json "")).cell = cell := by
  have written : value.cellFor ⟨"", type, false, true, .null⟩ = .ok cell := key.cellFor_eq rfl
  unfold keyBound
  rcases Value.ofCell_eq_ok key.read with ⟨rfl, plain⟩ | ⟨rfl, s, text, -, rfl⟩
  · have other : type ≠ .datetime := fun same => key.ne_null (plain same)
    have usual : query.byMoment = false := by simpa [other] using moments
    rw [usual, bind]
    have handed : Bound.cell ⟨type.bindType, cell.json⟩ = cell := by
      have taken : Bound.cell? ⟨type.bindType, cell.json⟩ = .ok cell := written
      rw [Bound.cell, taken]
    simpa [Value.json] using handed
  · rw [bind, moments]
    exact Except.ok.inj written

end Plan

/-! ## What an include brings -/

/-- Whether a record shows the type of the target, if it tells any. -/
def Link.shows (owner target : Resource) (parent : Row) (link : Link) : Bool :=
  (link.toldType? target).all fun (column, type) =>
    ((parent.cell column).shown (owner.table.ref 0 0 column).type).toOption.any (·.same type)

/-- The first items of a list, or all of them where there is no limit. -/
def limited {α : Type} (limit : Option Int) (items : List α) : List α :=
  match limit with
  | none => items
  | some count => items.take count.toNat

namespace Graph

/-- The resources that a relation leads to. -/
def destinations (graph : Graph) (relation : Relation) : List Resource :=
  if relation.kind = .morphTo then relation.targets.filterMap graph.get? else (graph.target relation).toOption.toList

theorem mem_of_mem_destinations {graph : Graph} {relation : Relation} {target : Resource}
    (leadsTo : target ∈ graph.destinations relation) : target ∈ graph.resources := by
  unfold destinations at leadsTo
  split at leadsTo
  · obtain ⟨name, -, found⟩ := List.mem_filterMap.1 leadsTo
    exact mem_of_get? found
  · cases single : graph.target relation with
    | ok other =>
      rw [single] at leadsTo
      obtain rfl := List.mem_singleton.1 leadsTo
      exact mem_of_target single
    | error failure => simp [single, Except.toOption] at leadsTo

/-- The records of a target to which a link leads from a record, each with the row between if there is one: those that the
filters of an include admit, in the order of its sorts. -/
def linked (graph : Graph) (rows : String → List Row) (owner target : Resource) (link : Link) (item : Include)
    (record : Row) : List Frame :=
  firstInOrder (Plan.fullOrder target item.sorts) <| (link.frames rows target).filter fun frame =>
    link.ties owner target record frame && link.shows owner target record && link.accepts rows owner target frame &&
      graph.admits rows target item.filters (frame.getD 0 [])

/-- What an include brings for a record of the owner, with the resources that it is from. -/
def brought (graph : Graph) (rows : String → List Row) (owner : Resource) (relation : Relation) (item : Include)
    (record : Row) : List (Resource × Frame) :=
  (graph.destinations relation).flatMap fun target =>
    (limited item.limit (graph.linked rows owner target relation.link item record)).map (target, ·)

end Graph

namespace Plan

variable {graph : Graph} {owner target : Resource} {relation : Relation} {related : Related} {item : Include}
  {required : List String} {query : Query} {ground : Ground}

/-! ## The query of an include -/

theorem includeQuery_made (made : includeQuery graph related item required = .ok query) :
    ∃ scopes filters shown aggregates, scopeConditions related.target related.slot item.scopes = .ok scopes ∧
      filtersCondition graph related.target related.slot item.filters = .ok filters ∧
      columns related.target related.slot item.selects required = .ok shown ∧
      order related.target related.slot item.sorts = .ok query.order ∧ query.source = related.source ∧
      query.conditions = Cond.conjuncts (.amongParents related.matching :: related.conditions ++ scopes ++ filters) ∧
      query.page = none ∧
      List.Forall₂ (fun item output => aggregate graph related.target related.slot item = .ok output) item.aggregates
        aggregates ∧
      query.outputs = shown ++ aggregates ++ (.column related.matching (some parentKeyLabel) ::
        related.pivotColumns.map fun column => .column column (some (pivotLabelStart ++ column.name))) := by
  simp only [includeQuery, bind_eq_ok, pure_eq_ok] at made
  obtain ⟨scopes, ofScopes, filters, ofFilters, shown, columns, order, ordered, aggregates, measured, rfl⟩ := made
  exact ⟨scopes, filters, shown, aggregates, ofScopes, ofFilters, columns, ordered, rfl, rfl, rfl, mapM_eq_ok.1 measured,
    rfl⟩

theorem includeQuery_eq_ok (made : includeQuery graph related item required = .ok query) (noScopes : item.scopes = []) :
    ∃ filters shown aggregates, filtersCondition graph related.target related.slot item.filters = .ok filters ∧
      columns related.target related.slot item.selects required = .ok shown ∧
      order related.target related.slot item.sorts = .ok query.order ∧ query.source = related.source ∧
      query.conditions = Cond.conjuncts (.amongParents related.matching :: related.conditions ++ filters) ∧
      query.page = none ∧
      List.Forall₂ (fun item output => aggregate graph related.target related.slot item = .ok output) item.aggregates
        aggregates ∧
      query.outputs = shown ++ aggregates ++ (.column related.matching (some parentKeyLabel) ::
        related.pivotColumns.map fun column => .column column (some (pivotLabelStart ++ column.name))) := by
  obtain ⟨scopes, filters, shown, aggregates, ofScopes, ofFilters, columns, order, source, conditions, rest⟩ :=
    includeQuery_made made
  rw [noScopes] at ofScopes
  obtain rfl : [] = scopes := Except.ok.inj ofScopes
  rw [List.append_nil] at conditions
  exact ⟨filters, shown, aggregates, ofFilters, columns, order, source, conditions, rest⟩

/-- The rows of the query of an include are those on the related side that have a key of some parent, in the order of the
include. -/
theorem frames_includeQuery (sound : graph.Sound) (member : target ∈ graph.resources)
    (built : Related.ofTarget owner relation target 0 = .ok related)
    (made : includeQuery graph related item required = .ok query) (noScopes : item.scopes = []) :
    query.frames ground = firstInOrder (fullOrder target item.sorts)
      ((relation.link.frames ground.rows target).filter fun frame =>
        holds ground [frame] (.amongParents related.matching) && relation.link.accepts ground.rows owner target frame &&
          graph.admits ground.rows target item.filters (frame.getD 0 [])) := by
  obtain ⟨filters, shown, aggregates, ofFilters, -, ordered, source, conditions, page, -⟩ :=
    includeQuery_eq_ok made noScopes
  obtain ⟨-, rfl, start⟩ := Related.ofTarget_eq_ok built
  rw [start] at ofFilters ordered
  obtain ⟨own, same⟩ := sortOrder_of_order ordered
  rw [frames, page, paged, sorted_eq_firstInOrder own, source, matching_eq_filter,
    Related.extend_source built rfl, List.map_congr_left fun frame _ => List.nil_append frame, List.map_id']
  simp only [firstInOrder, same]
  refine congrArg (List.mergeSort · _) (List.filter_congr fun frame inside => ?_)
  have accepted : related.conditions.all (holds ground (([] ++ frame ++ []) :: [])) =
      relation.link.accepts ground.rows owner related.target frame :=
    Related.all_conditions built rfl (Link.length_of_mem_frames inside) []
  rw [List.nil_append, List.append_nil] at accepted
  rw [conditions, all_conjuncts, List.all_append, List.all_cons, accepted,
    holds_filtersCondition sound member ofFilters]
  rfl

/-- A name under which a query for included rows shows nothing but a column of theirs. -/
def IsFree (name : String) : Prop := name ≠ "pivot" ∧ name ≠ parentKeyLabel ∧ ¬pivotLabelStart.isPrefixOf name

theorem gathered_get? {name : String} (free : IsFree name) (row : Members) :
    (gathered row).2.get? name = row.get? name := by
  obtain ⟨noPivot, noKey, noLabel⟩ := free
  have own : Members.get? (row.filter (!pivotLabelStart.isPrefixOf ·.1)) name = row.get? name :=
    Members.get?_filter (!pivotLabelStart.isPrefixOf ·) (by simpa using noLabel) row
  unfold gathered
  dsimp only
  rw [Members.get?_erase_of_ne noKey]
  split
  · exact own
  · rw [Members.get?_put_of_ne noPivot, own]

theorem gathered_key (row : Members) : (gathered row).1 = (row.get? parentKeyLabel).getD .null := by
  have own : Members.get? (row.filter (!pivotLabelStart.isPrefixOf ·.1)) parentKeyLabel = row.get? parentKeyLabel :=
    Members.get?_filter (!pivotLabelStart.isPrefixOf ·) (by cbv) row
  unfold gathered
  dsimp only
  split
  · rw [own]
  · rw [Members.get?_put_of_ne (by decide), own]

/-- A row of an include's result shows the columns of its record, and is given to parents by the matched column. -/
theorem shows_of_includeQuery (built : Related.ofTarget owner relation target 0 = .ok related)
    (made : includeQuery graph related item required = .ok query) {frame : Frame} {row : Members}
    (given : Gives ground query.outputs frame row) (nodup : (query.outputs.map Output.key).Nodup)
    {fields : List String} (asked : ∀ name ∈ fields, name ∈ askedFields target item.selects ∨ name ∈ required)
    (free : ∀ name ∈ fields, IsFree name) :
    target.table.Shows fields (frame.getD 0 []) (gathered row).2 ∧
      (Row.cell (frame.getD relation.link.matchedPlace []) relation.link.matchedColumn).shown
        ((relation.link.matchedTable target).ref 0 0 relation.link.matchedColumn).type = .ok (gathered row).1 := by
  obtain ⟨-, -, shown, aggregates, -, -, columns, -, -, -, -, -, outputs⟩ := includeQuery_made made
  obtain ⟨-, rfl, start⟩ := Related.ofTarget_eq_ok built
  rw [start] at columns
  constructor
  · have shows := shows_of_gives given nodup fun name (listed : name ∈ fields) => by
      rw [outputs, List.append_assoc]
      exact List.mem_append_left _ (mem_columns columns (asked name listed))
    intro name listed
    obtain ⟨value, is, found⟩ := shows name listed
    exact ⟨value, is, (gathered_get? (free name listed) row).trans found⟩
  · have listed : Output.column related.matching (some parentKeyLabel) ∈ query.outputs := by
      rw [outputs]
      exact List.mem_append_right _ List.mem_cons_self
    obtain ⟨key, is, found⟩ := given.get?_eq nodup listed
    have labelled : (gathered row).1 = key := by
      rw [gathered_key]
      exact congrArg (Option.getD · .null) found
    rw [labelled, ← is, (Related.matching_eq built).1]
    simp [outputValue, cellOf, Table.ref]

end Plan

end ResourceApi
