import ResourceApi.Proofs.Search.Included

/-!
Included records and the parents that they are given to. A query is run once for the keys of all parents; what it finds is
given to each parent by the key, and so each gets what its own link leads to.
-/

namespace ResourceApi

open Outcome Query

namespace Outcome

variable {α β : Type}

/-- What holds of items and their partners, beside where both of them are from. -/
theorem forall₂_and_mem {r : α → β → Prop} {firsts : List α} {seconds : List β} (related : List.Forall₂ r firsts seconds) :
    List.Forall₂ (fun a b => a ∈ firsts ∧ b ∈ seconds ∧ r a b) firsts seconds := by
  induction related with
  | nil => exact .nil
  | cons here _ ih =>
    refine .cons ⟨List.mem_cons_self, List.mem_cons_self, here⟩ (ih.imp fun a b found => ?_)
    obtain ⟨first, second, both⟩ := found
    exact ⟨List.mem_cons_of_mem _ first, List.mem_cons_of_mem _ second, both⟩

theorem forall₂_zipIdx {r : α → β → Prop} {firsts : List α} {seconds : List β} (related : List.Forall₂ r firsts seconds)
    (start : Nat) :
    List.Forall₂ (fun a b => r a.1 b.1 ∧ a.2 = b.2) (firsts.zipIdx start) (seconds.zipIdx start) := by
  induction related generalizing start with
  | nil => exact .nil
  | cons here _ ih => exact .cons ⟨here, rfl⟩ (ih (start + 1))

/-- Items that give nothing may be left out. -/
theorem flatMap_filter_of_nil {f : α → List β} {p : α → Bool} {items : List α} (none : ∀ item, p item = false → f item = []) :
    (items.filter p).flatMap f = items.flatMap f := by
  induction items with
  | nil => rfl
  | cons item rest ih =>
    by_cases kept : p item = true
    · rw [List.filter_cons_of_pos kept, List.flatMap_cons, List.flatMap_cons, ih]
    · rw [List.filter_cons_of_neg kept, List.flatMap_cons, none item (by simpa using kept), List.nil_append, ih]

end Outcome

namespace Plan

/-! ## Keys of parents -/

/-- The value of a column in a record, null where it has none. -/
private abbrev keyIn (column : String) (row : Members) : Json := (row.get? column).getD .null

/-- Whether a value is among some keys, as itself or as one that is the same. -/
private def Covers (keys : List Json) (key : Json) : Prop := ∃ other ∈ keys, key = other ∨ key.same other

/-- One more record adds its key, unless that is null or there is one that is the same. -/
private theorem covers_of_taken {column : String} {row : Members} {keys next : List Json}
    (taken : (match keyIn column row with
      | .null => .ok keys
      | key =>
        if !key.isScalar then .error (.fault .unsuitableValue)
        else if key.isIn keys then .ok keys
        else .ok (keys ++ [key]) : Except Failure (List Json)) = .ok next) :
    keys ⊆ next ∧ (∀ key ∈ next, key ∈ keys ∨ key ≠ .null ∧ keyIn column row = key) ∧
      (keyIn column row ≠ .null → Covers next (keyIn column row)) := by
  split at taken
  · next null =>
    cases taken
    exact ⟨List.Subset.refl _, fun _ => .inl, fun given => absurd null given⟩
  · next given =>
    split at taken
    · cases taken
    · split at taken
      · next listed =>
        cases taken
        obtain ⟨other, there, same⟩ := List.any_eq_true.1 listed
        exact ⟨List.Subset.refl _, fun _ => .inl, fun _ => ⟨other, there, .inr same⟩⟩
      · cases taken
        refine ⟨List.subset_append_left _ _, fun key among => ?_, fun _ => ⟨_, by simp, .inl rfl⟩⟩
        rcases List.mem_append.1 among with old | new
        · exact .inl old
        · obtain rfl := List.mem_singleton.1 new
          exact .inr ⟨given, rfl⟩

/-- The keys that are gathered are those of the records but for null, and each record has its key among them. -/
theorem keysOf_eq_ok {column : String} {rows : List Members} {keys : List Json} (made : keysOf column rows = .ok keys) :
    (∀ key ∈ keys, key ≠ .null ∧ ∃ row ∈ rows, (row.get? column).getD .null = key) ∧
      ∀ row ∈ rows, (row.get? column).getD .null ≠ .null →
        ∃ key ∈ keys, (row.get? column).getD .null = key ∨ ((row.get? column).getD .null).same key := by
  have loop (rest : List Members) (found : List Json) (folded : rest.foldlM (fun keys row =>
        match keyIn column row with
        | .null => .ok keys
        | key =>
          if !key.isScalar then .error (.fault .unsuitableValue)
          else if key.isIn keys then .ok keys
          else .ok (keys ++ [key])) found = (.ok keys : Except Failure (List Json))) :
      found ⊆ keys ∧ (∀ key ∈ keys, key ∈ found ∨ key ≠ .null ∧ ∃ row ∈ rest, keyIn column row = key) ∧
        ∀ row ∈ rest, keyIn column row ≠ .null → Covers keys (keyIn column row) := by
    induction rest generalizing found with
    | nil =>
      obtain rfl := pure_eq_ok.1 folded
      exact ⟨List.Subset.refl _, fun _ => .inl, List.forall_mem_nil _⟩
    | cons row rest ih =>
      rw [List.foldlM_cons] at folded
      obtain ⟨next, taken, folded⟩ := bind_eq_ok.1 folded
      obtain ⟨kept, added, covered⟩ := covers_of_taken taken
      obtain ⟨keptToo, addedToo, coveredToo⟩ := ih next folded
      refine ⟨List.Subset.trans kept keptToo, fun key among => ?_, List.forall_mem_cons.2 ⟨fun given => ?_, coveredToo⟩⟩
      · rcases addedToo key among with before | ⟨given, other, inside, same⟩
        · exact (added key before).imp_right fun both => ⟨both.1, row, List.mem_cons_self, both.2⟩
        · exact .inr ⟨given, other, List.mem_cons_of_mem _ inside, same⟩
      · obtain ⟨other, there, same⟩ := covered given
        exact ⟨other, keptToo there, same⟩
  obtain ⟨-, known, covered⟩ := loop rows [] made
  exact ⟨fun key among => (known key among).resolve_left List.not_mem_nil, covered⟩

end Plan

/-! ## Rows that are matched -/

namespace Link.Typed

variable {rows : String → List Row} {owner target : Resource} {link : Link} {record : Row} {frame : Frame} {key given : Json}

/-- Cells of one type that are no nulls agree exactly if they stand in one place of the order. -/
private theorem ties_iff (typed : link.Typed rows owner target) {value other : Value} {cell second : Cell}
    (own : record.cell link.ownColumn = cell) (matched : Row.cell (frame.getD link.matchedPlace []) link.matchedColumn = second)
    (first : value.IsKey (owner.table.ref 0 0 link.ownColumn).type cell)
    (also : other.IsKey (owner.table.ref 0 0 link.ownColumn).type second) :
    link.ties owner target record frame = (other.json "").same (value.json "") := by
  rw [Link.ties_eq, Table.agrees, own, matched, typed.one, Cell.orderBetween_of_isStored also.stored first.stored,
    also.json_same first, Bool.eq_iff_iff, also.same_iff first]
  simp [first.ne_null, also.ne_null]

/-- Nothing is tied to a record whose key is null. -/
theorem untied (typed : link.Typed rows owner target) (known : record ∈ rows owner.table.name)
    (null : (record.cell link.ownColumn).shown (owner.table.ref 0 0 link.ownColumn).type = .ok .null) (frame : Frame) :
    link.ties owner target record frame = false := by
  obtain ⟨absent, -⟩ | ⟨value, isKey, json⟩ := (typed.own _ known).exists_isKey null
  · simp [Link.ties_eq, Table.agrees, absent]
  · exact absurd json isKey.json_ne_null

/-- A row that has a key is for the records whose key is the same. -/
theorem same_eq_ties (typed : link.Typed rows owner target) (known : record ∈ rows owner.table.name)
    (inside : frame ∈ link.frames rows target)
    (shown : (record.cell link.ownColumn).shown (owner.table.ref 0 0 link.ownColumn).type = .ok key)
    (shownToo : (Row.cell (frame.getD link.matchedPlace []) link.matchedColumn).shown
      ((link.matchedTable target).ref 0 0 link.matchedColumn).type = .ok given)
    (present : Row.cell (frame.getD link.matchedPlace []) link.matchedColumn ≠ .null) :
    given.same key = link.ties owner target record frame := by
  rw [typed.one] at shownToo
  obtain ⟨null, -⟩ | ⟨other, also, rfl⟩ :=
    (typed.matched _ (Link.mem_of_mem_frames inside).2).exists_isKey shownToo
  · exact absurd null present
  · obtain ⟨null, rfl⟩ | ⟨value, first, rfl⟩ := (typed.own _ known).exists_isKey shown
    · have untied : link.ties owner target record frame = false := by simp [Link.ties_eq, Table.agrees, null]
      rw [untied, Bool.eq_false_iff]
      exact fun same => also.json_ne_null (Json.eq_null_of_same same)
    · exact (typed.ties_iff rfl rfl first also).symm

end Link.Typed

namespace Plan

/-- Whether a query is for a record: it shows the type of the target, if it tells one. -/
theorem isFor_eq_shows {owner target : Resource} {relation : Relation} {record : Row} {row : Members} {query : IncludeQuery}
    (type : query.parentType = relation.link.toldType? target)
    (shows : owner.table.Shows relation.parentColumns record row) :
    isFor query row = relation.link.shows owner target record := by
  rw [isFor, Link.shows, type]
  cases told : relation.link.toldType? target with
  | none => rfl
  | some entry =>
    obtain ⟨column, type⟩ := entry
    obtain ⟨value, is, found⟩ := shows column (Relation.mem_parentColumns_of_toldType? told)
    simp [is, found, Except.toOption]

/-- The query by which a step loads the records of one target. -/
def Loads (graph : Graph) (owner target : Resource) (relation : Relation) (item : Include) (required : List String)
    (query : IncludeQuery) : Prop :=
  ∃ related, Related.ofTarget owner relation target 0 = .ok related ∧
    includeQuery graph related item required = .ok query.query ∧ query.parentColumn = related.parentColumn ∧
    query.parentType = related.parentType ∧
    query.byMoment = decide ((owner.table.ref 0 0 related.parentColumn).type = .datetime)

theorem mem_of_mem_front {α : Type} {limit : Option Int} {items : List α} {item : α}
    (taken : item ∈ front limit items) : item ∈ items := by
  unfold front at taken
  split at taken
  · exact taken
  · exact List.mem_of_mem_take taken
  · exact List.mem_of_mem_take taken

/-- A record of the owner, and a row that carries what the relation needs of it. -/
def Stands (rows : String → List Row) (owner : Resource) (relation : Relation) (record : Row) (row : Members) : Prop :=
  record ∈ rows owner.table.name ∧ owner.table.Shows relation.parentColumns record row

section Loading

variable {graph : Graph} {owner target : Resource} {relation : Relation} {item : Include} {required : List String}
  {query : IncludeQuery} {ground : Ground} {frame : Frame}

private theorem holds_amongParents (ref : ColumnRef) :
    holds ground [frame] (.amongParents ref) =
      ground.parents.any fun parent => Truth.holds (compare .equal ref.type.affinity (cellOf [frame] ref) parent) := by
  rw [holds, truth, among, Truth.holds_any, List.any_map]
  rfl

/-- Keys are handed to a query by the type of the column that they are matched with. -/
private theorem keyType_eq {related : Related} (built : Related.ofTarget owner relation target 0 = .ok related)
    (made : includeQuery graph related item required = .ok query.query) :
    keyType query = ((relation.link.matchedTable target).ref 0 0 relation.link.matchedColumn).type.bindType := by
  obtain ⟨_, _, _, _, -, -, -, -, -, conditions, -⟩ := includeQuery_made made
  rw [keyType, conditions, (Related.matching_eq built).1]
  rfl

/-- A row that belongs to a record is found with the keys of all records: the record's own key is among them. -/
private theorem among_of_ties (typed : relation.link.Typed ground.rows owner target) {related : Related}
    (built : Related.ofTarget owner relation target 0 = .ok related) (inside : frame ∈ relation.link.frames ground.rows target)
    {record other : Row} (known : record ∈ ground.rows owner.table.name) (knownToo : other ∈ ground.rows owner.table.name)
    {key second : Json} (shown : (record.cell relation.link.ownColumn).shown
      (owner.table.ref 0 0 relation.link.ownColumn).type = .ok key)
    (shownToo : (other.cell relation.link.ownColumn).shown (owner.table.ref 0 0 relation.link.ownColumn).type = .ok second)
    (given : second ≠ .null) (same : key = second ∨ key.same second)
    (handed : ∀ (value : Value) (cell : Cell), value.IsKey (owner.table.ref 0 0 relation.link.ownColumn).type cell →
      value.json "" = second → cell ∈ ground.parents) (ties : relation.link.ties owner target record frame) :
    holds ground [frame] (.amongParents related.matching) := by
  obtain ⟨null, rfl⟩ | ⟨value, isKey, rfl⟩ := (typed.own _ known).exists_isKey shown
  · simp [Link.ties_eq, Table.agrees, null] at ties
  obtain ⟨-, rfl⟩ | ⟨another, also, rfl⟩ := (typed.own _ knownToo).exists_isKey shownToo
  · exact absurd rfl given
  have sameOrder : Cell.order (record.cell relation.link.ownColumn) (other.cell relation.link.ownColumn) = .eq := by
    refine (isKey.same_iff also).1 ?_
    rw [← isKey.json_same also]
    rcases same with equal | same
    · rw [equal, also.json_same also]
      exact (also.same_iff also).2 (Cell.order_self _)
    · exact same
  obtain ⟨matched, -⟩ := Related.matching_eq built
  have cell : cellOf [frame] related.matching =
      Row.cell (frame.getD relation.link.matchedPlace []) relation.link.matchedColumn := by
    rw [matched, Nat.zero_add]
    rfl
  have type : related.matching.type = (owner.table.ref 0 0 relation.link.ownColumn).type := by
    rw [matched]
    exact typed.one
  rw [Link.ties_eq, Table.agrees, typed.one] at ties
  simp only [Bool.and_eq_true, bne_iff_ne, beq_iff_eq] at ties
  obtain ⟨⟨present, -⟩, met⟩ := ties
  have stored := ((typed.matched _ (Link.mem_of_mem_frames inside).2).resolve_left present).2.1
  rw [Cell.orderBetween_of_isStored stored isKey.stored] at met
  rw [holds_amongParents, cell, type]
  refine List.any_eq_true.2 ⟨_, handed another _ also rfl, ?_⟩
  rw [holds_compare, Cell.orderFor_of_isStored stored also.stored]
  have apart : Cell.order (Row.cell (frame.getD relation.link.matchedPlace []) relation.link.matchedColumn)
      (other.cell relation.link.ownColumn) = .eq :=
    Cell.order_eq_iff.2 ((Cell.order_eq_iff.1 met).trans (Cell.order_eq_iff.1 sameOrder))
  simp only [apart, beq_self_eq_true, Bool.and_true, Bool.and_eq_true, bne_iff_ne]
  exact ⟨present, also.ne_null⟩

/-- A row shows the key of the record that it stands for. -/
theorem Stands.exists_key {rows : String → List Row} {record : Row} {row : Members}
    (stands : Stands rows owner relation record row) :
    ∃ key, (record.cell relation.link.ownColumn).shown (owner.table.ref 0 0 relation.link.ownColumn).type = .ok key ∧
      row.get? relation.link.ownColumn = some key :=
  stands.2 _ (Relation.ownColumn_mem_parentColumns relation)

/-- A row that belongs to a record is found with the keys that are gathered of several rows, one of them the record's. -/
theorem among_of_keysOf {database : Database} (typed : relation.link.Typed database.rows owner target) {related : Related}
    (built : Related.ofTarget owner relation target 0 = .ok related)
    (made : includeQuery graph related item required = .ok query.query)
    (moments : query.byMoment = decide ((owner.table.ref 0 0 relation.link.ownColumn).type = .datetime))
    {rows : List Members} {keys : List Json} (gathering : keysOf relation.link.ownColumn rows = .ok keys)
    (all : ∀ row ∈ rows, ∃ record, Stands database.rows owner relation record row) {record : Row} {row : Members}
    (listed : row ∈ rows) (stands : Stands database.rows owner relation record row)
    (inside : frame ∈ relation.link.frames database.rows target) (ties : relation.link.ties owner target record frame) :
    holds (Plan.ground database ((keys.map (keyBound query)).map Bound.cell)) [frame] (.amongParents related.matching) := by
  obtain ⟨known, covered⟩ := keysOf_eq_ok gathering
  obtain ⟨key, shown, got⟩ := stands.exists_key
  have nonNull : key ≠ .null := by
    rintro rfl
    exact absurd ties (by simp [typed.untied stands.1 shown frame])
  obtain ⟨second, among, same⟩ := covered row listed (by rwa [got])
  obtain ⟨isGiven, another, there, gotToo⟩ := known second among
  obtain ⟨other, standsToo⟩ := all another there
  obtain ⟨_, shownToo, foundToo⟩ := standsToo.exists_key
  rw [foundToo, Option.getD_some] at gotToo
  subst gotToo
  rw [got] at same
  refine among_of_ties typed built inside stands.1 standsToo.1 shown shownToo isGiven same ?_ ties
  rintro value cell isKey rfl
  refine List.mem_map.2 ⟨_, List.mem_map_of_mem among, cell_keyBound isKey ?_ moments⟩
  exact typed.one ▸ keyType_eq built made

/-- A record that the link does not lead from, or that does not show the type of the target, has no linked records. -/
private theorem linked_eq_nil {rows : String → List Row} {link : Link} {record : Row}
    (apart : link.shows owner target record = false ∨ ∀ frame, link.ties owner target record frame = false) :
    graph.linked rows owner target link item record = [] := by
  have none : (link.frames rows target).filter (fun frame =>
      link.ties owner target record frame && link.shows owner target record && link.accepts rows owner target frame &&
        graph.admits rows target item.filters (frame.getD 0 [])) = [] := by
    refine List.filter_eq_nil_iff.2 fun frame _ => ?_
    rcases apart with untold | untied
    · simp [untold]
    · simp [untied frame]
  rw [Graph.linked, none, firstInOrder, List.mergeSort_nil]

/-- Of the rows that a query finds for some records, those that are tied to one of them are its linked records. -/
private theorem filter_ties_eq_linked {link : Link} {record : Row} {among : Frame → Bool} {keys : List (String × Direction)}
    (order : keys = fullOrder target item.sorts) (told : link.shows owner target record = true)
    (found : ∀ frame ∈ link.frames ground.rows target, link.ties owner target record frame → among frame) :
    (firstInOrder keys ((link.frames ground.rows target).filter fun frame =>
        among frame && link.accepts ground.rows owner target frame &&
          graph.admits ground.rows target item.filters (frame.getD 0 []))).filter (link.ties owner target record) =
      graph.linked ground.rows owner target link item record := by
  subst order
  rw [filter_firstInOrder, Graph.linked, List.filter_filter]
  refine congrArg _ (List.filter_congr fun frame inside => ?_)
  cases ties : link.ties owner target record frame with
  | false => simp
  | true => simp [found frame inside ties, told]

/-- The rows of the result of a query, each with the key by which it is given to parents. -/
private theorem children_of_results (sound : graph.Sound) (member : target ∈ graph.resources) {related : Related}
    (built : Related.ofTarget owner relation target 0 = .ok related) {query : Query}
    (made : includeQuery graph related item required = .ok query) (noScopes : item.scopes = []) {rows : List Members}
    (results : query.results ground = .ok rows) {fields : List String}
    (asked : ∀ name ∈ fields, name ∈ askedFields target item.selects ∨ name ∈ required)
    (free : ∀ name ∈ fields, IsFree name) :
    List.Forall₂ (fun frame (child : Json × Members) => frame ∈ relation.link.frames ground.rows target ∧
        Row.cell (frame.getD relation.link.matchedPlace []) relation.link.matchedColumn ≠ .null ∧
        target.table.Shows fields (frame.getD 0 []) child.2 ∧
        (Row.cell (frame.getD relation.link.matchedPlace []) relation.link.matchedColumn).shown
          ((relation.link.matchedTable target).ref 0 0 relation.link.matchedColumn).type = .ok child.1)
      (firstInOrder (fullOrder target item.sorts) ((relation.link.frames ground.rows target).filter fun frame =>
        holds ground [frame] (.amongParents related.matching) && relation.link.accepts ground.rows owner target frame &&
          graph.admits ground.rows target item.filters (frame.getD 0 [])))
      (rows.map gathered) := by
  obtain ⟨given, nodup⟩ := gives_of_results results
  rw [frames_includeQuery sound member built made noScopes] at given
  rw [List.forall₂_map_right_iff]
  cases rows with
  | nil =>
    rw [List.forall₂_nil_right_iff.1 given]
    exact .nil
  | cons first rest =>
    refine (forall₂_and_mem given).imp fun frame row found => ?_
    obtain ⟨listed, -, gives⟩ := found
    obtain ⟨inside, found⟩ := List.mem_filter.1 (mem_firstInOrder.1 listed)
    refine ⟨inside, ?_, shows_of_includeQuery built made gives (nodup (List.cons_ne_nil _ _)) asked free⟩
    simp only [Bool.and_eq_true] at found
    rw [holds_amongParents] at found
    obtain ⟨parent, -, met⟩ := List.any_eq_true.1 found.1.1
    rw [holds_compare, (Related.matching_eq built).1, Nat.zero_add] at met
    simp only [Bool.and_eq_true, bne_iff_ne] at met
    exact met.1.1

/-- The rows that are given to a record by its key are those that its link leads to. -/
private theorem forall₂_own (typed : relation.link.Typed ground.rows owner target) {fields : List String}
    {among : Frame → Bool} {children : List (Json × Members)}
    (given : List.Forall₂ (fun frame (child : Json × Members) => frame ∈ relation.link.frames ground.rows target ∧
        Row.cell (frame.getD relation.link.matchedPlace []) relation.link.matchedColumn ≠ .null ∧
        target.table.Shows fields (frame.getD 0 []) child.2 ∧
        (Row.cell (frame.getD relation.link.matchedPlace []) relation.link.matchedColumn).shown
          ((relation.link.matchedTable target).ref 0 0 relation.link.matchedColumn).type = .ok child.1)
      (firstInOrder (fullOrder target item.sorts) ((relation.link.frames ground.rows target).filter fun frame =>
        among frame && relation.link.accepts ground.rows owner target frame &&
          graph.admits ground.rows target item.filters (frame.getD 0 [])))
      children)
    {record : Row} (known : record ∈ ground.rows owner.table.name)
    (told : relation.link.shows owner target record = true)
    (found : ∀ frame ∈ relation.link.frames ground.rows target, relation.link.ties owner target record frame → among frame)
    {key : Json} (shown : (record.cell relation.link.ownColumn).shown
      (owner.table.ref 0 0 relation.link.ownColumn).type = .ok key) :
    List.Forall₂ (fun frame row => target.table.Shows fields (frame.getD 0 []) row)
      (graph.linked ground.rows owner target relation.link item record)
      ((children.filter (·.1.same key)).map (·.2)) := by
  rw [← filter_ties_eq_linked rfl told found, List.forall₂_map_right_iff]
  refine (List.rel_filter (fun frame child found => ?_) given).imp fun _ _ both => both.2.2.1
  obtain ⟨inside, present, -, shownToo⟩ := found
  exact Iff.of_eq (congrArg (· = true) (typed.same_eq_ties known inside shown shownToo present).symm)

/-- The start of a list, in which the items have partners. -/
private theorem forall₂_front {α β : Type} {r : α → β → Prop} {limit : Option Int}
    (notNegative : ∀ count, limit = some count → 0 ≤ count) {firsts : List α} {seconds : List β}
    (related : List.Forall₂ r firsts seconds) : List.Forall₂ r (limited limit firsts) (front limit seconds) := by
  cases limit with
  | none => exact related
  | some count =>
    obtain ⟨n, rfl⟩ := Int.eq_ofNat_of_zero_le (notNegative count rfl)
    exact List.forall₂_take n related

/-- Loading leaves the database as it is. -/
theorem loadQuery_database {step : IncludeStep} {parents : List Members} {work after : Work} {found : List Loaded}
    (ran : (loadQuery step parents query).runOn work = (.ok found, after)) : after.database = work.database := by
  unfold loadQuery at ran
  obtain ⟨keys, -, ran⟩ := Job.of_bind_eq_ok.1 ran
  split at ran
  · cases ran
    rfl
  · obtain ⟨_, told, telling, ran⟩ := Job.bind_eq_ok.1 ran
    rw [Job.tell_runOn] at telling
    cases telling
    obtain ⟨rows, _, running, ran⟩ := Job.bind_eq_ok.1 ran
    obtain ⟨rfl, -⟩ := run_eq_ok running
    cases ran
    rfl

/-- What the query of a step finds is given to the records that it belongs to: to each what its link leads to, in the
order of the include, up to the limit. -/
theorem loadQuery_eq_ok (sound : graph.Sound) (member : target ∈ graph.resources)
    (loads : Loads graph owner target relation item required query) (noScopes : item.scopes = [])
    {step : IncludeStep} (limit : step.limit = item.limit) (notNegative : ∀ count, item.limit = some count → 0 ≤ count)
    (fields : List String) (asked : ∀ name ∈ fields, name ∈ askedFields target item.selects ∨ name ∈ required)
    (free : ∀ name ∈ fields, IsFree name) {work after : Work}
    (typed : relation.link.Typed work.database.rows owner target) {records : List Row} {parents : List Members}
    (stand : List.Forall₂ (Stands work.database.rows owner relation) records parents) {found : List Loaded}
    (ran : (loadQuery step parents query).runOn work = (.ok found, after)) :
    List.Forall₂ (fun (given : Nat × Frame) loaded =>
        loaded.parent = given.1 ∧ target.table.Shows fields (given.2.getD 0 []) loaded.row)
      (records.zipIdx.flatMap fun (record, place) =>
        (limited item.limit (graph.linked work.database.rows owner target relation.link item record)).map (place, ·))
      found := by
  obtain ⟨related, built, made, ofColumn, ofType, moments⟩ := loads
  obtain ⟨matching, column, type⟩ := Related.matching_eq built
  rw [column] at ofColumn moments
  have pairs : List.Forall₂ (fun (entry : Row × Nat) (given : Members × Nat) =>
      Stands work.database.rows owner relation entry.1 given.1 ∧ entry.2 = given.2)
      (records.zipIdx.filter fun entry => relation.link.shows owner target entry.1)
      (parents.zipIdx.filter (isFor query ·.1)) :=
    List.rel_filter (fun _ _ both => Iff.of_eq (congrArg (· = true) (isFor_eq_shows (ofType.trans type) both.1.2).symm))
      (forall₂_zipIdx stand 0)
  rw [← flatMap_filter_of_nil (p := fun entry => relation.link.shows owner target entry.1) fun entry untold => by
    cases same : item.limit <;> simp [linked_eq_nil (.inl untold), limited]]
  unfold loadQuery at ran
  obtain ⟨keys, gathering, ran⟩ := Job.of_bind_eq_ok.1 ran
  rw [ofColumn] at gathering
  dsimp only at ran gathering
  split at ran
  · next empty =>
    cases ran
    obtain rfl : keys = [] := by simpa using empty
    rw [List.flatMap_eq_nil_iff.2]
    · exact .nil
    · rintro ⟨record, place⟩ inside
      obtain ⟨⟨row, _⟩, chosen, stands, rfl⟩ := forall₂_mem_left pairs inside
      obtain ⟨key, shown, got⟩ := stands.exists_key
      have null : key = .null := by
        by_contra given
        obtain ⟨_, listed, -⟩ := (keysOf_eq_ok gathering).2 row (List.mem_map_of_mem chosen) (by rwa [got])
        cases listed
      have none : graph.linked work.database.rows owner target relation.link item record = [] :=
        linked_eq_nil (.inr fun frame => typed.untied stands.1 (null ▸ shown) frame)
      cases same : item.limit <;> simp [none, limited]
  · obtain ⟨_, told, telling, ran⟩ := Job.bind_eq_ok.1 ran
    rw [Job.tell_runOn] at telling
    cases telling
    obtain ⟨rows, _, running, ran⟩ := Job.bind_eq_ok.1 ran
    obtain ⟨rfl, -, results⟩ := run_eq_ok running
    cases ran
    refine List.rel_flatMap (forall₂_and_mem pairs) fun entry given paired => ?_
    obtain ⟨listed, chosen, stands, samePlace⟩ := paired
    have children := children_of_results sound member built made noScopes results asked free
    obtain ⟨key, shown, got⟩ := stands.exists_key
    have all : ∀ row ∈ (parents.zipIdx.filter (isFor query ·.1)).map (·.1),
        ∃ record, Stands work.database.rows owner relation record row := by
      intro row there
      obtain ⟨⟨row, _⟩, chosenToo, rfl⟩ := List.mem_map.1 there
      obtain ⟨other, -, standsToo, -⟩ := forall₂_mem_right pairs chosenToo
      exact ⟨other.1, standsToo⟩
    have found (frame : Frame) (inside : frame ∈ relation.link.frames work.database.rows target)
        (ties : relation.link.ties owner target entry.1 frame) :=
      among_of_keysOf typed built made moments gathering all (List.mem_map_of_mem chosen) stands inside ties
    have own := forall₂_own typed children stands.1 (by simpa using (List.mem_filter.1 listed).2) found shown
    rw [List.forall₂_map_left_iff, List.forall₂_map_right_iff, limit, ofColumn, got]
    exact forall₂_front notNegative (own.imp fun frame row shows => ⟨samePlace.symm, shows⟩)

end Loading

end Plan

end ResourceApi
