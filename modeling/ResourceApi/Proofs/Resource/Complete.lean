import ResourceApi.Proofs.Relation.BroughtIn
import ResourceApi.Proofs.Resource.Built
import ResourceApi.Search.Plan

/-!
What a graph refers to is there. The names that a resource and the links of its relations go by are columns of the
tables they are looked up in, and relations lead to resources of the graph, so that nothing fails for want of them.
-/

namespace ResourceApi

open Outcome

/-- The columns that a link is followed and written by, each with its table. -/
def Link.namedColumns (own target : Table) : Link → List (Table × String)
  | .child link =>
    (own, link.localKey) ::
      (link.foreignKey :: link.morphType.toList ++ (link.pick.map (·.column)).toList).map (target, ·)
  | .parent link => (target, link.ownerKey) :: (link.foreignKey :: link.morphType.toList).map (own, ·)
  | .pivot link =>
    (own, link.localKey) :: (target, link.targetKey) ::
      (link.foreignKey :: link.relatedKey :: (link.morph.map (·.1)).toList ++ link.fields).map (link.table, ·)
  | .through link =>
    [(own, link.localKey), (target, link.secondKey), (link.table, link.firstKey), (link.table, link.secondLocalKey)]

/-- The table that stands between the two of a link. -/
def Link.middle? : Link → Option Table
  | .child _ | .parent _ => none
  | .pivot link => some link.table
  | .through link => some link.table

/-- A link that goes by columns that are there, and through a table of the schema. -/
structure Link.Grounded (schema : Schema) (own target : Table) (link : Link) : Prop where
  columns : ∀ entry ∈ link.namedColumns own target, entry.1.hasColumn entry.2
  between : ∀ table, link.middle? = some table → schema.table? table.name = some table

/-- A relation whose targets and tables are there, with every column that its link goes by. -/
structure Relation.Complete (schema : Schema) (graph : Graph) (owner : Resource) (relation : Relation) : Prop where
  led : relation.targets ≠ []
  columns : ∀ name ∈ relation.targets, ∃ target, graph.get? name = some target ∧
    ∀ entry ∈ relation.link.namedColumns owner.table target.table, entry.1.hasColumn entry.2
  between : ∀ table, relation.link.middle? = some table → schema.table? table.name = some table

/-- A resource whose names are columns of its table, and whose relations are complete. -/
structure Resource.Complete (schema : Schema) (graph : Graph) (resource : Resource) : Prop where
  key : resource.table.hasColumn resource.key
  fields : ∀ name ∈ resource.fields, resource.table.hasColumn name
  fillable : ∀ name ∈ resource.fillable, resource.table.hasColumn name
  ordered : ∀ entry ∈ resource.defaultOrder, resource.table.hasColumn entry.1
  deleted : ∀ name, resource.deletedAt = some name → resource.table.hasColumn name
  relations : ∀ relation ∈ resource.relations, relation.Complete schema graph resource

/-- Related rows that are looked for in a resource of the graph, by columns that are there. -/
structure Related.Grounded (graph : Graph) (owner : Resource) (related : Related) : Prop where
  target : related.target ∈ graph.resources
  parent : owner.table.hasColumn related.parentColumn
  told : ∀ entry ∈ related.parentType, owner.table.hasColumn entry.1
  matched : ∃ table ∈ related.target.table :: related.relation.link.middle?.toList,
    table.hasColumn related.matching.name
  carried : ∀ column ∈ related.pivotColumns, ∃ table, related.relation.link.middle? = some table ∧
    table.hasColumn column.name

/-- A declaration that is right in what the checks do not look at: a key that is given is a column, and every relation
names a target. -/
structure ResourceDeclaration.Settled (declaration : ResourceDeclaration) : Prop where
  key : ∀ key, declaration.options.get? "key" = some key → key = .null ∨ key.isName declaration.table.columnNames
  led : ∀ relation ∈ declaration.relations, relation.targets ≠ []

theorem Schema.table?_name {schema : Schema} {name : String} {table : Table}
    (found : schema.table? name = some table) : schema.table? table.name = some table := by
  have sameName : table.name = name := by simpa using List.find?_some found
  rw [sameName, found]

/-- A relation that is declared with a target, unless it may have several. -/
def RelationDeclaration.IsLed (declaration : RelationDeclaration) : Prop :=
  declaration.kind ≠ .morphTo → declaration.targets ≠ []

private theorem RelationDeclaration.isLed_of_collected {name : String} {kind : Kind} {given : Members}
    {declaration : RelationDeclaration} (read : (do
      let given ← collected "pivot_fields" given
      match optionIssue? kind given with
      | some problem => .error (.misconfigured [s!"{name}: invalid {kind.name} options: {problem}"])
      | none => .ok (ofOptions name kind given)) = (.ok declaration : Except Failure RelationDeclaration)) :
    declaration.IsLed := by
  obtain ⟨given, -, read⟩ := bind_eq_ok.1 read
  split at read
  · cases read
  · cases read
    cases kind <;> simp [IsLed, ofOptions]

/-- Declarations that are read name the target of every relation that has one. -/
theorem RelationDeclaration.isLed_of_read {name : String} {data : Members} {declaration : RelationDeclaration}
    (read : RelationDeclaration.read name data = .ok declaration) : declaration.IsLed := by
  unfold RelationDeclaration.read at read
  split at read
  · cases read
  · next kind _ =>
    dsimp only at read
    split at read
    · obtain ⟨_, -, read⟩ := bind_eq_ok.1 read
      exact isLed_of_collected read
    · exact isLed_of_collected read

theorem ResourceDeclaration.isLed_of_readAll {schema : Schema} {mapping : Members}
    {declarations : List ResourceDeclaration} (read : ResourceDeclaration.readAll schema mapping = .ok declarations) :
    ∀ declaration ∈ declarations, ∀ relation ∈ declaration.relations, relation.IsLed := by
  have ofRelations {name : String} {entries : Members} {relations : List RelationDeclaration} {issues : List String}
      (read : readRelations name entries = .ok (relations, issues)) : ∀ relation ∈ relations, relation.IsLed := by
    induction entries generalizing relations issues with
    | nil =>
      cases read
      exact List.forall_mem_nil _
    | cons entry rest ih =>
      obtain ⟨options, -, read⟩ := bind_eq_ok.1 read
      split at read
      · next relation made =>
        obtain ⟨⟨others, found⟩, later, same⟩ := bind_eq_ok.1 read
        cases pure_eq_ok.1 same
        exact List.forall_mem_cons.2 ⟨RelationDeclaration.isLed_of_read made, ih later⟩
      · obtain ⟨⟨others, found⟩, later, same⟩ := bind_eq_ok.1 read
        cases pure_eq_ok.1 same
        exact ih later
      · cases read
  intro declaration member relation listed
  obtain ⟨entries, -, read⟩ := bind_eq_ok.1 read
  obtain ⟨found, each, read⟩ := bind_eq_ok.1 read
  split at read
  · obtain rfl := pure_eq_ok.1 read
    obtain ⟨⟨some_, issues⟩, given, same⟩ := List.mem_filterMap.1 member
    obtain ⟨entry, -, readOne⟩ := mapM_mem each given
    obtain rfl : some_ = some declaration := same
    unfold ResourceDeclaration.readOne at readOne
    obtain ⟨spec, -, readOne⟩ := bind_eq_ok.1 readOne
    dsimp only at readOne
    split at readOne
    · cases readOne
    · split at readOne
      · cases readOne
      · simp only [bind_eq_ok] at readOne
        obtain ⟨_, -, _, -, _, relations, readOne⟩ := readOne
        split at readOne
        · cases readOne
        · cases readOne
          exact ofRelations relations relation listed
  · cases read

/-! ## Links -/

namespace ResourceDefinition

theorem hasColumn_of_targetIssues {label : String} {targets : List Table} {names : List Json}
    (none : targetIssues label targets names = .ok []) {table : Table} (member : table ∈ targets) {name : String}
    (listed : .text name ∈ names) : table.hasColumn name := by
  simp only [targetIssues, bind_eq_ok, pure_eq_ok] at none
  obtain ⟨perTarget, checked, empty⟩ := none
  obtain ⟨messages, given, check⟩ := mapM_image checked member
  obtain rfl := List.flatten_eq_nil_iff.1 empty messages given
  exact hasColumn_of_missingColumns check listed

/-- A table between two others in which no issue was found is there, with the columns that are needed. -/
theorem table_of_betweenIssues {label role : String} {schema : Schema} {name : Json} {names : List Json}
    (none : betweenIssues label role schema name names = .ok []) {text : String} {table : Table}
    (given : name = .text text) (found : schema.table? text = some table) :
    ∀ column, .text column ∈ names → table.hasColumn column := by
  intro column listed
  simp only [betweenIssues, bind_eq_ok] at none
  obtain ⟨chosen, named, none⟩ := none
  have named : chosen = some table := by
    simpa [namedTable, given, Json.isScalar, Json.isList, Json.isObject, Json.text?, found, eq_comm] using named
  rw [named] at none
  exact hasColumn_of_missingColumns none listed

/-- The column by which one record is picked is one of every target. -/
theorem hasColumn_of_pickIssues {label : String} {targets : List Table} {declaration : RelationDeclaration}
    (none : pickIssues label targets declaration.ofMany = .ok []) {pick : Pick}
    (read : declaration.pick? = some (some pick)) {table : Table} (member : table ∈ targets) :
    table.hasColumn pick.column := by
  unfold RelationDeclaration.pick? at read
  split at read
  · cases read
  · next column extreme given =>
    simp only [Option.bind_eq_bind, Option.bind_eq_some_iff, Option.some.injEq] at read
    obtain ⟨_, -, _, -, text, named, rfl⟩ := read
    simp only [given, pickIssues, bind_eq_ok, pure_eq_ok, List.append_eq_nil_iff] at none
    obtain ⟨found, onTargets, rfl, -⟩ := none
    exact hasColumn_of_targetIssues onTargets member (by simp [text_of_text? named])

section

variable {label : String} {schema : Schema} {own : Table} {targets : List Table} {declaration : RelationDeclaration}
  {link : Link} {target : Table}

theorem grounded_of_childIssues (place : declaration.kind.linkPlace = .child)
    (none : linkIssues label schema own targets declaration = .ok []) (linked : declaration.link? schema = some link)
    (member : target ∈ targets) :
    link.Grounded schema own target := by
  unfold linkIssues at none
  unfold RelationDeclaration.link? at linked
  simp only [place, Option.bind_eq_bind, Option.bind_eq_some_iff, Option.pure_def, Option.some.injEq] at linked
  obtain ⟨foreignKey, foreign, localKey, key, pick, picked, rfl⟩ := linked
  simp only [place, bind_eq_ok, pure_eq_ok, List.append_eq_nil_iff] at none
  obtain ⟨_, ofOwn, _, ofTargets, _, ofPick, ⟨rfl, rfl⟩, rfl⟩ := none
  refine ⟨?_, fun _ same => by cases same⟩
  simp only [Link.namedColumns, List.forall_mem_cons, List.forall_mem_map, List.cons_append, List.forall_mem_append]
  refine ⟨hasColumn_of_missingColumns ofOwn (by simp [text_of_text? key]),
    hasColumn_of_targetIssues ofTargets member (by simp [text_of_text? foreign]), ?_, ?_⟩
  · intro column typed
    exact hasColumn_of_targetIssues ofTargets member (by simpa using .inr (Option.mem_toList.1 typed))
  · intro column chosen
    obtain ⟨pick, rfl, rfl⟩ := Option.map_eq_some_iff.1 (Option.mem_toList.1 chosen)
    exact hasColumn_of_pickIssues ofPick picked member

/-- The key of a parent is checked on the targets, the column that holds it on the table itself. -/
theorem grounded_of_parentIssues (place : declaration.kind.linkPlace = .parent)
    (none : linkIssues label schema own targets declaration = .ok []) (linked : declaration.link? schema = some link)
    (member : target ∈ targets) :
    link.Grounded schema own target := by
  unfold linkIssues at none
  unfold RelationDeclaration.link? at linked
  simp only [place, Option.bind_eq_bind, Option.bind_eq_some_iff, Option.pure_def, Option.some.injEq] at linked
  obtain ⟨foreignKey, foreign, ownerKey, key, rfl⟩ := linked
  simp only [place, bind_eq_ok, pure_eq_ok, List.append_eq_nil_iff] at none
  obtain ⟨_, ofOwn, _, ofTargets, rfl, rfl⟩ := none
  refine ⟨?_, fun _ same => by cases same⟩
  simp only [Link.namedColumns, List.forall_mem_cons, List.forall_mem_map]
  refine ⟨hasColumn_of_targetIssues ofTargets member (by simp [text_of_text? key]),
    hasColumn_of_missingColumns ofOwn (by simp [text_of_text? foreign]), ?_⟩
  intro column typed
  refine hasColumn_of_missingColumns ofOwn (List.mem_cons_of_mem _ ?_)
  rw [Option.mem_toList] at typed
  split at typed
  · next several => simp [several, typed, Json.ofText?]
  · cases typed

theorem grounded_of_pivotIssues (place : declaration.kind.linkPlace = .pivot)
    (none : linkIssues label schema own targets declaration = .ok []) (linked : declaration.link? schema = some link)
    (member : target ∈ targets) :
    link.Grounded schema own target := by
  unfold linkIssues at none
  unfold RelationDeclaration.link? at linked
  simp only [place, Option.bind_eq_bind, Option.bind_eq_some_iff, Option.pure_def, Option.some.injEq] at linked
  obtain ⟨name, named, table, found, foreignKey, foreign, relatedKey, related, localKey, key, targetKey, referred,
    fields, texts, rfl⟩ := linked
  simp only [place, bind_eq_ok, pure_eq_ok, List.append_eq_nil_iff] at none
  obtain ⟨_, ofTable, _, ofOwn, _, ofTargets, ⟨rfl, rfl⟩, rfl⟩ := none
  have present := table_of_betweenIssues ofTable (text_of_text? named) found
  refine ⟨?_, fun _ same => ?_⟩
  · simp only [Link.namedColumns, List.forall_mem_cons, List.forall_mem_map, List.cons_append, List.forall_mem_append]
    refine ⟨hasColumn_of_missingColumns ofOwn (by simp [text_of_text? key]),
      hasColumn_of_targetIssues ofTargets member (by simp [text_of_text? referred]),
      present _ (by simp [text_of_text? foreign]), present _ (by simp [text_of_text? related]), ?_, ?_⟩
    · intro column typed
      refine present _ ?_
      obtain ⟨entry, told, rfl⟩ := Option.map_eq_some_iff.1 (Option.mem_toList.1 typed)
      have declared : declaration.morphType = some entry.1 := by
        split at told
        · obtain ⟨_, declared, rfl⟩ := Option.map_eq_some_iff.1 told
          exact declared
        · obtain ⟨_, declared, rfl⟩ := Option.map_eq_some_iff.1 told
          exact declared
        · cases told
      simp [declared]
    · intro column listed
      exact present _ (by simp [names_of_texts texts listed])
  · cases same
    exact Schema.table?_name found

theorem grounded_of_throughIssues (place : declaration.kind.linkPlace = .through)
    (none : linkIssues label schema own targets declaration = .ok []) (linked : declaration.link? schema = some link)
    (member : target ∈ targets) :
    link.Grounded schema own target := by
  unfold linkIssues at none
  unfold RelationDeclaration.link? at linked
  simp only [place, Option.bind_eq_bind, Option.bind_eq_some_iff, Option.pure_def, Option.some.injEq] at linked
  obtain ⟨name, named, table, found, firstKey, first, secondKey, second, localKey, key, secondLocalKey, secondLocal,
    rfl⟩ := linked
  simp only [place, bind_eq_ok, pure_eq_ok, List.append_eq_nil_iff] at none
  obtain ⟨_, ofTable, _, ofOwn, _, ofTargets, ⟨rfl, rfl⟩, rfl⟩ := none
  have present := table_of_betweenIssues ofTable (text_of_text? named) found
  refine ⟨?_, fun _ same => ?_⟩
  · simp only [Link.namedColumns, List.forall_mem_cons]
    exact ⟨hasColumn_of_missingColumns ofOwn (by simp [text_of_text? key]),
      hasColumn_of_targetIssues ofTargets member (by simp [text_of_text? second]),
      present _ (by simp [text_of_text? first]), present _ (by simp [text_of_text? secondLocal]), List.forall_mem_nil _⟩
  · cases same
    exact Schema.table?_name found

/-- A link in which no issue was found: the columns that it goes by are there, and so is the table in between. -/
theorem grounded_of_linkIssues (none : linkIssues label schema own targets declaration = .ok [])
    (linked : declaration.link? schema = some link) (member : target ∈ targets) :
    link.Grounded schema own target := by
  cases place : declaration.kind.linkPlace with
  | child => exact grounded_of_childIssues place none linked member
  | parent => exact grounded_of_parentIssues place none linked member
  | pivot => exact grounded_of_pivotIssues place none linked member
  | through => exact grounded_of_throughIssues place none linked member

end

end ResourceDefinition

/-! ## Resources -/

namespace ResourceDefinition

/-- The relations that are kept are among those that were declared. -/
theorem mem_of_mem_distinctRelations {relations : List RelationDeclaration} {relation : RelationDeclaration}
    (member : relation ∈ distinctRelations relations) : relation ∈ relations := by
  have loop (rest kept : List RelationDeclaration)
      (member : relation ∈ rest.foldl (fun kept relation =>
        if kept.any (·.name == relation.name) then
          kept.map fun old => if old.name == relation.name then relation else old
        else kept ++ [relation]) kept) : relation ∈ kept ∨ relation ∈ rest := by
    induction rest generalizing kept with
    | nil => exact .inl member
    | cons first rest ih =>
      rcases ih _ member with before | later
      · dsimp only at before
        split at before
        · obtain ⟨old, present, rfl⟩ := List.mem_map.1 before
          split
          · exact .inr List.mem_cons_self
          · exact .inl present
        · rcases List.mem_append.1 before with old | new
          · exact .inl old
          · exact .inr (by simp [List.mem_singleton.1 new])
      · exact .inr (List.mem_cons_of_mem _ later)
  simpa using loop relations [] member

/-- A key that is given as a column or left to the table is a column. -/
theorem hasColumn_of_declaredKey {declaration : ResourceDeclaration} (settled : declaration.Settled) {name : String}
    (chosen : declaredKey declaration = .ok (.text name)) : declaration.table.hasColumn name := by
  unfold declaredKey at chosen
  have ofTable {column : Column} {rest : List Column} (keys : declaration.table.keyColumns = column :: rest) :
      declaration.table.hasColumn column.name := by
    have isKey : column ∈ declaration.table.keyColumns := keys ▸ List.mem_cons_self
    exact Table.hasColumn_of_mem (List.mem_map_of_mem (List.mem_filter.1 isKey).1)
  split at chosen
  · next keys =>
    cases chosen
    exact ofTable keys
  · next keys =>
    cases chosen
    exact ofTable keys
  · cases chosen
  · cases chosen
  · next key given _ _ =>
    cases chosen
    rcases settled.key _ given with absent | column
    · cases absent
    · exact Table.hasColumn_of_mem (by simpa [Json.isName] using column)

/-- A relation of a definition in which no issue was found is complete, if it leads anywhere. -/
theorem complete_of_relationIssues {schema : Schema} {definitions : List ResourceDefinition}
    {definition : ResourceDefinition} {graph : Graph} {owner : Resource} {declaration : RelationDeclaration}
    {relation : Relation} (none : relationIssues schema definitions definition declaration = .ok [])
    (read : declaration.relation? schema = some relation) (same : owner.table = definition.table)
    (led : declaration.targets ≠ [])
    (found : ∀ name other, definitions.find? (·.name == name) = some other →
      ∃ target, graph.get? name = some target ∧ target.table = other.table) :
    relation.Complete schema graph owner := by
  obtain ⟨known, label, linkNone⟩ := relationIssues_none none
  simp only [RelationDeclaration.relation?, Option.bind_eq_bind, Option.bind_eq_some_iff, Option.pure_def,
    Option.some.injEq] at read
  obtain ⟨names, targets, link, linked, rfl⟩ := read
  have named := mapM_eq_some.1 targets
  have checked (name : String) (listed : name ∈ names) : ∃ target, graph.get? name = some target ∧
      link.Grounded schema owner.table target.table := by
    obtain ⟨value, declared, text⟩ := forall₂_mem_right named listed
    obtain ⟨other, chosen⟩ := Option.isSome_iff_exists.1 (known value declared)
    have there : definitions.find? (·.name == name) = some other := by
      rw [← chosen, named?, text, Option.bind_some]
    obtain ⟨target, got, sameTable⟩ := found name other there
    refine ⟨target, got, same ▸ sameTable ▸ grounded_of_linkIssues linkNone linked ?_⟩
    exact List.mem_filterMap.2 ⟨value, declared, by rw [chosen, Option.map_some]⟩
  refine ⟨?_, ?_, ?_⟩
  · rintro (rfl : names = [])
    exact led (List.forall₂_nil_right_iff.1 named)
  · intro name listed
    obtain ⟨target, got, grounded⟩ := checked name listed
    exact ⟨target, got, grounded.columns⟩
  · cases names with
    | nil => exact absurd (List.forall₂_nil_right_iff.1 named) led
    | cons first rest =>
      obtain ⟨_, -, grounded⟩ := checked first List.mem_cons_self
      exact grounded.between

/-- The column that marks deleted records, in which no issue was found. -/
theorem hasColumn_of_softDeleteIssues {definition : ResourceDefinition}
    (none : definition.softDeleteIssues = .ok []) {name : String} (marked : definition.deletedAt? = some (some name)) :
    definition.table.hasColumn name := by
  unfold softDeleteIssues at none
  unfold deletedAt? at marked
  split at marked
  · next soft =>
    obtain ⟨column, text, same⟩ := Option.map_eq_some_iff.1 marked
    obtain rfl := Option.some.inj same
    simp only [soft, if_true, bind_eq_ok, pure_eq_ok] at none
    obtain ⟨isThere, asked, absent⟩ := none
    rw [text_of_text? text] at asked
    simp only [isColumnOption, Json.isSingle, Json.isScalar, Json.isList, Json.isObject, Json.isName] at asked
    refine Table.hasColumn_of_mem ?_
    cases isThere with
    | false => simp at absent
    | true => simpa using asked
  · cases marked

/-- A resource in whose definition no issue was found is complete. -/
theorem complete_of_issues {schema : Schema} {definitions : List ResourceDefinition}
    {definition : ResourceDefinition} {declaration : ResourceDeclaration} {graph : Graph} {resource : Resource}
    (none : definition.issues schema definitions = .ok []) (read : definition.resource? schema = some resource)
    (made : ofDeclaration declaration = .ok definition) (settled : declaration.Settled)
    (found : ∀ name other, definitions.find? (·.name == name) = some other →
      ∃ target, graph.get? name = some target ∧ target.table = other.table) : resource.Complete schema graph := by
  simp only [issues, bind_eq_ok, pure_eq_ok, List.append_eq_nil_iff] at none
  obtain ⟨_, ownNone, perRelation, checked, rfl, allEmpty⟩ := none
  simp only [ownIssues, bind_eq_ok, pure_eq_ok, List.append_eq_nil_iff, List.map_eq_nil_iff] at ownNone
  obtain ⟨_, fieldsNone, _, fillableNone, perEntry, ordered, _, deletedNone,
    ⟨⟨⟨rfl, rfl⟩, orderEmpty⟩, -⟩, rfl⟩ := ownNone
  simp only [resource?, Option.bind_eq_bind, Option.bind_eq_some_iff, Option.pure_def, Option.some.injEq] at read
  obtain ⟨key, keyText, fields, fieldTexts, order, entries, deletedAt, deleted, relations, read, fillable,
    fillableTexts, rfl⟩ := read
  simp only [ofDeclaration, bind_eq_ok, pure_eq_ok] at made
  obtain ⟨declaredKey, chosen, _, -, _, -, _, -, _, -, rfl⟩ := made
  refine ⟨?_, ?_, ?_, ?_, ?_, ?_⟩
  · exact hasColumn_of_declaredKey settled (text_of_text? keyText ▸ chosen)
  · intro name listed
    exact hasColumn_of_strangers fieldsNone (names_of_texts fieldTexts listed)
  · intro name listed
    exact hasColumn_of_strangers fillableNone (names_of_texts fillableTexts listed)
  · rintro ⟨name, direction⟩ listed
    obtain ⟨entry, declared, readEntry⟩ := forall₂_mem_right (mapM_eq_some.1 entries) listed
    obtain ⟨messages, given, check⟩ := mapM_image ordered declared
    obtain rfl := List.flatten_eq_nil_iff.1 orderEmpty messages given
    exact hasColumn_of_orderIssues check readEntry
  · intro name marked
    obtain rfl : deletedAt = some name := marked
    exact hasColumn_of_softDeleteIssues deletedNone deleted
  · intro relation listed
    obtain ⟨declared, present, readRelation⟩ := forall₂_mem_right (mapM_eq_some.1 read) listed
    obtain ⟨messages, given, check⟩ := mapM_image checked present
    obtain rfl := List.flatten_eq_nil_iff.1 allEmpty messages given
    exact complete_of_relationIssues check readRelation rfl (settled.led _ (mem_of_mem_distinctRelations present)) found

end ResourceDefinition

namespace Resource.Complete

variable {schema : Schema} {graph : Graph} {resource : Resource}

theorem keyColumn_eq_ok (complete : resource.Complete schema graph) (slot : Nat) :
    ∃ column, Plan.keyColumn resource slot = .ok column := by
  obtain ⟨column, found⟩ := Option.isSome_iff_exists.1 complete.key
  exact ⟨_, by rw [Plan.keyColumn, found]⟩

end Resource.Complete

namespace Relation.Complete

variable {schema : Schema} {graph : Graph} {owner : Resource} {relation : Relation}

theorem target_eq_ok (complete : relation.Complete schema graph owner) :
    ∃ target ∈ graph.resources, graph.target relation = .ok target := by
  unfold Graph.target
  cases leads : relation.targets with
  | nil => exact absurd leads complete.led
  | cons name rest =>
    obtain ⟨target, found, -⟩ := complete.columns name (leads ▸ List.mem_cons_self)
    exact ⟨target, Graph.mem_of_get? found, by simp only [found]⟩

/-- The related rows in a target are looked for by columns that are there. -/
theorem grounded_of_ofTarget {target : Resource} (member : target ∈ graph.resources)
    (columns : ∀ entry ∈ relation.link.namedColumns owner.table target.table, entry.1.hasColumn entry.2) :
    ∃ related, Related.ofTarget owner relation target 0 = .ok related ∧ related.Grounded graph owner := by
  obtain ⟨related, made⟩ := Related.ofTarget_total owner target relation 0
  refine ⟨related, made, ?_⟩
  unfold Related.ofTarget at made
  cases same : relation.link with
  | child link =>
    simp only [same, Related.ofChild, bind_eq_ok, pure_eq_ok] at made
    obtain ⟨_, -, _, -, rfl⟩ := made
    simp only [same, Link.namedColumns, List.cons_append, List.map_cons, List.forall_mem_cons] at columns
    exact ⟨member, columns.1, by simp, ⟨_, List.mem_cons_self, columns.2.1⟩, List.forall_mem_nil _⟩
  | parent link =>
    simp only [same] at made
    cases made
    simp only [same, Link.namedColumns, List.map_cons, List.forall_mem_cons, List.forall_mem_map] at columns
    refine ⟨member, columns.2.1, fun entry typed => ?_, ⟨_, List.mem_cons_self, columns.1⟩, List.forall_mem_nil _⟩
    obtain ⟨column, told, rfl⟩ := Option.map_eq_some_iff.1 typed
    exact columns.2.2 column (Option.mem_toList.2 told)
  | pivot link =>
    simp only [same, Related.ofPivot, bind_eq_ok, pure_eq_ok] at made
    obtain ⟨_, -, rfl⟩ := made
    simp only [same, Link.namedColumns, List.cons_append, List.forall_mem_cons, List.map_cons, List.forall_mem_map,
      List.forall_mem_append] at columns
    refine ⟨member, columns.1, by simp, ⟨link.table, by simp [same, Link.middle?], columns.2.2.1⟩, fun _ listed => ?_⟩
    obtain ⟨column, shown, rfl⟩ := List.mem_map.1 listed
    exact ⟨link.table, by simp [same, Link.middle?], columns.2.2.2.2.2 column shown⟩
  | through link =>
    simp only [same] at made
    cases made
    simp only [same, Link.namedColumns, List.forall_mem_cons] at columns
    exact ⟨member, columns.1, (fun _ told => by cases told), ⟨link.table, by simp [Related.ofThrough, same, Link.middle?], columns.2.2.1⟩,
      List.forall_mem_nil _⟩

private theorem exists_target (complete : relation.Complete schema graph owner) {name : String}
    (listed : name ∈ relation.targets) : ∃ target, graph.get? name = some target ∧
      ∃ related, Related.ofTarget owner relation target 0 = .ok related ∧ related.Grounded graph owner := by
  obtain ⟨target, got, columns⟩ := complete.columns name listed
  exact ⟨target, got, grounded_of_ofTarget (Graph.mem_of_get? got) columns⟩

private theorem exists_related (complete : relation.Complete schema graph owner) {name : String}
    (listed : name ∈ relation.targets) : ∃ related, (match graph.get? name with
      | some target => Related.ofTarget owner relation target 0
      | none => .error (.fault (.unknownEntry name))) = .ok related ∧ related.Grounded graph owner := by
  obtain ⟨target, got, related, made, grounded⟩ := complete.exists_target listed
  exact ⟨related, by simp only [got, made], grounded⟩

/-- Related rows are looked for in at least one target, by columns that are there. -/
theorem each_eq_ok (complete : relation.Complete schema graph owner) :
    ∃ sources, Related.each graph owner relation = .ok sources ∧ sources ≠ [] ∧
      ∀ related ∈ sources, related.Grounded graph owner := by
  unfold Related.each
  split
  · obtain ⟨sources, made⟩ := exists_forall₂ fun _ => complete.exists_related
    refine ⟨sources, mapM_eq_ok.2 (made.imp fun _ _ both => both.1), ?_, fun related listed => ?_⟩
    · rintro rfl
      exact complete.led (List.forall₂_nil_right_iff.1 made)
    · obtain ⟨_, -, -, grounded⟩ := forall₂_mem_right made listed
      exact grounded
  · obtain ⟨name, rest, leads⟩ := List.exists_cons_of_ne_nil complete.led
    obtain ⟨target, got, related, made, grounded⟩ := complete.exists_target (leads ▸ List.mem_cons_self)
    have first : graph.target relation = .ok target := by simp only [Graph.target, leads, got]
    exact ⟨[related], bind_eq_ok.2 ⟨target, first, bind_eq_ok.2 ⟨related, made, rfl⟩⟩, by simp,
      List.forall_mem_singleton.2 grounded⟩

end Relation.Complete

namespace Graph

/-- The definition of a name and the resource of that name go together. -/
theorem get?_of_find? {schema : Schema} {definitions : List ResourceDefinition} {resources : List Resource}
    (made : List.Forall₂ (fun definition resource => definition.resource? schema = some resource) definitions resources)
    {name : String} {definition : ResourceDefinition} (found : definitions.find? (·.name == name) = some definition) :
    ∃ resource, get? ⟨resources⟩ name = some resource ∧ resource.table = definition.table := by
  induction made with
  | nil => cases found
  | @cons first resource _ _ here _ ih =>
    simp only [ResourceDefinition.resource?, Option.bind_eq_bind, Option.bind_eq_some_iff, Option.pure_def,
      Option.some.injEq] at here
    obtain ⟨_, _, _, _, _, _, _, _, _, _, _, _, rfl⟩ := here
    by_cases same : first.name = name
    · obtain rfl : first = definition := by simpa [same] using found
      exact ⟨_, List.find?_cons_of_pos (by simpa using same), rfl⟩
    · rw [List.find?_cons_of_neg (by simpa using same)] at found
      obtain ⟨resource, got, table⟩ := ih found
      exact ⟨resource, by rw [get?, List.find?_cons_of_neg (by simpa using same)]; exact got, table⟩

/-- A graph in which every name leads somewhere. -/
def Complete (schema : Schema) (graph : Graph) : Prop :=
  ∀ resource ∈ graph.resources, resource.Complete schema graph

theorem Complete.of_build {schema : Schema} {declarations : List ResourceDeclaration} {graph : Graph}
    (built : build schema declarations = .ok graph) (settled : ∀ declaration ∈ declarations, declaration.Settled) :
    graph.Complete schema := by
  obtain ⟨definitions, made, clear⟩ := definitions_of_build built
  have pointwise := mapM_eq_some.1 made
  intro resource member
  obtain ⟨definition, defined, read⟩ := forall₂_mem_right pointwise member
  obtain ⟨none, declaration, declared, from_⟩ := clear definition defined
  exact ResourceDefinition.complete_of_issues none read from_ (settled declaration declared) fun _ _ =>
    get?_of_find? pointwise

/-- In a graph that was built of declarations with right keys and targets every name leads somewhere: to a column, a
table or a resource. -/
theorem complete_of_build {schema : Schema} {declarations : List ResourceDeclaration} {graph : Graph}
    (built : build schema declarations = .ok graph) (settled : ∀ declaration ∈ declarations, declaration.Settled) :
    ∀ resource ∈ graph.resources, resource.Complete schema graph ∧
      (∀ slot, ∃ column, Plan.keyColumn resource slot = .ok column) ∧
      ∀ relation ∈ resource.relations, (∃ target ∈ graph.resources, graph.target relation = .ok target) ∧
        ∃ sources, Related.each graph resource relation = .ok sources ∧ sources ≠ [] ∧
          ∀ related ∈ sources, related.Grounded graph resource := by
  intro resource member
  have complete := Complete.of_build built settled resource member
  refine ⟨complete, complete.keyColumn_eq_ok, fun relation listed => ?_⟩
  have whole := complete.relations relation listed
  exact ⟨whole.target_eq_ok, whole.each_eq_ok⟩

/-- In a graph that was built of declarations as they are read, a relation with one target leads to a resource. -/
theorem target_of_build {schema : Schema} {declarations : List ResourceDeclaration} {graph : Graph}
    (built : build schema declarations = .ok graph)
    (led : ∀ declaration ∈ declarations, ∀ relation ∈ declaration.relations, relation.IsLed) {resource : Resource}
    (member : resource ∈ graph.resources) {relation : Relation} (listed : relation ∈ resource.relations)
    (nestable : relation.isNestable) : ∃ target ∈ graph.resources, graph.target relation = .ok target := by
  have sound := (sound_of_build built resource member).relations relation listed
  obtain ⟨definitions, made, clear⟩ := definitions_of_build built
  obtain ⟨definition, defined, read⟩ := forall₂_mem_right (mapM_eq_some.1 made) member
  obtain ⟨-, declaration, declared, from_⟩ := clear definition defined
  simp only [ResourceDefinition.resource?, Option.bind_eq_bind, Option.bind_eq_some_iff, Option.pure_def,
    Option.some.injEq] at read
  obtain ⟨_, -, _, -, _, -, _, -, relations, readRelations, _, -, rfl⟩ := read
  simp only [ResourceDefinition.ofDeclaration, bind_eq_ok, pure_eq_ok] at from_
  obtain ⟨_, -, _, -, _, -, _, -, _, -, rfl⟩ := from_
  obtain ⟨other, present, readRelation⟩ := forall₂_mem_right (mapM_eq_some.1 readRelations) listed
  have isLed := led declaration declared other (ResourceDefinition.mem_of_mem_distinctRelations present)
  simp only [RelationDeclaration.relation?, Option.bind_eq_bind, Option.bind_eq_some_iff, Option.pure_def,
    Option.some.injEq] at readRelation
  obtain ⟨names, texts, _, -, rfl⟩ := readRelation
  have several : other.kind ≠ .morphTo := by simpa [Relation.isNestable, Kind.isNestable] using nestable
  cases names with
  | nil => exact absurd (List.forall₂_nil_right_iff.1 (mapM_eq_some.1 texts)) (isLed several)
  | cons name rest =>
    obtain ⟨target, found⟩ := sound.targets name List.mem_cons_self
    exact ⟨target, mem_of_get? found, by simp only [Graph.target, found]⟩

namespace Posts

def table : Table where
  name := "posts"
  columns := [⟨"id", .integer, true, false, .null⟩, ⟨"owner_id", .integer, false, true, .null⟩,
    ⟨"owner_type", .string, false, true, .null⟩]

def schema : Schema := { tables := [table] }

/-- Posts with the given key, that belong to records of the given resources. -/
def declaration (key : String) (owners : List Json) : ResourceDeclaration where
  name := "Post"
  table := table
  options := [("key", .text key), ("fields", .list [.text "id"]), ("default_order_by", .object [("id", .text "desc")])]
  scopes := []
  relations := [
    { name := "owner", kind := .morphTo, targets := owners, foreignKey := .text "owner_id",
      morphType := some "owner_type" }]

def post (key : String) (owners : List String) : Resource where
  name := "Post"
  table := table
  key := key
  fields := ["id"]
  scopes := []
  limits := [.int 10, .int 25, .int 50]
  defaultLimit := .int 50
  defaultOrder := [("id", .desc)]
  relations := [⟨"owner", .morphTo, owners, .parent ⟨"owner_id", "id", some "owner_type"⟩⟩]
  fillable := if key = "id" then [] else ["id"]
  softDeletes := .bool false
  deletedAt := none
  morphAlias := .text "posts"
  gates := true

theorem settled_of_posts : (declaration "id" [.text "Post"]).Settled where
  key := by
    rintro _ ⟨⟩
    exact .inr rfl
  led := by
    intro relation listed
    obtain rfl := List.mem_singleton.1 listed
    intro same
    cases same

/-- Posts by their number that belong to other posts have a key, and an owner to look for. -/
theorem complete_of_posts :
    build schema [declaration "id" [.text "Post"]] = .ok ⟨[post "id" ["Post"]]⟩ ∧
      (post "id" ["Post"]).Complete schema ⟨[post "id" ["Post"]]⟩ := by
  have built : build schema [declaration "id" [.text "Post"]] = .ok ⟨[post "id" ["Post"]]⟩ := rfl
  have settled : ∀ declared ∈ [declaration "id" [.text "Post"]], declared.Settled :=
    List.forall_mem_singleton.2 settled_of_posts
  exact ⟨built, (complete_of_build built settled _ List.mem_cons_self).1⟩

/-- A graph is built though its key is no column, and though a relation leads nowhere. -/
theorem built_but_not_complete :
    build schema [declaration "nope" []] = .ok ⟨[post "nope" []]⟩ ∧ ¬(post "nope" []).table.hasColumn "nope" ∧
      Plan.keyColumn (post "nope" []) 0 = .error (.fault (.unknownEntry "nope")) ∧
      ∀ relation ∈ (post "nope" []).relations,
        target ⟨[post "nope" []]⟩ relation = .error (.fault .emptyChoice) := by
  refine ⟨rfl, by decide, rfl, ?_⟩
  intro relation listed
  obtain rfl := List.mem_singleton.1 listed
  rfl

end Posts

end Graph

end ResourceApi
