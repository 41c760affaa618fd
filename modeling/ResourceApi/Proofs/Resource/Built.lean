import ResourceApi.Proofs.Outcome
import ResourceApi.Resource.Graph

/-!
What the checks of a graph establish. In a graph that was built, exposed fields and the columns of links are columns,
relations of one resource have different names, and every relation leads to resources of the graph.
-/

namespace ResourceApi

open Outcome

/-- Where a link is kept. -/
def Link.place : Link → LinkPlace
  | .child _ => .child
  | .parent _ => .parent
  | .pivot _ => .pivot
  | .through _ => .through

/-- What the checks establish of a relation. -/
structure Relation.Sound (graph : Graph) (owner : Resource) (relation : Relation) : Prop where
  placed : relation.link.place = relation.kind.linkPlace
  untyped : ∀ link, relation.link = .parent link → relation.kind ≠ .morphTo → link.morphType = none
  columns : ∀ column ∈ relation.parentColumns, owner.table.hasColumn column
  targets : ∀ name ∈ relation.targets, ∃ target, graph.get? name = some target

/-- What the checks establish of a resource. -/
structure Resource.Sound (graph : Graph) (resource : Resource) : Prop where
  fields : ∀ name ∈ resource.fields, resource.table.hasColumn name
  ordered : ∀ entry ∈ resource.defaultOrder, resource.table.hasColumn entry.1
  distinct : (resource.relations.map (·.name)).Nodup
  relations : ∀ relation ∈ resource.relations, relation.Sound graph resource

/-- A graph whose resources keep to what the checks establish. -/
def Graph.Sound (graph : Graph) : Prop := ∀ resource ∈ graph.resources, resource.Sound graph

namespace Table

theorem hasColumn_of_mem {table : Table} {name : String} (member : name ∈ table.columnNames) :
    table.hasColumn name := by
  obtain ⟨column, present, rfl⟩ := List.mem_map.1 member
  rw [hasColumn, column?, List.find?_isSome]
  exact ⟨column, present, by simp⟩

theorem mem_of_hasColumn {table : Table} {name : String} (present : table.hasColumn name) : name ∈ table.columnNames := by
  rw [hasColumn, column?, List.find?_isSome] at present
  obtain ⟨column, listed, same⟩ := present
  exact List.mem_map.2 ⟨column, listed, by simpa using same⟩

end Table

namespace ResourceDefinition

theorem hasColumn_of_missingColumns {label : String} {table : Table} {names : List Json}
    (none : missingColumns label table names = .ok []) {name : String} (listed : .text name ∈ names) :
    table.hasColumn name := by
  obtain ⟨missing, found, empty⟩ := bind_eq_ok.1 none
  have missingNone : missing = [] := List.map_eq_nil_iff.1 (pure_eq_ok.1 empty)
  have notKept := (filterM_mem found (.text name)).not.1 (by simp [missingNone])
  simpa [listed] using notKept

theorem hasColumn_of_strangers {table : Table} {names : List Json} (none : strangers table names = .ok [])
    {name : String} (listed : .text name ∈ names) : table.hasColumn name := by
  have notKept := (filterM_mem none (.text name)).not.1 (by simp)
  by_cases member : name ∈ table.columnNames
  · exact Table.hasColumn_of_mem member
  · refine absurd ⟨listed, ?_⟩ notKept
    simp [isColumn, Json.isScalar, Json.isList, Json.isObject, Json.isName, member]

/-- A link in which no issue was found is kept in columns that are there. -/
private theorem hasColumn_of_linkIssues {label : String} {schema : Schema} {own : Table} {targets : List Table}
    {declaration : RelationDeclaration} (none : linkIssues label schema own targets declaration = .ok [])
    (column : String) :
    (declaration.kind.linkPlace ≠ .parent → declaration.localKey = .text column → own.hasColumn column) ∧
      (declaration.kind.linkPlace = .parent →
        declaration.foreignKey = .text column ∨ declaration.kind = .morphTo ∧ declaration.morphType = some column →
        own.hasColumn column) := by
  unfold linkIssues at none
  cases place : declaration.kind.linkPlace with
  | parent =>
    simp only [place, bind_eq_ok, pure_eq_ok, List.append_eq_nil_iff] at none
    obtain ⟨found, present, _, _, rfl, _⟩ := none
    refine ⟨fun other => absurd rfl other, fun _ listed => hasColumn_of_missingColumns present ?_⟩
    rcases listed with foreign | ⟨open_, typed⟩
    · simp [foreign]
    · simp [open_, typed, Json.ofText?]
  | child =>
    simp only [place, bind_eq_ok, pure_eq_ok, List.append_eq_nil_iff] at none
    obtain ⟨found, present, _, _, _, _, ⟨rfl, _⟩, _⟩ := none
    refine ⟨fun _ key => hasColumn_of_missingColumns present ?_, fun other => by cases other⟩
    simp [key]
  | pivot =>
    simp only [place, bind_eq_ok, pure_eq_ok, List.append_eq_nil_iff] at none
    obtain ⟨_, _, found, present, _, _, ⟨_, rfl⟩, _⟩ := none
    refine ⟨fun _ key => hasColumn_of_missingColumns present ?_, fun other => by cases other⟩
    simp [key]
  | through =>
    simp only [place, bind_eq_ok, pure_eq_ok, List.append_eq_nil_iff] at none
    obtain ⟨_, _, found, present, _, _, ⟨_, rfl⟩, _⟩ := none
    refine ⟨fun _ key => hasColumn_of_missingColumns present ?_, fun other => by cases other⟩
    simp [key]

theorem text_of_text? {value : Json} {text : String} (found : value.text? = some text) :
    value = .text text := by
  cases value <;> cases found
  rfl

/-- The link of a declaration is kept where its kind says, in the columns that the declaration names. -/
private theorem link_of_link? {schema : Schema} {declaration : RelationDeclaration} {link : Link}
    (linked : declaration.link? schema = some link) :
    link.place = declaration.kind.linkPlace ∧
      (∀ parent, link = .parent parent → declaration.foreignKey = .text parent.foreignKey ∧
        parent.morphType = if declaration.kind = .morphTo then declaration.morphType else none) ∧
      (∀ child, link = .child child → declaration.localKey = .text child.localKey) ∧
      (∀ pivot, link = .pivot pivot → declaration.localKey = .text pivot.localKey) ∧
      ∀ through, link = .through through → declaration.localKey = .text through.localKey := by
  unfold RelationDeclaration.link? at linked
  cases place : declaration.kind.linkPlace <;>
    simp only [place, Option.bind_eq_bind, Option.bind_eq_some_iff, Option.pure_def, Option.some.injEq] at linked
  · obtain ⟨foreignKey, -, localKey, own, pick, -, rfl⟩ := linked
    simp [Link.place, text_of_text? own]
  · obtain ⟨foreignKey, own, ownerKey, -, rfl⟩ := linked
    simp [Link.place, text_of_text? own]
  · obtain ⟨_, -, _, -, _, -, _, -, localKey, own, _, -, _, -, rfl⟩ := linked
    simp [Link.place, text_of_text? own]
  · obtain ⟨_, -, _, -, _, -, _, -, localKey, own, _, -, rfl⟩ := linked
    simp [Link.place, text_of_text? own]

theorem relationIssues_none {schema : Schema} {definitions : List ResourceDefinition}
    {definition : ResourceDefinition} {declaration : RelationDeclaration}
    (none : relationIssues schema definitions definition declaration = .ok []) :
    (∀ name ∈ declaration.targets, (named? definitions name).isSome) ∧
      ∃ label, linkIssues label schema definition.table
        (declaration.targets.filterMap fun name => (named? definitions name).map (·.table)) declaration = .ok [] := by
  simp only [relationIssues] at none
  split at none
  · split at none
    · next known =>
      refine ⟨fun name listed => ?_, _, none⟩
      have named := List.filter_eq_nil_iff.1 known name listed
      simpa [Option.isSome_iff_ne_none] using named
    · split at none <;> cases none
  · cases none

/-- A relation of a definition in which no issue was found. -/
private theorem relation_sound {schema : Schema} {definitions : List ResourceDefinition}
    {definition : ResourceDefinition} {graph : Graph} {owner : Resource} {declaration : RelationDeclaration}
    {relation : Relation}
    (none : relationIssues schema definitions definition declaration = .ok [])
    (read : declaration.relation? schema = some relation) (same : owner.table = definition.table)
    (found : ∀ other ∈ definitions, ∃ target, graph.get? other.name = some target) :
    relation.Sound graph owner := by
  obtain ⟨known, label, linkNone⟩ := relationIssues_none none
  simp only [RelationDeclaration.relation?, Option.bind_eq_bind, Option.bind_eq_some_iff, Option.pure_def,
    Option.some.injEq] at read
  obtain ⟨names, targets, link, linked, rfl⟩ := read
  obtain ⟨placed, parents, children, pivots, throughs⟩ := link_of_link? linked
  refine ⟨placed, ?_, ?_, ?_⟩
  · intro parent here single
    simpa [single] using (parents parent here).2
  · rw [same]
    intro column listed
    have present := hasColumn_of_linkIssues linkNone column
    cases link with
    | parent parent =>
      obtain ⟨foreign, typed⟩ := parents parent rfl
      refine present.2 placed.symm ?_
      rcases List.mem_cons.1 listed with rfl | ofType
      · exact .inl foreign
      · rw [Option.mem_toList, typed] at ofType
        split at ofType
        · next open_ => exact .inr ⟨open_, ofType⟩
        · cases ofType
    | child child =>
      obtain rfl := List.mem_singleton.1 listed
      exact present.1 (fun same => by cases placed.trans same) (children child rfl)
    | pivot pivot =>
      obtain rfl := List.mem_singleton.1 listed
      exact present.1 (fun same => by cases placed.trans same) (pivots pivot rfl)
    | through through =>
      obtain rfl := List.mem_singleton.1 listed
      exact present.1 (fun same => by cases placed.trans same) (throughs through rfl)
  · intro name listed
    obtain ⟨value, declared, text⟩ := forall₂_mem_right (mapM_eq_some.1 targets) listed
    obtain ⟨other, chosen⟩ := Option.isSome_iff_exists.1 (known value declared)
    rw [named?, text, Option.bind_some] at chosen
    have sameName : other.name = name := by simpa using List.find?_some chosen
    exact sameName ▸ found other (List.mem_of_find?_eq_some chosen)

theorem distinctRelations_nodup (relations : List RelationDeclaration) :
    ((distinctRelations relations).map (·.name)).Nodup := by
  have loop (rest kept : List RelationDeclaration) (distinct : (kept.map (·.name)).Nodup) :
      ((rest.foldl (fun kept relation =>
        if kept.any (·.name == relation.name) then
          kept.map fun old => if old.name == relation.name then relation else old
        else kept ++ [relation]) kept).map (·.name)).Nodup := by
    induction rest generalizing kept with
    | nil => exact distinct
    | cons relation rest ih =>
      refine ih _ ?_
      dsimp only
      split
      · have sameNames : (kept.map fun old => if old.name == relation.name then relation else old).map (·.name) =
            kept.map (·.name) := by
          rw [List.map_map]
          refine List.map_congr_left fun old _ => ?_
          by_cases same : old.name = relation.name <;> simp [same]
        rw [sameNames]
        exact distinct
      · next fresh =>
        rw [List.map_append, List.map_singleton, List.nodup_append]
        refine ⟨distinct, by simp, ?_⟩
        rintro name before other last rfl
        obtain ⟨old, present, sameName⟩ := List.mem_map.1 before
        refine fresh (List.any_eq_true.2 ⟨old, present, ?_⟩)
        simpa [sameName] using last
  exact loop relations [] List.nodup_nil

/-- The definitions that are kept are among those that were given. -/
theorem mem_of_mem_distinct {definitions : List ResourceDefinition} {definition : ResourceDefinition}
    (member : definition ∈ (distinct definitions).1) : definition ∈ definitions := by
  have kept : ∀ kept ∈ (distinct definitions).1, kept ∈ definitions := by
    refine List.foldlRecOn
      (motive := fun state : List ResourceDefinition × List String => ∀ kept ∈ state.1, kept ∈ definitions) definitions _
      (List.forall_mem_nil _) fun state inside other listed => ?_
    dsimp only
    split
    · exact inside
    · exact List.forall_mem_append.2 ⟨inside, List.forall_mem_singleton.2 listed⟩
  exact kept definition member

/-- The definitions that are kept have different names. -/
theorem distinct_nodup (definitions : List ResourceDefinition) : ((distinct definitions).1.map (·.name)).Nodup := by
  refine List.foldlRecOn
    (motive := fun state : List ResourceDefinition × List String => (state.1.map ResourceDefinition.name).Nodup)
    definitions _ List.nodup_nil fun state kept other _ => ?_
  dsimp only
  split
  · exact kept
  · next fresh =>
    rw [List.map_append, List.map_singleton, List.nodup_append]
    refine ⟨kept, by simp, ?_⟩
    rintro name before last given rfl
    obtain ⟨old, present, sameName⟩ := List.mem_map.1 before
    refine fresh (List.any_eq_true.2 ⟨old, present, ?_⟩)
    simpa [sameName] using given

/-- The relations of a definition have different names. -/
private theorem relations_nodup {declaration : ResourceDeclaration} {definition : ResourceDefinition}
    (made : ofDeclaration declaration = .ok definition) : (definition.relations.map (·.name)).Nodup := by
  simp only [ofDeclaration, bind_eq_ok, pure_eq_ok] at made
  obtain ⟨key, -, fields, -, limits, -, order, -, fillable, -, rfl⟩ := made
  exact distinctRelations_nodup declaration.relations

/-- Columns of the usual order in which no issue was found. -/
theorem hasColumn_of_orderIssues {definition : ResourceDefinition} {entry : Json × Json} {name : String}
    {direction : Direction} (none : definition.orderIssues entry = .ok [])
    (read : orderColumn? entry = some (name, direction)) : definition.table.hasColumn name := by
  simp only [orderIssues, bind_eq_ok, pure_eq_ok, List.append_eq_nil_iff] at none
  obtain ⟨isThere, asked, absent, -⟩ := none
  simp only [orderColumn?, Option.bind_eq_bind, Option.bind_eq_some_iff, Option.pure_def, Option.some.injEq,
    Prod.mk.injEq] at read
  obtain ⟨column, text, -, -, -, -, rfl, -⟩ := read
  cases isThere with
  | false => simp at absent
  | true =>
    rw [text_of_text? text] at asked
    simp only [isColumnOption, Json.isSingle, Json.isScalar, Json.isList, Json.isObject, Json.isName] at asked
    refine Table.hasColumn_of_mem ?_
    simpa using asked

theorem names_of_texts {values : List Json} {names : List String} (texts : values.mapM Json.text? = some names)
    {name : String} (listed : name ∈ names) : .text name ∈ values := by
  obtain ⟨value, present, text⟩ := forall₂_mem_right (mapM_eq_some.1 texts) listed
  exact text_of_text? text ▸ present

private theorem names_of_relations {schema : Schema} {declarations : List RelationDeclaration}
    {relations : List Relation} (read : declarations.mapM (·.relation? schema) = some relations) :
    relations.map (·.name) = declarations.map (·.name) := by
  have pointwise := mapM_eq_some.1 read
  clear read
  induction pointwise with
  | nil => rfl
  | cons here _ ih =>
    simp only [RelationDeclaration.relation?, Option.bind_eq_bind, Option.bind_eq_some_iff, Option.pure_def,
      Option.some.injEq] at here
    obtain ⟨_, _, _, _, rfl⟩ := here
    rw [List.map_cons, List.map_cons, ih]

/-- A resource in whose definition no issue was found. -/
private theorem resource_sound {schema : Schema} {definitions : List ResourceDefinition}
    {definition : ResourceDefinition} {graph : Graph} {resource : Resource}
    (none : definition.issues schema definitions = .ok []) (read : definition.resource? schema = some resource)
    (distinct : (definition.relations.map (·.name)).Nodup)
    (found : ∀ other ∈ definitions, ∃ target, graph.get? other.name = some target) : resource.Sound graph := by
  simp only [issues, bind_eq_ok, pure_eq_ok, List.append_eq_nil_iff] at none
  obtain ⟨_, ownNone, perRelation, checked, rfl, allEmpty⟩ := none
  simp only [ownIssues, bind_eq_ok, pure_eq_ok, List.append_eq_nil_iff, List.map_eq_nil_iff] at ownNone
  obtain ⟨_, fieldsNone, _, -, perEntry, ordered, _, -, ⟨⟨⟨rfl, -⟩, orderEmpty⟩, -⟩, -⟩ := ownNone
  simp only [resource?, Option.bind_eq_bind, Option.bind_eq_some_iff, Option.pure_def, Option.some.injEq] at read
  obtain ⟨key, -, fields, fieldTexts, order, entries, deletedAt, -, relations, read, fillable, -, rfl⟩ := read
  refine ⟨?_, ?_, ?_, ?_⟩
  · intro name listed
    exact hasColumn_of_strangers fieldsNone (names_of_texts fieldTexts listed)
  · rintro ⟨name, direction⟩ listed
    obtain ⟨entry, declared, readEntry⟩ := forall₂_mem_right (mapM_eq_some.1 entries) listed
    obtain ⟨messages, given, check⟩ := mapM_image ordered declared
    obtain rfl := List.flatten_eq_nil_iff.1 orderEmpty messages given
    exact hasColumn_of_orderIssues check readEntry
  · exact names_of_relations read ▸ distinct
  · intro relation listed
    obtain ⟨declaration, declared, readRelation⟩ := forall₂_mem_right (mapM_eq_some.1 read) listed
    obtain ⟨messages, given, check⟩ := mapM_image checked declared
    obtain rfl := List.flatten_eq_nil_iff.1 allEmpty messages given
    exact relation_sound check readRelation rfl found

end ResourceDefinition

namespace Graph

/-- The resources of a graph are those of definitions in which no issue was found. -/
theorem definitions_of_build {schema : Schema} {declarations : List ResourceDeclaration} {graph : Graph}
    (built : build schema declarations = .ok graph) :
    ∃ definitions, definitions.mapM (·.resource? schema) = some graph.resources ∧
      ∀ definition ∈ definitions, definition.issues schema definitions = .ok [] ∧
        ∃ declaration ∈ declarations, ResourceDefinition.ofDeclaration declaration = .ok definition := by
  obtain ⟨kept, defined, made⟩ := bind_eq_ok.1 built
  obtain ⟨all, read, defined⟩ := bind_eq_ok.1 defined
  rcases first : ResourceDefinition.distinct all with ⟨definitions, repeated⟩
  simp only [first] at defined
  obtain ⟨found, checked, defined⟩ := bind_eq_ok.1 defined
  split at defined
  · next clear =>
    obtain rfl := pure_eq_ok.1 defined
    obtain ⟨-, noneFound⟩ := List.append_eq_nil_iff.1 clear
    refine ⟨definitions, ?_, ?_⟩
    · split at made
      · next resources known => cases made; exact known
      · cases made
    · intro definition member
      obtain ⟨messages, given, check⟩ := mapM_image checked member
      obtain rfl := List.flatten_eq_nil_iff.1 noneFound messages given
      have given : definition ∈ (ResourceDefinition.distinct all).1 := by simpa [first] using member
      exact ⟨check, mapM_mem read (ResourceDefinition.mem_of_mem_distinct given)⟩
  · cases defined

private theorem names_of_resources {schema : Schema} {definitions : List ResourceDefinition} {resources : List Resource}
    (made : List.Forall₂ (fun definition resource => definition.resource? schema = some resource) definitions resources) :
    resources.map (·.name) = definitions.map (·.name) := by
  induction made with
  | nil => rfl
  | cons here _ ih =>
    simp only [ResourceDefinition.resource?, Option.bind_eq_bind, Option.bind_eq_some_iff, Option.pure_def,
      Option.some.injEq] at here
    obtain ⟨_, _, _, _, _, _, _, _, _, _, _, _, rfl⟩ := here
    rw [List.map_cons, List.map_cons, ih]

/-- The resources of a graph that was built have different names. -/
theorem names_of_build {schema : Schema} {declarations : List ResourceDeclaration} {graph : Graph}
    (built : build schema declarations = .ok graph) : (graph.resources.map (·.name)).Nodup := by
  obtain ⟨kept, defined, made⟩ := bind_eq_ok.1 built
  obtain ⟨all, read, defined⟩ := bind_eq_ok.1 defined
  have names : (kept.map (·.name)).Nodup := by
    rcases first : ResourceDefinition.distinct all with ⟨definitions, repeated⟩
    simp only [first] at defined
    obtain ⟨found, checked, defined⟩ := bind_eq_ok.1 defined
    split at defined
    · obtain rfl := pure_eq_ok.1 defined
      have nodup := ResourceDefinition.distinct_nodup all
      rwa [first] at nodup
    · cases defined
  split at made
  · next resources known =>
    cases made
    rwa [names_of_resources (mapM_eq_some.1 known)]
  · cases made

theorem mem_of_get? {graph : Graph} {name : String} {resource : Resource} (found : graph.get? name = some resource) :
    resource ∈ graph.resources :=
  List.mem_of_find?_eq_some found

/-- A graph that was built keeps to what the checks establish. -/
theorem sound_of_build {schema : Schema} {declarations : List ResourceDeclaration} {graph : Graph}
    (built : build schema declarations = .ok graph) : graph.Sound := by
  obtain ⟨definitions, made, clear⟩ := definitions_of_build built
  have found (other : ResourceDefinition) (member : other ∈ definitions) :
      ∃ target, graph.get? other.name = some target := by
    obtain ⟨resource, present, read⟩ := forall₂_mem_left (mapM_eq_some.1 made) member
    simp only [ResourceDefinition.resource?, Option.bind_eq_bind, Option.bind_eq_some_iff, Option.pure_def,
      Option.some.injEq] at read
    obtain ⟨_, _, _, _, _, _, _, _, _, _, _, _, rfl⟩ := read
    rw [get?, ← Option.isSome_iff_exists, List.find?_isSome]
    exact ⟨_, present, by simp⟩
  intro resource member
  obtain ⟨definition, defined, read⟩ := forall₂_mem_right (mapM_eq_some.1 made) member
  obtain ⟨none, declaration, -, from_⟩ := clear definition defined
  exact ResourceDefinition.resource_sound none read (ResourceDefinition.relations_nodup from_) found

/-- Every resource of a graph that was built has an alias. -/
theorem morphAlias_of_build {schema : Schema} {declarations : List ResourceDeclaration} {graph : Graph}
    (built : build schema declarations = .ok graph) {resource : Resource} (member : resource ∈ graph.resources) :
    resource.morphAlias ≠ .null := by
  obtain ⟨definitions, made, clear⟩ := definitions_of_build built
  obtain ⟨definition, defined, read⟩ := forall₂_mem_right (mapM_eq_some.1 made) member
  obtain ⟨-, declaration, -, from_⟩ := clear definition defined
  simp only [ResourceDefinition.resource?, Option.bind_eq_bind, Option.bind_eq_some_iff, Option.pure_def,
    Option.some.injEq] at read
  obtain ⟨_, _, _, _, _, _, _, _, _, _, _, _, rfl⟩ := read
  simp only [ResourceDefinition.ofDeclaration, bind_eq_ok, pure_eq_ok] at from_
  obtain ⟨_, -, _, -, _, -, _, -, _, -, rfl⟩ := from_
  dsimp only
  split
  · next told =>
    intro none
    rw [none] at told
    cases told
  · intro same
    cases same

end Graph

/-! ## Using what is established -/

namespace Resource

/-- A relation of a resource is found by its name. -/
theorem Sound.relation?_eq {graph : Graph} {resource : Resource} (sound : resource.Sound graph) {relation : Relation}
    (member : relation ∈ resource.relations) : resource.relation? relation.name = some relation := by
  have distinct := sound.distinct
  rw [relation?]
  generalize resource.relations = relations at member distinct
  induction relations with
  | nil => cases member
  | cons first rest ih =>
    obtain ⟨fresh, others⟩ := List.nodup_cons.1 distinct
    rcases List.mem_cons.1 member with rfl | later
    · simp
    · have different : first.name ≠ relation.name := fun same =>
        fresh (List.mem_map.2 ⟨relation, later, same.symm⟩)
      rw [List.find?_cons_of_neg (by simpa using different)]
      exact ih later others

theorem mem_of_relation? {resource : Resource} {name : String} {relation : Relation}
    (found : resource.relation? name = some relation) : relation ∈ resource.relations ∧ relation.name = name :=
  ⟨List.mem_of_find?_eq_some found, by simpa using List.find?_some found⟩

end Resource

namespace Graph

theorem Sound.of_get? {graph : Graph} (sound : graph.Sound) {name : String} {resource : Resource}
    (found : graph.get? name = some resource) : resource.Sound graph :=
  sound resource (mem_of_get? found)

/-- A relation leads to a resource of the graph. -/
theorem mem_of_target {graph : Graph} {relation : Relation} {target : Resource}
    (leads : graph.target relation = .ok target) : target ∈ graph.resources := by
  unfold Graph.target at leads
  split at leads
  · cases leads
  · split at leads
    · next found =>
      cases leads
      exact mem_of_get? found
    · cases leads

end Graph

end ResourceApi
