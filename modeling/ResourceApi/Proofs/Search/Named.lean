import ResourceApi.Proofs.Search.Carried
import ResourceApi.Proofs.Search.Measured
import ResourceApi.Proofs.Text.Label

/-!
The names in the rows of a search: those of columns, of aggregates and of included relations. Columns and aggregates never
hide one another in a row, and where no included relation is called like one of them, nothing is hidden at all.
-/

namespace ResourceApi

open Outcome Query

/-- A name under which a search puts included records into the records of its page. -/
def Specification.PutsUnder (spec : Specification) (name : String) : Prop :=
  ∃ path ∈ Plan.includePaths spec.includes, Path.splitLast path = ("", name)

/-- A column in the rows of a search: one asked for, or one that an included relation is followed by. -/
def Specification.HasColumn (resource : Resource) (spec : Specification) (column : String) : Prop :=
  column ∈ Plan.askedFields resource spec.selects ∨
    ∃ name relation, spec.PutsUnder name ∧ resource.relation? name = some relation ∧ column ∈ relation.parentColumns

/-- What can be read from a row for a record: each field asked for and each aggregate under its name, unless included
records are put there, and what is attached for each included relation. -/
structure Graph.Legible (graph : Graph) (rows : String → List Row) (resource : Resource) (spec : Specification)
    (record : Row) (row : Members) : Prop where
  fields : ∀ fields : List String,
    (∀ name ∈ fields, name ∈ Plan.askedFields resource spec.selects ∧ ¬spec.PutsUnder name) →
      resource.table.Shows fields record row
  aggregates : ∀ item ∈ spec.aggregates, ¬spec.PutsUnder item.label → ∃ hops hop target value,
    graph.hops resource item.relation = .ok hops ∧ hops.getLast? = some hop ∧ graph.target hop.2 = .ok target ∧
      item.measure.taken target.table item.field (graph.reachedBy rows hops target item.filters record) = .ok value ∧
      row.get? item.label = some value
  includes : "" ∉ Plan.includePaths spec.includes → ∀ name, spec.PutsUnder name → ∃ relation children,
    resource.relation? name = some relation ∧
      row.get? name = some (Plan.attachment relation.kind.cardinality children)

namespace Plan

variable {graph : Graph} {resource : Resource}

/-- The names under which a plan puts values into the rows of its page. -/
def rowNames (plan : Plan) : List String :=
  plan.page.outputs.map Output.key ++ (plan.includes.filter (start · = "")).map (·.name)

/-! ## Columns and aggregates -/

/-- Names that come once are their own labels. -/
private theorem labelled_of_nodup {before names : List String} (distinct : names.Nodup)
    (fresh : ∀ name ∈ names, name ∉ before) : labelled before names = names.map (·, none) := by
  induction names generalizing before with
  | nil => rfl
  | cons name rest ih =>
    obtain ⟨once, distinct⟩ := List.nodup_cons.1 distinct
    obtain ⟨here, later⟩ := List.forall_mem_cons.1 fresh
    rw [labelled, List.count_eq_zero.2 here, List.map_cons, ih distinct fun other listed => ?_]
    · rfl
    · refine List.not_mem_cons_of_ne_of_not_mem ?_ (later other listed)
      rintro rfl
      exact once listed

/-- Columns that are asked for once are shown once, and so are those that are needed besides. -/
theorem keys_of_columns {slot : Nat} {selects required : List String} {outputs : List Output}
    (made : columns resource slot selects required = .ok outputs) (distinct : (askedFields resource selects).Nodup) :
    (outputs.map Output.key).Nodup ∧
      ∀ key, key ∈ outputs.map Output.key ↔ key ∈ askedFields resource selects ∨ key ∈ required := by
  have each := mapM_eq_ok.1 made
  rw [labelled_of_nodup (nodup_foldl_new distinct) fun _ _ => List.not_mem_nil, List.forall₂_map_left_iff] at each
  have keys := List.forall₂_map_right_iff.2 (each.imp fun name output shown => show name = output.key by
    simp only [bind_eq_ok, pure_eq_ok] at shown
    obtain ⟨ref, found, rfl⟩ := shown
    obtain rfl := ownColumn_eq_ok found
    rfl)
  rw [List.forall₂_eq_eq_eq] at keys
  rw [← keys]
  exact ⟨nodup_foldl_new distinct, fun key => mem_foldl_new⟩

theorem mem_keys_of_columns {slot : Nat} {selects required : List String} {outputs : List Output}
    (made : columns resource slot selects required = .ok outputs) {name : String}
    (listed : name ∈ askedFields resource selects ∨ name ∈ required) : name ∈ outputs.map Output.key :=
  List.mem_map.2 ⟨_, mem_columns made listed, rfl⟩

theorem key_of_aggregate {slot : Nat} {item : Aggregate} {output : Output}
    (made : aggregate graph resource slot item = .ok output) : output.key = item.label := by
  simp only [aggregate, bind_eq_ok, pure_eq_ok] at made
  obtain ⟨_, -, _, -, _, -, _, -, rfl⟩ := made
  rw [Output.key, Aggregate.label]

theorem keys_of_aggregates {slot : Nat} {items : List Aggregate} {outputs : List Output}
    (made : List.Forall₂ (fun item output => aggregate graph resource slot item = .ok output) items outputs) :
    outputs.map Output.key = items.map Aggregate.label := by
  rw [← List.forall₂_eq_eq_eq, List.forall₂_map_left_iff, List.forall₂_map_right_iff]
  exact made.flip.imp fun _ _ => key_of_aggregate

/-! ## Included relations -/

/-- A step from the root goes by a relation of the resource. -/
private theorem root_of_includeHop {hops : List Hop} {path : String} {hop : Hop}
    (made : includeHop graph resource hops path = .ok hop) (root : start hop.step = "") :
    hop.step.parentPath = none ∧ resource.relation? hop.step.name = some hop.step.relation := by
  rcases cut : Path.splitLast path with ⟨parent, name⟩
  rw [includeHop, cut] at made
  obtain ⟨owner, owned, made⟩ := bind_eq_ok.1 made
  split at made
  · cases made
  · next relation found =>
    obtain ⟨target, -, same⟩ := bind_eq_ok.1 made
    obtain rfl := pure_eq_ok.1 same
    have atRoot : parent = "" := by
      by_contra goesOn
      simp [start, goesOn] at root
    subst atRoot
    obtain rfl : resource = owner := Except.ok.inj owned
    exact ⟨rfl, found⟩

/-- The steps for some paths stand in their order, and those from the root go by relations of the resource. -/
theorem roots_of_includeHops {paths : List String} {hops : List Hop}
    (walked : includeHops graph resource paths = .ok hops) :
    hops.map (·.step.path) = paths ∧ ∀ hop ∈ hops, start hop.step = "" →
      hop.step.parentPath = none ∧ resource.relation? hop.step.name = some hop.step.relation := by
  have loop (rest : List String) (before after : List Hop)
      (walked : rest.foldlM (fun hops path => return hops ++ [← includeHop graph resource hops path]) before = .ok after)
      (known : ∀ hop ∈ before, start hop.step = "" →
        hop.step.parentPath = none ∧ resource.relation? hop.step.name = some hop.step.relation) :
      after.map (·.step.path) = before.map (·.step.path) ++ rest ∧ ∀ hop ∈ after, start hop.step = "" →
        hop.step.parentPath = none ∧ resource.relation? hop.step.name = some hop.step.relation := by
    induction rest generalizing before with
    | nil =>
      obtain rfl := pure_eq_ok.1 walked
      exact ⟨(List.append_nil _).symm, known⟩
    | cons path rest ih =>
      rw [List.foldlM_cons] at walked
      obtain ⟨further, stepped, walked⟩ := bind_eq_ok.1 walked
      obtain ⟨hop, made, same⟩ := bind_eq_ok.1 stepped
      obtain rfl := pure_eq_ok.1 same
      obtain ⟨paths, all⟩ := ih (before ++ [hop]) walked fun other inside root => by
        rcases List.mem_append.1 inside with old | new
        · exact known other old root
        · obtain rfl := List.mem_singleton.1 new
          exact root_of_includeHop made root
      refine ⟨?_, all⟩
      rw [paths, List.map_append, List.append_assoc, List.map_singleton, (start_of_includeHop made).1,
        List.singleton_append]
  exact loop paths [] hops walked (List.forall_mem_nil _)

/-- A path to load that ends in a name at the root is this name. -/
private theorem eq_of_splitLast {includes : List Include} (named : "" ∉ includePaths includes) {path name : String}
    (listed : path ∈ includePaths includes) (cut : Path.splitLast path = ("", name)) : path = name := by
  rcases Path.isPlain_or_append path with plain | ⟨before, last, rfl, plain⟩
  · rw [Path.splitLast_of_isPlain plain] at cut
    exact congrArg Prod.snd cut
  · rw [Path.splitLast_append before plain] at cut
    obtain ⟨rfl, rfl⟩ := Prod.mk.inj cut
    exact absurd (mem_includePaths_of_append plain listed) named

section Roots

variable {spec : Specification} {hops : List Hop}
  (walked : includeHops graph resource (includePaths spec.includes) = .ok hops)
include walked

/-- The names under which a search puts something are those of its steps from the root. -/
theorem putsUnder_iff {name : String} : spec.PutsUnder name ↔ ∃ hop ∈ hops, start hop.step = "" ∧ hop.step.name = name := by
  constructor
  · rintro ⟨path, listed, cut⟩
    rw [← (roots_of_includeHops walked).1] at listed
    obtain ⟨hop, inside, rfl⟩ := List.mem_map.1 listed
    exact ⟨hop, inside, Prod.mk.inj ((start_of_includeHops walked hop inside).2.symm.trans cut)⟩
  · rintro ⟨hop, inside, root, rfl⟩
    obtain ⟨listed, cut⟩ := start_of_includeHops walked hop inside
    exact ⟨_, listed, root ▸ cut⟩

/-- The columns that the records of the page have to carry are those by which the relations included there are followed. -/
theorem mem_requiredColumns_root {column : String} : column ∈ requiredColumns hops none ↔
    ∃ name relation, spec.PutsUnder name ∧ resource.relation? name = some relation ∧ column ∈ relation.parentColumns := by
  simp only [requiredColumns, List.mem_flatMap, List.mem_filter, beq_iff_eq]
  constructor
  · rintro ⟨hop, ⟨inside, parent⟩, needed⟩
    have root : start hop.step = "" := by rw [start, parent, Option.getD_none]
    exact ⟨_, _, (putsUnder_iff walked).2 ⟨hop, inside, root, rfl⟩, ((roots_of_includeHops walked).2 hop inside root).2, needed⟩
  · rintro ⟨name, relation, puts, found, needed⟩
    obtain ⟨hop, inside, root, rfl⟩ := (putsUnder_iff walked).1 puts
    obtain ⟨parent, same⟩ := (roots_of_includeHops walked).2 hop inside root
    obtain rfl := Option.some.inj (found.symm.trans same)
    exact ⟨hop, ⟨inside, parent⟩, needed⟩

/-- Different steps put records under different names. -/
theorem nodup_roots (named : "" ∉ includePaths spec.includes) :
    ((hops.filter (start ·.step = "")).map (·.step.name)).Nodup := by
  have own : ∀ hop ∈ hops.filter (start ·.step = ""), hop.step.name = hop.step.path := by
    intro hop listed
    obtain ⟨inside, root⟩ := List.mem_filter.1 listed
    obtain ⟨present, cut⟩ := start_of_includeHops walked hop inside
    exact (eq_of_splitLast named present (of_decide_eq_true root ▸ cut)).symm
  rw [List.map_congr_left own]
  refine (List.Sublist.map _ List.filter_sublist).nodup ?_
  rw [(roots_of_includeHops walked).1]
  exact nodup_includePaths _

end Roots

section Steps

variable {spec : Specification} {hops : List Hop} {steps : List IncludeStep}
  (walked : includeHops graph resource (includePaths spec.includes) = .ok hops)
  (loaded : List.Forall₂ (fun hop step => loadHop graph spec.includes hops hop = .ok step) hops steps)
include walked loaded

omit walked in
/-- The names of the steps of a plan from the root. -/
theorem names_of_roots :
    (steps.filter (start · = "")).map (·.name) = (hops.filter (start ·.step = "")).map (·.step.name) := by
  rw [← List.forall₂_eq_eq_eq, List.forall₂_map_left_iff, List.forall₂_map_right_iff]
  refine (List.rel_filter (fun step hop made => ?_) loaded.flip).imp fun step hop made => (step_of_loadHop made).2.2.1
  simp only [start, (step_of_loadHop made).2.1]
  exact Iff.rfl

theorem putsUnder_iff_step {name : String} : spec.PutsUnder name ↔ ∃ step ∈ steps, start step = "" ∧ step.name = name := by
  have names := Iff.of_eq (congrArg (name ∈ ·) (names_of_roots loaded))
  simpa only [List.mem_map, List.mem_filter, decide_eq_true_iff, and_assoc, ← putsUnder_iff walked] using names.symm

/-- The steps of a plan from the root go by relations of the resource. -/
theorem relation_of_start {step : IncludeStep} (inside : step ∈ steps) (root : start step = "") :
    resource.relation? step.name = some step.relation := by
  obtain ⟨hop, among, made⟩ := forall₂_mem_right loaded inside
  obtain ⟨-, sameParent, sameName, sameRelation⟩ := step_of_loadHop made
  rw [sameName, sameRelation]
  refine ((roots_of_includeHops walked).2 hop among ?_).2
  rw [← root, start, start, sameParent]

end Steps

/-! ## All names -/

/-- The names in the rows of a plan are apart if no two aggregates have one label, no label is that of a column, and no
included relation is called like a column or a label, and only then. -/
theorem nodup_rowNames {spec : Specification} {plan : Plan} (made : compile graph resource spec = .ok plan)
    (distinct : (askedFields resource spec.selects).Nodup) (named : "" ∉ includePaths spec.includes) :
    plan.rowNames.Nodup ↔ (spec.aggregates.map Aggregate.label).Nodup ∧
      (∀ item ∈ spec.aggregates, ¬spec.HasColumn resource item.label) ∧
      ∀ name, spec.PutsUnder name → ¬spec.HasColumn resource name ∧ name ∉ spec.aggregates.map Aggregate.label := by
  obtain ⟨hops, shown, aggregates, walked, loaded, columns, measured, outputs⟩ := outputs_of_compile made
  obtain ⟨nodup, mem⟩ := keys_of_columns columns distinct
  have isColumn (key : String) : key ∈ shown.map Output.key ↔ spec.HasColumn resource key :=
    (mem key).trans (or_congr_right (mem_requiredColumns_root walked))
  have puts (name : String) : name ∈ (plan.includes.filter (start · = "")).map (·.name) ↔ spec.PutsUnder name := by
    simp only [putsUnder_iff_step walked loaded, List.mem_map, List.mem_filter, decide_eq_true_iff, and_assoc]
  have roots : ((plan.includes.filter (start · = "")).map (·.name)).Nodup :=
    names_of_roots loaded ▸ nodup_roots walked named
  rw [rowNames, outputs, List.map_append, keys_of_aggregates measured, List.nodup_append, List.nodup_append]
  constructor
  · rintro ⟨⟨-, distinctLabels, apart⟩, -, unput⟩
    refine ⟨distinctLabels, fun item listed isShown => ?_, fun name isPut => ⟨fun isShown => ?_, fun isLabel => ?_⟩⟩
    · exact apart _ ((isColumn _).2 isShown) _ (List.mem_map_of_mem listed) rfl
    · exact unput _ (List.mem_append_left _ ((isColumn _).2 isShown)) _ ((puts _).2 isPut) rfl
    · exact unput _ (List.mem_append_right _ isLabel) _ ((puts _).2 isPut) rfl
  · rintro ⟨distinctLabels, apart, unput⟩
    refine ⟨⟨nodup, distinctLabels, ?_⟩, roots, ?_⟩
    · rintro key isShown _ isLabel rfl
      obtain ⟨item, listed, rfl⟩ := List.mem_map.1 isLabel
      exact apart item listed ((isColumn _).1 isShown)
    · rintro key there _ isPut rfl
      obtain ⟨notShown, notLabel⟩ := unput key ((puts key).1 isPut)
      rcases List.mem_append.1 there with isShown | isLabel
      · exact notShown ((isColumn key).1 isShown)
      · exact notLabel isLabel

/-! ## What is attached -/

/-- Once all steps are loaded, the records of a path have something attached for each step that goes on from there, if the
steps of one name go by one relation. -/
theorem exists_attachment_of_loadAll {path : String} {steps : List IncludeStep} (elsewhere : ∀ step ∈ steps, step.path ≠ path)
    (agree : ∀ step ∈ steps, ∀ other ∈ steps, start step = path → start other = path → step.name = other.name →
      step.relation = other.relation)
    {work after : Work} {shelf completed : Shelf} (ran : (loadAll steps shelf).runOn work = (.ok completed, after)) :
    ∀ step ∈ steps, start step = path → ∀ loaded ∈ rowsAt completed path, ∃ children,
      loaded.row.get? step.name = some (attachment step.relation.kind.cardinality children) := by
  induction steps generalizing work shelf completed with
  | nil => exact List.forall_mem_nil _
  | cons step rest ih =>
    obtain ⟨found, middle, later, -, others, rfl⟩ := loadAll_cons_eq_ok ran
    obtain ⟨⟨_, children⟩, shelf, ⟨rfl, -⟩, -, rfl⟩ := List.forall₂_cons_left_iff.1 (loadAll_grown others)
    obtain ⟨away, elsewhere⟩ := List.forall_mem_cons.1 elsewhere
    have before := ih elsewhere (fun one listed other listedToo => agree one (List.mem_cons_of_mem _ listed) other
      (List.mem_cons_of_mem _ listedToo)) others
    have below : rowsAt ((step.path, children) :: shelf) path = rowsAt shelf path := by
      have other : (path == step.path) = false := beq_eq_false_iff_ne.2 away.symm
      rw [rowsAt, List.lookup_cons, other]
      rfl
    rw [below] at before
    intro next listed starts loaded there
    dsimp only at there
    rw [rowsAt_attachAt] at there
    split at there
    · next here =>
      obtain ⟨⟨parent, place⟩, among, rfl⟩ := List.mem_map.1 there
      by_cases same : next.name = step.name
      · rw [same, agree next listed step List.mem_cons_self starts here same]
        exact ⟨_, Members.get?_put_self _ _ _⟩
      · dsimp only
        rw [Members.get?_put_of_ne same]
        refine before next ((List.mem_cons.1 listed).resolve_left ?_) starts parent (List.fst_mem_of_mem_zipIdx among)
        rintro rfl
        exact same rfl
    · next other =>
      refine before next ((List.mem_cons.1 listed).resolve_left ?_) starts loaded there
      rintro rfl
      exact other starts

/-! ## Results -/

section Executed

variable (sound : graph.Sound) (member : resource ∈ graph.resources) {spec : Specification} {plan : Plan}
  (made : compile graph resource spec = .ok plan) {work after : Work} {result : SearchResult}
  (ran : plan.execute.runOn work = (.ok result, after))
include sound member made ran

/-- In the rows of a result the columns and the aggregates have names of their own, and what is asked for can be read. -/
theorem legible_of_execute :
    (result.rows ≠ [] → (spec.aggregates.map Aggregate.label).Nodup ∧
      ∀ item ∈ spec.aggregates, ¬spec.HasColumn resource item.label) ∧ ∀ row ∈ result.rows,
      ∃ record ∈ work.database.rows resource.table.name, graph.Legible work.database.rows resource spec record row := by
  obtain ⟨hops, shown, aggregates, walked, loaded, columns, measured, outputs⟩ := outputs_of_compile made
  have compiled := compiled_of_eq_ok made
  obtain ⟨rows, shelf, results, loading, rfl⟩ := execute_eq_ok ran
  obtain ⟨given, distinct⟩ := gives_of_results results
  have kept : List.Forall₂ (Loaded.Kept (Puts plan.includes "")) (rows.map (⟨·, 0⟩)) (rowsAt shelf "") :=
    kept_of_grown (loadAll_grown loading) ""
  rw [List.forall₂_map_left_iff] at kept
  have some : (rowsAt shelf "").map (·.row) ≠ [] → rows ≠ [] := by
    rintro nonempty rfl
    rw [List.forall₂_nil_left_iff.1 kept] at nonempty
    exact nonempty rfl
  refine ⟨fun nonempty => ?_, fun row listed => ?_⟩
  · have nodup := distinct (some nonempty)
    rw [outputs, List.map_append, keys_of_aggregates measured] at nodup
    obtain ⟨-, distinctLabels, apart⟩ := List.nodup_append.1 nodup
    refine ⟨distinctLabels, fun item listed isShown => ?_⟩
    have there := mem_keys_of_columns columns (isShown.imp_right (mem_requiredColumns_root walked).2)
    exact apart _ there _ (List.mem_map_of_mem listed) rfl
  obtain ⟨final, there, rfl⟩ := List.mem_map.1 listed
  have nodup := distinct (some (List.ne_nil_of_mem listed))
  obtain ⟨row, inPage, same⟩ := forall₂_mem_right kept there
  obtain ⟨frame, inside, gives⟩ := forall₂_mem_right given inPage
  have unput {name : String} (not : ¬spec.PutsUnder name) : ¬Puts plan.includes "" name :=
    not_puts compiled fun path listed cut => not ⟨path, listed, cut⟩
  refine ⟨frame.getD 0 [], mem_rows_of_frames compiled.source inside, ?_, ?_, ?_⟩
  · intro fields asked
    have asks (name : String) (listed : name ∈ fields) : .column (resource.table.ref 0 0 name) none ∈ plan.page.outputs :=
      outputs ▸ List.mem_append_left aggregates (mem_columns columns (.inl (asked name listed).1))
    have shows := shows_of_gives gives nodup asks
    exact shows_of_kept shows same fun name listed => unput (asked name listed).2
  · intro item asked not
    obtain ⟨output, among, made⟩ := forall₂_mem_left measured asked
    obtain ⟨hops, hop, target, walked, ends, leadsTo, key, values⟩ := outputValue_aggregate sound member made
    obtain ⟨value, is, got⟩ := gives.get?_eq nodup (outputs ▸ List.mem_append_right shown among)
    rw [values] at is
    refine ⟨hops, hop, target, value, walked, ends, leadsTo, is, ?_⟩
    rw [same.2 _ (unput not), Aggregate.label, ← key, got]
  · intro named name puts
    have elsewhere : ∀ step ∈ plan.includes, step.path ≠ "" := by
      intro step listed nameless
      obtain ⟨hop, among, made⟩ := forall₂_mem_right loaded listed
      rw [(step_of_loadHop made).1] at nameless
      exact named (nameless ▸ (start_of_includeHops walked hop among).1)
    have agree : ∀ step ∈ plan.includes, ∀ other ∈ plan.includes, start step = "" → start other = "" →
        step.name = other.name → step.relation = other.relation := by
      intro step listed other listedToo root rootToo sameNames
      have found := relation_of_start walked loaded listed root
      rw [sameNames, relation_of_start walked loaded listedToo rootToo] at found
      exact (Option.some.inj found).symm
    obtain ⟨step, listed, root, rfl⟩ := (putsUnder_iff_step walked loaded).1 puts
    obtain ⟨children, got⟩ := exists_attachment_of_loadAll elsewhere agree loading step listed root final there
    exact ⟨step.relation, children, relation_of_start walked loaded listed root, got⟩

end Executed

end Plan

namespace Search

/-- The names in the rows of a search are apart if no two aggregates have one label, no label is that of a column, and no
included relation is called like a column or a label, and only then; a label is made of the path, the measure and the field.
Columns and aggregates hide one another in no row of a result, and what is asked for can be read, columns and aggregates
as long as no included relation is called like them. -/
theorem names_of_search {graph : Graph} {schema : Schema} {declarations : List ResourceDeclaration}
    (built : Graph.build schema declarations = .ok graph) {resource : Resource} (member : resource ∈ graph.resources)
    (spec : Specification) :
    (∀ plan, Plan.compile graph resource spec = .ok plan → (Plan.askedFields resource spec.selects).Nodup →
      "" ∉ Plan.includePaths spec.includes →
        (plan.rowNames.Nodup ↔ (spec.aggregates.map Aggregate.label).Nodup ∧
          (∀ item ∈ spec.aggregates, ¬spec.HasColumn resource item.label) ∧
          ∀ name, spec.PutsUnder name →
            ¬spec.HasColumn resource name ∧ name ∉ spec.aggregates.map Aggregate.label)) ∧
      (∀ first ∈ spec.aggregates, ∀ second ∈ spec.aggregates,
        first.measure.name.toList ∉ Text.words second.path → second.measure.name.toList ∉ Text.words first.path →
          (first.label = second.label ↔
            first.path = second.path ∧ first.measure = second.measure ∧ first.suffix = second.suffix)) ∧
      ∀ database result, Returned graph resource database spec result →
        (result.rows ≠ [] → (spec.aggregates.map Aggregate.label).Nodup ∧
          ∀ item ∈ spec.aggregates, ¬spec.HasColumn resource item.label) ∧
        ∀ row ∈ result.rows, ∃ record ∈ database.rows resource.table.name,
          graph.Legible database.rows resource spec record row := by
  have sound := Graph.sound_of_build built
  refine ⟨fun plan made distinct named => Plan.nodup_rowNames made distinct named,
    fun first _ second _ apart apartToo => Aggregate.label_eq_iff apart apartToo, fun database result returned => ?_⟩
  obtain ⟨plan, started, finished, made, executed, rfl⟩ := returned.planned
  exact Plan.legible_of_execute sound member made executed

/-! ### Aggregates over children -/

namespace Tally

/-- A body that asks of people for the number of their children and the last of these, and for the one above them. -/
def body : Json := .object [
  ("aggregates", .list [
    .object [("relation", .text "children"), ("type", .text "count")],
    .object [("relation", .text "children"), ("type", .text "max"), ("field", .text "id")]]),
  ("includes", .list [.object [("relation", .text "parent")]])]

def spec : Specification where
  aggregates := [{ relation := "children", measure := .count }, { relation := "children", measure := .max, field := some "id" }]
  includes := [{ relation := "parent" }]

private theorem accepted : validate Family.graph Family.person body = .ok spec := by rfl

private theorem paths : Plan.includePaths spec.includes = ["parent"] := by
  refine List.mergeSort_of_pairwise (l := ["parent"]) ?_
  decide

/-- The children of a row in hand. -/
def ofRow : List Cond := [.linked Family.parentId ⟨1, 0, "id", .integer⟩]

/-- People with what is counted of their children. -/
def page (outputs : List Output) : Query where
  outputs
  source := .table "people"
  aliased := false
  conditions := []
  order := [(Family.id, .desc)]
  page := some (50, 0)

def plan : Plan where
  resource := Family.person
  page := page [
    .column Family.id none, .column Family.parentId none,
    .measure "children_count" .count none (.table "people") ofRow,
    .measure "children_max_id" .max (some Family.id) (.table "people") ofRow]
  counted := []
  key := Family.id
  limit := 50
  pageNumber := 1
  offset := 0
  includes := [
    { path := "parent", parentPath := none, name := "parent", relation := Family.parent,
      queries := [Family.loading [Family.id] Family.id "parent_id"] }]

private theorem plan_of_spec : Plan.compile Family.graph Family.person spec = .ok plan := by
  rw [Plan.compile, paths]
  rfl

def result : SearchResult where
  rows := [
    [("id", .int 2), ("parent_id", .int 1), ("children_count", .int 0), ("children_max_id", .null),
      ("parent", .object [("id", .int 1)])],
    [("id", .int 1), ("parent_id", .null), ("children_count", .int 1), ("children_max_id", .int 2), ("parent", .null)]]
  total := 2
  limit := 50
  page := 1
  offset := 0

private theorem executed : (plan.execute.runOn {
    database := Family.database, events := [.compiled "Person" 50 1 ["parent"]] }).1 = .ok result := by cbv

private theorem putsUnder {name : String} (puts : spec.PutsUnder name) : name = "parent" := by
  obtain ⟨path, listed, cut⟩ := puts
  rw [paths] at listed
  obtain rfl := List.mem_singleton.1 listed
  exact (congrArg Prod.snd cut).symm

private theorem hasColumn {column : String} (shown : spec.HasColumn Family.person column) :
    column = "id" ∨ column = "parent_id" := by
  rcases shown with asked | ⟨name, relation, puts, found, needed⟩
  · exact .inl (List.mem_singleton.1 asked)
  · obtain rfl := putsUnder puts
    cases found
    exact .inr (List.mem_singleton.1 needed)

private theorem labels : spec.aggregates.map Aggregate.label = ["children_count", "children_max_id"] := rfl

/-- Ids, numbers of children, last children and parents have names of their own, and can be read. -/
theorem names_apart :
    plan.rowNames.Nodup ∧ ∀ row ∈ result.rows, ∃ record ∈ Family.database.rows "people",
      Family.graph.Legible Family.database.rows Family.person spec record row := by
  obtain ⟨apart, -, read⟩ := names_of_search Family.graph_of_declaration List.mem_cons_self spec
  refine ⟨(apart plan plan_of_spec (by decide) ?_).2 ⟨?_, ?_, ?_⟩,
    (read _ _ (.of_execute rfl accepted plan_of_spec executed)).2⟩
  · rw [paths]
    decide
  · rw [labels]
    decide
  · intro item asked shown
    have listed : item.label ∈ ["children_count", "children_max_id"] := labels ▸ List.mem_map_of_mem asked
    rcases hasColumn shown with same | same <;> exact absurd (same ▸ listed) (by decide)
  · intro name puts
    obtain rfl := putsUnder puts
    refine ⟨fun shown => ?_, by rw [labels]; decide⟩
    rcases hasColumn shown with same | same <;> exact absurd same (by decide)

/-- A body that asks for the number of all children and for the number of some. -/
def bodyOfTwo : Json := .object [("aggregates", .list [
  .object [("relation", .text "children"), ("type", .text "count")],
  .object [("relation", .text "children"), ("type", .text "count"),
    ("filters", .list [.object [("field", .text "id"), ("operator", .text ">"), ("value", .int 2)]])]])]

def specOfTwo : Specification where
  aggregates := [{ relation := "children", measure := .count },
    { relation := "children", measure := .count, filters := [{ field := some "id", operator := ">", value := .int 2 }] }]

def planOfTwo : Plan := { plan with
  page := page [
    .column Family.id none,
    .measure "children_count" .count none (.table "people") ofRow,
    .measure "children_count" .count none (.table "people") (ofRow ++ [.compare .greater Family.id ⟨.integer, .int 2⟩])]
  includes := [] }

private theorem accepted_two : validate Family.graph Family.person bodyOfTwo = .ok specOfTwo := by rfl

private theorem plan_of_two : Plan.compile Family.graph Family.person specOfTwo = .ok planOfTwo := by
  have none : Plan.includePaths specOfTwo.includes = [] := by cbv
  rw [Plan.compile, none]
  rfl

private theorem executed_two : (planOfTwo.execute.runOn {
    database := Family.database, events := [.compiled "Person" 50 1 []] }).1 = .error (.storage (.ambiguousColumn "children_count")) := by cbv

/-- Two aggregates that differ in their filters have one name, and the search fails. -/
theorem one_name_for_two :
    Graph.build Family.schema [Family.declaration] = .ok Family.graph ∧
      validate Family.graph Family.person bodyOfTwo = .ok specOfTwo ∧ specOfTwo.selects = [] ∧ specOfTwo.includes = [] ∧
      specOfTwo.aggregates.Pairwise (· ≠ ·) ∧ Plan.compile Family.graph Family.person specOfTwo = .ok planOfTwo ∧
      ¬planOfTwo.rowNames.Nodup ∧
      ((Operations.search { graph := Family.graph } "Person" bodyOfTwo).runOn { database := Family.database }).1 =
        .error (.storage (.ambiguousColumn "children_count")) := by
  refine ⟨Family.graph_of_declaration, accepted_two, rfl, rfl, ?_, plan_of_two, by decide,
    search_of_execute rfl accepted_two plan_of_two executed_two⟩
  refine List.pairwise_pair.2 fun same => ?_
  cases congrArg Aggregate.filters same

end Tally

end Search

end ResourceApi
