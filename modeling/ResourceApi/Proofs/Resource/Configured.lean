import ResourceApi.Proofs.Json.Members
import ResourceApi.Proofs.Outcome
import ResourceApi.Resource.Declaration

/-!
Configurations that are read. What stands against a resource is said without following the reading of it: its model is not
known, or one of its scopes is not, or the options of one of its relations are not those of any kind. As long as every value
that is gone through has items to go through, a report names all of that, for every resource, and nothing else.
-/

namespace ResourceApi

open Outcome

/-! ## What options say -/

/-- The entries that a value holds: those of an object, and none if it says nothing. -/
def Json.entries? : Json → Option Members
  | .object members => some members
  | value => if value.truthy then none else some []

namespace RelationDeclaration

variable {name : String} {kind : Kind} {given other options : Members}

/-- The kind that options name. -/
def kind? (options : Members) : Option Kind := ((options.get? "kind").bind Json.text?).bind Kind.ofName?

/-- The options without the kind. The targets of a relation that is open may be left out. -/
def settled (kind : Kind) (options : Members) : Members :=
  let given := options.erase "kind"
  if kind = .morphTo ∧ ¬given.has "targets" then given.put "targets" (.list []) else given

/-- Options that a kind knows, and all that it requires. -/
structure Fits (kind : Kind) (given : Members) : Prop where
  known : ∀ key ∈ given.keys, key ≠ "name" ∧ key ∈ kind.options.map (·.1)
  complete : ∀ option ∈ kind.options, option.2 = none → option.1 ∈ given.keys

/-- Options of a known kind that fit it. -/
def IsRight (options : Members) : Prop := ∃ kind, kind? options = some kind ∧ Fits kind (settled kind options)

/-- The kind that is given, as it is shown. -/
def shownKind (options : Members) : String := ((options.get? "kind").getD .null).display

/-- What is said against options that are not right. -/
def problem? (options : Members) : Option String :=
  match kind? options with
  | none => some s!"missing or unknown relation kind {shownKind options}"
  | some kind =>
    (optionIssue? kind (settled kind options)).map fun problem => s!"invalid {kind.name} options: {problem}"

/-- Options of which those that are gone through have items. -/
structure Collects (kind : Kind) (given : Members) : Prop where
  targets : kind = .morphTo → ∀ value, given.get? "targets" = some value → value.elements?.isSome
  pivotFields : ∀ value, given.get? "pivot_fields" = some value → value.elements?.isSome

/-- Options that are gone through without harm. -/
def IsReadable (options : Members) : Prop := ∀ kind, kind? options = some kind → Collects kind (settled kind options)

theorem optionIssue?_eq_none : optionIssue? kind given = none ↔ Fits kind given := by
  unfold optionIssue?
  dsimp only
  split
  · next key found =>
    have strange := List.find?_some found
    simp only [Bool.or_eq_true, beq_iff_eq, Bool.not_eq_true', List.contains_eq_mem, decide_eq_false_iff_not] at strange
    refine iff_of_false (by split <;> simp) fun fits => ?_
    obtain ⟨unnamed, known⟩ := fits.known key (List.mem_of_find?_eq_some found)
    exact strange.elim unnamed (absurd known)
  · next clear =>
    have known : ∀ key ∈ given.keys, key ≠ "name" ∧ key ∈ kind.options.map (·.1) := by
      intro key listed
      simpa using List.find?_eq_none.1 clear key listed
    have missing {lacks : String × Option Json → Bool} (is : ∀ option, lacks option = (option.2.isNone && !given.has option.1)) :
        (kind.options.filter lacks).map (·.1) = [] ↔ ∀ option ∈ kind.options, option.2 = none → option.1 ∈ given.keys := by
      simp only [List.map_eq_nil_iff, List.filter_eq_nil_iff, is, Bool.and_eq_true, Option.isNone_iff_eq_none,
        Bool.not_eq_true', not_and, Bool.not_eq_false, Members.has_iff]
    have asked : Fits kind given ↔ ∀ option ∈ kind.options, option.2 = none → option.1 ∈ given.keys :=
      ⟨fun fits => fits.complete, fun complete => ⟨known, complete⟩⟩
    rw [asked]
    split
    · next none => exact iff_of_true rfl ((missing fun _ => rfl).1 none)
    · next one =>
      exact iff_of_false (by simp) fun complete => List.cons_ne_nil _ _ (one.symm.trans ((missing fun _ => rfl).2 complete))
    · next nonempty _ => exact iff_of_false (by simp) fun complete => nonempty ((missing fun _ => rfl).2 complete)

/-- What is said against options depends on their keys alone. -/
theorem optionIssue?_congr (same : given.keys = other.keys) : optionIssue? kind given = optionIssue? kind other := by
  have sameHas (key : String) : given.has key = other.has key := by
    rw [Bool.eq_iff_iff, Members.has_iff, Members.has_iff, same]
  unfold optionIssue?
  simp only [same, sameHas]

theorem problem?_eq_none : problem? options = none ↔ IsRight options := by
  unfold problem? IsRight
  cases kind? options with
  | none => simp
  | some kind => simp [optionIssue?_eq_none]

private theorem name_ofOptions (name : String) (kind : Kind) (given : Members) : (ofOptions name kind given).name = name := by
  cases kind <;> rfl

/-- Going through an option leaves the keys as they are. -/
private theorem collected_cases (key : String) (given : Members) :
    ((∀ value, given.get? key = some value → value.elements?.isSome) ∧
      ∃ after, collected key given = .ok after ∧ after.keys = given.keys ∧
        ∀ other, other ≠ key → after.get? other = given.get? other) ∨
    (¬(∀ value, given.get? key = some value → value.elements?.isSome) ∧
      ∃ kind, collected key given = .error (.fault kind)) := by
  unfold collected
  cases found : given.get? key with
  | none => exact .inl ⟨by simp, given, rfl, rfl, fun _ _ => rfl⟩
  | some value =>
    cases items : value.elements? with
    | none => exact .inr ⟨by simp [items], .unsuitableValue, by simp only [items]⟩
    | some list =>
      refine .inl ⟨by simp [items], given.put key (.list list), by simp only [items], ?_, fun other unequal => ?_⟩
      · exact Members.keys_put_of_has (by simp [Members.has, found]) _
      · exact Members.get?_put_of_ne unequal _ _

/-- The targets of an open relation are gone through; no other kind has any. -/
private def withTargets (kind : Kind) (given : Members) : Except Failure Members :=
  if kind = .morphTo then collected "targets" given else .ok given

/-- What comes of options that were gone through. -/
private def conclude (name : String) (kind : Kind) (given : Members) : Except Failure RelationDeclaration :=
  match optionIssue? kind given with
  | some problem => .error (.misconfigured [s!"{name}: invalid {kind.name} options: {problem}"])
  | none => .ok (ofOptions name kind given)

private theorem withTargets_cases (kind : Kind) (given : Members) :
    ((kind = .morphTo → ∀ value, given.get? "targets" = some value → value.elements?.isSome) ∧
      ∃ after, withTargets kind given = .ok after ∧ after.keys = given.keys ∧
        after.get? "pivot_fields" = given.get? "pivot_fields") ∨
    (¬(kind = .morphTo → ∀ value, given.get? "targets" = some value → value.elements?.isSome) ∧
      ∃ fault, withTargets kind given = .error (.fault fault)) := by
  unfold withTargets
  by_cases isOpen : kind = .morphTo
  · rw [if_pos isOpen]
    rcases collected_cases "targets" given with ⟨good, after, done, same, others⟩ | ⟨bad, fails⟩
    · exact .inl ⟨fun _ => good, after, done, same, others _ (by decide)⟩
    · exact .inr ⟨fun good => bad (good isOpen), fails⟩
  · rw [if_neg isOpen]
    exact .inl ⟨fun same => absurd same isOpen, given, rfl, rfl, rfl⟩

private theorem read_of_kind {kind : Kind} (named : kind? options = some kind) (name : String) :
    read name options =
      (withTargets kind (settled kind options) >>= fun given => collected "pivot_fields" given >>= conclude name kind) := by
  have named : ((options.get? "kind").bind Json.text? |>.bind Kind.ofName?) = some kind := named
  unfold read
  rw [named]
  unfold withTargets settled
  by_cases isOpen : kind = .morphTo
  · simp only [isOpen, if_true, true_and]
    cases (options.erase "kind").has "targets" <;> rfl
  · simp only [isOpen, if_false, false_and]
    rfl

/-- What comes of options: a relation of the name, or what is said against them, unless they cannot be gone through. -/
theorem read_cases (name : String) (options : Members) :
    (IsReadable options ∧ problem? options = none ∧ ∃ relation, read name options = .ok relation ∧ relation.name = name) ∨
    (IsReadable options ∧ ∃ problem, problem? options = some problem ∧
      read name options = .error (.misconfigured [s!"{name}: {problem}"])) ∨
    (¬IsReadable options ∧ ∃ kind, read name options = .error (.fault kind)) := by
  cases named : kind? options with
  | none =>
    have refused : read name options =
        .error (.misconfigured [s!"{name}: missing or unknown relation kind {shownKind options}"]) := by
      have named : ((options.get? "kind").bind Json.text? |>.bind Kind.ofName?) = none := named
      unfold read
      rw [named]
      rfl
    refine .inr (.inl ⟨by simp [IsReadable, named], _, by rw [problem?, named], ?_⟩)
    rw [refused, Except.error.injEq, Failure.misconfigured.injEq, List.cons.injEq]
    refine ⟨String.toList_inj.1 ?_, rfl⟩
    simp [toString]
  | some kind =>
    have readable : IsReadable options ↔ Collects kind (settled kind options) := by simp [IsReadable, named]
    have said : problem? options = (optionIssue? kind (settled kind options)).map fun problem =>
        s!"invalid {kind.name} options: {problem}" := by rw [problem?, named]
    rw [read_of_kind named]
    rcases withTargets_cases kind (settled kind options) with ⟨first, after, done, same, others⟩ | ⟨first, fault, fails⟩
    · rw [done, ok_bind]
      rcases collected_cases "pivot_fields" after with ⟨good, given, doneToo, sameToo, -⟩ | ⟨bad, fault, fails⟩
      · have isReadable := readable.2 ⟨first, others ▸ good⟩
        rw [doneToo, ok_bind, conclude, optionIssue?_congr (sameToo.trans same)]
        cases wrong : optionIssue? kind (settled kind options) with
        | none => exact .inl ⟨isReadable, by rw [said, wrong]; rfl, _, rfl, name_ofOptions _ _ _⟩
        | some problem =>
          refine .inr (.inl ⟨isReadable, _, by rw [said, wrong]; rfl, ?_⟩)
          dsimp only
          rw [Except.error.injEq, Failure.misconfigured.injEq, List.cons.injEq]
          refine ⟨String.toList_inj.1 ?_, rfl⟩
          simp [toString]
      · refine .inr (.inr ⟨fun good => bad (others ▸ (readable.1 good).pivotFields), fault, ?_⟩)
        rw [fails]
        rfl
    · refine .inr (.inr ⟨fun good => first (readable.1 good).targets, fault, ?_⟩)
      rw [fails]
      rfl

end RelationDeclaration

namespace ResourceDeclaration

/-! ## What is wrong with resources -/

section Reports

variable {schema : Schema} {name : String} {spec : Members}

/-- The table of the model that a resource names. -/
def table? (schema : Schema) (spec : Members) : Option Table :=
  ((spec.get? "model").getD (.text "")).text?.bind schema.modelTable?

/-- The relations of a resource with their options, as far as they have any. -/
def entries? (spec : Members) : Option Members := ((spec.get? "relations").getD .null).entries?

/-- The model that a resource names, as it is shown. -/
def shownModel (spec : Members) : String := ((spec.get? "model").getD .null).display

/-- What is wrong with a resource, with the text that names it. A resource without a model is not looked at further. -/
inductive Wrong (schema : Schema) (name : String) (spec : Members) : String → Prop where
  | model (unknown : table? schema spec = none) :
      Wrong schema name spec s!"{name}: unknown model {shownModel spec}"
  | scope {items : List Json} {item : Json} (known : (table? schema spec).isSome)
      (given : ((spec.get? "scopes").getD (.list [])).elements? = some items) (listed : item ∈ items)
      (unknown : ∀ scope ∈ Scope.known, item ≠ .text scope.name) :
      Wrong schema name spec s!"{name}: unknown scope {item.display}"
  | relation {entries options : Members} {relation problem : String} {value : Json} (known : (table? schema spec).isSome)
      (given : entries? spec = some entries) (listed : (relation, value) ∈ entries) (said : value.entries? = some options)
      (wrong : ¬RelationDeclaration.IsRight options) (named : RelationDeclaration.problem? options = some problem) :
      Wrong schema name spec s!"{name}.{relation}: {problem}"

/-- A resource whose parts are gone through without harm. -/
structure IsReadable (schema : Schema) (name : String) (spec : Members) : Prop where
  model : ∀ model, spec.get? "model" = some model → model.isScalar
  scopes : (table? schema spec).isSome → ∃ items, ((spec.get? "scopes").getD (.list [])).elements? = some items ∧
    ∀ item ∈ items, item.isScalar
  relations : (table? schema spec).isSome → ∃ entries, entries? spec = some entries ∧
    ∀ entry ∈ entries, ∃ options, entry.2.entries? = some options ∧ RelationDeclaration.IsReadable options
  named : (table? schema spec).isSome → '\x00' ∉ name.toList

private theorem membersOrNone_cases (value : Option Json) :
    (∃ members, (value.getD .null).entries? = some members ∧ membersOrNone value = .ok members) ∨
      (value.getD .null).entries? = none ∧ ∃ fault, membersOrNone value = .error (.fault fault) := by
  cases value with
  | none => exact .inl ⟨[], rfl, rfl⟩
  | some value =>
    cases value with
    | object members => exact .inl ⟨members, rfl, rfl⟩
    | _ =>
      simp only [Option.getD_some, Json.entries?, membersOrNone]
      split
      · exact .inr ⟨rfl, _, rfl⟩
      · exact .inl ⟨[], rfl, rfl⟩

private theorem relationOptions_cases (value : Json) :
    (∃ options, value.entries? = some options ∧ relationOptions value = .ok options) ∨
      value.entries? = none ∧ ∃ fault, relationOptions value = .error (.fault fault) := by
  cases value with
  | object members => exact .inl ⟨members, rfl, rfl⟩
  | _ =>
    simp only [Json.entries?, relationOptions]
    split
    · exact .inr ⟨rfl, _, rfl⟩
    · exact .inl ⟨[], rfl, rfl⟩

/-- Scopes are gone through if they are a collection of scalars, and then every unknown one is named. -/
private theorem readScopes_cases (name : String) (spec : Members) :
    (∃ items, ((spec.get? "scopes").getD (.list [])).elements? = some items ∧ (∀ item ∈ items, item.isScalar) ∧
      ∃ scopes issues, readScopes name spec = .ok (scopes, issues) ∧ ∀ issue, issue ∈ issues ↔
        ∃ item ∈ items, (∀ scope ∈ Scope.known, item ≠ .text scope.name) ∧ issue = s!"{name}: unknown scope {item.display}") ∨
    (¬(∃ items, ((spec.get? "scopes").getD (.list [])).elements? = some items ∧ ∀ item ∈ items, item.isScalar) ∧
      ∃ fault, readScopes name spec = .error (.fault fault)) := by
  unfold readScopes
  cases given : ((spec.get? "scopes").getD (.list [])).elements? with
  | none => exact .inr ⟨by simp, _, rfl⟩
  | some items =>
    by_cases scalar : items.all Json.isScalar
    · refine .inl ⟨items, rfl, by simpa using scalar, _, _, by simp only [scalar, if_true]; rfl, fun issue => ?_⟩
      have unknown (item : Json) : (!Scope.known.any fun scope => item.isName [scope.name]) = true ↔
          ∀ scope ∈ Scope.known, item ≠ .text scope.name := by
        cases item <;> simp [Json.isName]
      simp only [List.mem_map, List.mem_filter, unknown, and_assoc, eq_comm]
    · exact .inr ⟨by simpa using scalar, _, by simp only [scalar]; rfl⟩

/-- Relations are gone through if the options of each are, and then every one that is not right is named. -/
private theorem readRelations_cases (name : String) (entries : Members) :
    ((∀ entry ∈ entries, ∃ options, entry.2.entries? = some options ∧ RelationDeclaration.IsReadable options) ∧
      ∃ relations issues, readRelations name entries = .ok (relations, issues) ∧ ∀ issue, issue ∈ issues ↔
        ∃ entry ∈ entries, ∃ options, entry.2.entries? = some options ∧
          ∃ problem, RelationDeclaration.problem? options = some problem ∧ issue = s!"{name}.{entry.1}: {problem}") ∨
    (¬(∀ entry ∈ entries, ∃ options, entry.2.entries? = some options ∧ RelationDeclaration.IsReadable options) ∧
      ∃ fault, readRelations name entries = .error (.fault fault)) := by
  induction entries with
  | nil => exact .inl ⟨List.forall_mem_nil _, [], [], rfl, by simp⟩
  | cons entry rest ih =>
    obtain ⟨relationName, value⟩ := entry
    unfold readRelations
    rcases relationOptions_cases value with ⟨options, said, given⟩ | ⟨none, fault, fails⟩
    · rw [given, ok_bind]
      rcases RelationDeclaration.read_cases relationName options with
        ⟨readable, right, relation, read, -⟩ | ⟨readable, problem, wrong, read⟩ | ⟨unreadable, fault, fails⟩
      · rw [read]
        rcases ih with ⟨readableRest, relations, issues, later, named⟩ | ⟨unreadable, fault, fails⟩
        · refine .inl ⟨List.forall_mem_cons.2 ⟨⟨options, said, readable⟩, readableRest⟩, relation :: relations, issues,
            by simp only [later, ok_bind]; rfl, fun issue => ?_⟩
          simp [named, said, right]
        · exact .inr ⟨fun all => unreadable (List.forall_mem_cons.1 all).2, fault, by simp only [fails]; rfl⟩
      · rw [read]
        rcases ih with ⟨readableRest, relations, issues, later, named⟩ | ⟨unreadable, fault, fails⟩
        · have shown (message : String) (is : message = s!"{relationName}: {problem}") :
              s!"{name}.{message}" = s!"{name}.{relationName}: {problem}" := by
            rw [is, ← String.toList_inj]
            simp [toString]
          refine .inl ⟨List.forall_mem_cons.2 ⟨⟨options, said, readable⟩, readableRest⟩, relations,
            s!"{name}.{relationName}: {problem}" :: issues,
            by simp only [later, ok_bind, List.map_singleton, shown _ rfl]; rfl, fun issue => ?_⟩
          simp [named, said, wrong]
        · exact .inr ⟨fun all => unreadable (List.forall_mem_cons.1 all).2, fault, by simp only [fails]; rfl⟩
      · refine .inr ⟨fun all => ?_, fault, by rw [fails]⟩
        obtain ⟨same, saidToo, readable⟩ := all _ List.mem_cons_self
        rw [said] at saidToo
        cases saidToo
        exact unreadable readable
    · refine .inr ⟨fun all => ?_, fault, by rw [fails]; rfl⟩
      obtain ⟨options, said, -⟩ := all _ List.mem_cons_self
      rw [none] at said
      cases said

/-- What is wrong with a resource of a known model is wrong with its scopes or its relations. -/
private theorem wrong_iff_of_known {items : List Json} {entries : Members} (known : (table? schema spec).isSome)
    (ofScopes : ((spec.get? "scopes").getD (.list [])).elements? = some items) (ofRelations : entries? spec = some entries)
    {issue : String} : Wrong schema name spec issue ↔
      (∃ item ∈ items, (∀ scope ∈ Scope.known, item ≠ .text scope.name) ∧
        issue = s!"{name}: unknown scope {item.display}") ∨
      ∃ entry ∈ entries, ∃ options, entry.2.entries? = some options ∧
        ∃ problem, RelationDeclaration.problem? options = some problem ∧ issue = s!"{name}.{entry.1}: {problem}" := by
  constructor
  · rintro (unknown | ⟨-, given, listed, unknown⟩ | ⟨-, given, listed, said, wrong, named⟩)
    · simp [unknown] at known
    · cases ofScopes.symm.trans given
      exact .inl ⟨_, listed, unknown, rfl⟩
    · cases ofRelations.symm.trans given
      exact .inr ⟨_, listed, _, said, _, named, rfl⟩
  · rintro (⟨item, listed, unknown, rfl⟩ | ⟨⟨relation, value⟩, listed, options, said, problem, named, rfl⟩)
    · exact .scope known ofScopes listed unknown
    · have wrong : ¬RelationDeclaration.IsRight options := by simp [← RelationDeclaration.problem?_eq_none, named]
      exact .relation known ofRelations listed said wrong named

/-- What is told of a resource that was gone through: all that is wrong with it, or it was read under its name. -/
structure Tells (schema : Schema) (name : String) (spec : Members) (result : Option ResourceDeclaration × List String) :
    Prop where
  named : ∀ issue, issue ∈ result.2 ↔ Wrong schema name spec issue
  whole : result.2 = [] → ∃ declaration, result.1 = some declaration ∧ declaration.name = name

/-- A resource of a known model is read if its scopes and its relations are gone through without harm. -/
private theorem readOne_of_table {table : Table} {value : Json} (members : membersOrNone (some value) = .ok spec)
    (scalar : ((spec.get? "model").getD (.text "")).isScalar = true)
    (model : ∀ model, spec.get? "model" = some model → model.isScalar) (known : table? schema spec = some table) :
    (IsReadable schema name spec ∧ ∃ result, readOne schema name value = .ok result ∧ Tells schema name spec result) ∨
    (¬IsReadable schema name spec ∧ ∃ fault, readOne schema name value = .error (.fault fault)) := by
  have isKnown : (table? schema spec).isSome := by simp [known]
  have found : ((spec.get? "model").getD (.text "")).text?.bind schema.modelTable? = some table := known
  unfold readOne
  simp only [members, ok_bind, scalar, Bool.not_true, Bool.false_eq_true, if_false, found]
  rcases readScopes_cases name spec with ⟨items, ofScopes, scalars, scopes, scopeIssues, done, scopesNamed⟩ | ⟨bad, fault, fails⟩
  · rcases membersOrNone_cases (spec.get? "relations") with ⟨entries, ofRelations, entered⟩ | ⟨none, fault, fails⟩
    · rcases readRelations_cases name entries with
        ⟨readable, relations, relationIssues, read, named⟩ | ⟨unreadable, fault, fails⟩
      · by_cases zero : name.toList.contains '\x00'
        · refine .inr ⟨fun good => good.named isKnown (by simpa using zero), .impossibleValue, ?_⟩
          simp only [done, entered, read, ok_bind, zero, if_true]
          rfl
        · refine .inl ⟨⟨model, fun _ => ⟨items, ofScopes, scalars⟩, fun _ => ⟨entries, ofRelations, readable⟩,
            fun _ => by simpa using zero⟩, (some ⟨name, table, spec, scopes, relations⟩, scopeIssues ++ relationIssues), ?_,
            fun issue => ?_, fun _ => ⟨_, rfl, rfl⟩⟩
          · simp only [done, entered, read, ok_bind, zero]
            rfl
          · rw [wrong_iff_of_known isKnown ofScopes ofRelations, List.mem_append, scopesNamed, named]
      · refine .inr ⟨fun good => ?_, fault, by simp only [done, entered, fails, ok_bind]; rfl⟩
        obtain ⟨same, given, readable⟩ := good.relations isKnown
        cases ofRelations.symm.trans given
        exact unreadable readable
    · refine .inr ⟨fun good => ?_, fault, by simp only [done, fails, ok_bind]; rfl⟩
      obtain ⟨entries, given, -⟩ := good.relations isKnown
      cases none.symm.trans given
  · exact .inr ⟨fun good => bad (good.scopes isKnown), fault, by simp only [fails]; rfl⟩

/-- That its model is not known is all that is said of a resource. -/
private theorem tells_of_unknown (unknown : table? schema spec = none) :
    Tells schema name spec (none, [s!"{name}: unknown model {shownModel spec}"]) := by
  refine ⟨fun issue => ?_, by simp⟩
  rw [List.mem_singleton]
  constructor
  · rintro rfl
    exact .model unknown
  · rintro (_ | ⟨known, -, -, -⟩ | ⟨known, -, -, -, -, -⟩)
    · rfl
    · simp [unknown] at known
    · simp [unknown] at known

/-- A resource is read if it is gone through without harm: one of its name, unless something is wrong with it, and then
with all that is. -/
private theorem readOne_cases (schema : Schema) (name : String) (value : Json) :
    (∃ spec, value.entries? = some spec ∧ IsReadable schema name spec ∧
      ∃ result, readOne schema name value = .ok result ∧ Tells schema name spec result) ∨
    (¬(∃ spec, value.entries? = some spec ∧ IsReadable schema name spec) ∧
      ∃ fault, readOne schema name value = .error (.fault fault)) := by
  rcases membersOrNone_cases (some value) with ⟨spec, given, members⟩ | ⟨none, fault, fails⟩
  · replace given : value.entries? = some spec := given
    have readable : (∃ spec, value.entries? = some spec ∧ IsReadable schema name spec) ↔ IsReadable schema name spec := by
      simp [given]
    rw [readable]
    by_cases scalar : ((spec.get? "model").getD (.text "")).isScalar
    · have model : ∀ model, spec.get? "model" = some model → model.isScalar := by
        intro model same
        simpa [same] using scalar
      cases known : table? schema spec with
      | none =>
        have isReadable : IsReadable schema name spec := ⟨model, by simp [known], by simp [known], by simp [known]⟩
        refine .inl ⟨spec, given, isReadable, _, ?_, tells_of_unknown known⟩
        have lost : ((spec.get? "model").getD (.text "")).text?.bind schema.modelTable? = none := known
        unfold readOne
        simp only [members, ok_bind, scalar, Bool.not_true, Bool.false_eq_true, if_false, lost]
        rfl
      | some table =>
        rcases readOne_of_table members scalar model known with ⟨isReadable, read⟩ | unreadable
        · exact .inl ⟨spec, given, isReadable, read⟩
        · exact .inr unreadable
    · refine .inr ⟨fun isReadable => scalar ?_, .unsuitableValue, ?_⟩
      · cases same : spec.get? "model" with
        | none => rfl
        | some model => exact isReadable.model model same
      · unfold readOne
        simp only [members, ok_bind, scalar]
        rfl
  · refine .inr ⟨fun readable => ?_, fault, by unfold readOne; rw [fails]; rfl⟩
    obtain ⟨spec, given, -⟩ := readable
    cases given.symm.trans none

/-- What is told of the resources of a mapping is what is wrong with any of them. -/
private theorem told_iff {entries : Members} {read : List (Option ResourceDeclaration × List String)}
    (pointwise : List.Forall₂ (fun entry result => ∃ spec, entry.2.entries? = some spec ∧ Tells schema entry.1 spec result)
      entries read) {issue : String} : issue ∈ read.flatMap (·.2) ↔
        ∃ entry ∈ entries, ∃ spec, entry.2.entries? = some spec ∧ Wrong schema entry.1 spec issue := by
  rw [List.mem_flatMap]
  constructor
  · rintro ⟨result, listed, inside⟩
    obtain ⟨entry, member, spec, given, tells⟩ := forall₂_mem_right pointwise listed
    exact ⟨entry, member, spec, given, (tells.named issue).1 inside⟩
  · rintro ⟨entry, member, spec, given, wrong⟩
    obtain ⟨result, listed, same, givenToo, tells⟩ := forall₂_mem_left pointwise member
    cases given.symm.trans givenToo
    exact ⟨result, listed, (tells.named issue).2 wrong⟩

/-- If nothing is told, there is a resource for each entry. -/
private theorem names_of_reads {entries : Members} {read : List (Option ResourceDeclaration × List String)}
    (pointwise : List.Forall₂ (fun entry result => ∃ spec, entry.2.entries? = some spec ∧ Tells schema entry.1 spec result)
      entries read) (silent : read.flatMap (·.2) = []) :
    (read.filterMap (·.1)).map (·.name) = entries.map (·.1) := by
  induction pointwise with
  | nil => rfl
  | cons here _ ih =>
    rw [List.flatMap_cons, List.append_eq_nil_iff] at silent
    obtain ⟨spec, -, tells⟩ := here
    obtain ⟨declaration, made, name⟩ := tells.whole silent.1
    rw [List.filterMap_cons, made, List.map_cons, List.map_cons, ih silent.2, name]

variable {mapping entries : Members}

/-- Every configuration of which all resources are gone through without harm is read in full: there is a resource for each
entry, in order, or else a report of all that is wrong with any, and of nothing else. -/
theorem reports_of_readAll (declared : ((mapping.get? "resources").getD .null).entries? = some entries)
    (readable : ∀ entry ∈ entries, ∃ spec, entry.2.entries? = some spec ∧ IsReadable schema entry.1 spec) :
    (∃ declarations, readAll schema mapping = .ok declarations ∧
      declarations.map (·.name) = entries.map (·.1) ∧
      ∀ entry ∈ entries, ∀ spec, entry.2.entries? = some spec → ∀ issue, ¬Wrong schema entry.1 spec issue) ∨
    ∃ issues, readAll schema mapping = .error (.misconfigured issues) ∧ issues ≠ [] ∧
      ∀ issue, issue ∈ issues ↔
        ∃ entry ∈ entries, ∃ spec, entry.2.entries? = some spec ∧ Wrong schema entry.1 spec issue := by
  have entered : membersOrNone (mapping.get? "resources") = .ok entries := by
    rcases membersOrNone_cases (mapping.get? "resources") with ⟨same, given, members⟩ | ⟨none, -⟩
    · cases declared.symm.trans given
      exact members
    · cases declared.symm.trans none
  obtain ⟨read, pointwise⟩ := exists_forall₂ fun entry (listed : entry ∈ entries) =>
    show ∃ result, readOne schema entry.1 entry.2 = .ok result ∧ ∃ spec, entry.2.entries? = some spec ∧
        Tells schema entry.1 spec result by
      rcases readOne_cases schema entry.1 entry.2 with ⟨spec, given, -, result, done, tells⟩ | ⟨bad, -⟩
      · exact ⟨result, done, spec, given, tells⟩
      · exact absurd (readable entry listed) bad
  have each : entries.mapM (fun entry => readOne schema entry.1 entry.2) = .ok read :=
    mapM_eq_ok.2 (pointwise.imp fun _ _ both => both.1)
  have tells := pointwise.imp fun _ _ both => both.2
  unfold readAll
  rw [entered, ok_bind]
  cases all : read.flatMap (·.2) with
  | nil =>
    refine .inl ⟨read.filterMap (·.1), (congrArg (· >>= _) each).trans (by rw [ok_bind, all]; rfl),
      names_of_reads tells all, fun entry member spec given issue wrong => ?_⟩
    have inside := (told_iff tells).2 ⟨entry, member, spec, given, wrong⟩
    rw [all] at inside
    cases inside
  | cons first rest =>
    refine .inr ⟨first :: rest, (congrArg (· >>= _) each).trans (by rw [ok_bind, all]), List.cons_ne_nil _ _,
      fun issue => ?_⟩
    rw [← all, told_iff tells]

/-- A configuration with a resource that is not gone through without harm is not reported on: the failure is one that no
report is made of. -/
theorem fails_of_unreadable (declared : ((mapping.get? "resources").getD .null).entries? = some entries)
    (unreadable : ¬∀ entry ∈ entries, ∃ spec, entry.2.entries? = some spec ∧ IsReadable schema entry.1 spec) :
    ∃ kind, readAll schema mapping = .error (.fault kind) := by
  have each : ∃ kind, entries.mapM (fun entry => readOne schema entry.1 entry.2) = .error (.fault kind) := by
    clear declared
    induction entries with
    | nil => exact absurd (List.forall_mem_nil _) unreadable
    | cons entry rest ih =>
      rw [List.mapM_cons]
      rcases readOne_cases schema entry.1 entry.2 with ⟨spec, given, readable, result, done, -⟩ | ⟨-, kind, fails⟩
      · have later : ¬∀ entry ∈ rest, ∃ spec, entry.2.entries? = some spec ∧ IsReadable schema entry.1 spec :=
          fun all => unreadable (List.forall_mem_cons.2 ⟨⟨spec, given, readable⟩, all⟩)
        obtain ⟨kind, fails⟩ := ih later
        exact ⟨kind, by simp only [done, fails, ok_bind]; rfl⟩
      · exact ⟨kind, by simp only [fails]; rfl⟩
  obtain ⟨kind, fails⟩ := each
  refine ⟨kind, ?_⟩
  unfold readAll
  rcases membersOrNone_cases (mapping.get? "resources") with ⟨same, given, members⟩ | ⟨none, -⟩
  · cases declared.symm.trans given
    rw [members, ok_bind]
    exact congrArg (· >>= _) fails
  · cases declared.symm.trans none

end Reports

namespace Videos

def table : Table where
  name := "videos"
  columns := [⟨"id", .integer, true, false, .null⟩]

def schema : Schema := { tables := [table], models := [("Video", "videos")] }

/-- The relations of videos: to owners of some resources, and one of a kind that is not known. -/
def relations (targets : Json) : Members :=
  [("owner", .object [("kind", .text "morph_to"), ("targets", targets)]), ("likes", .object [("kind", .text "has_some")])]

/-- Videos with a scope that is not known. -/
def video (targets : Json) : Members :=
  [("model", .text "Video"), ("scopes", .list [.text "recent"]), ("relations", .object (relations targets))]

/-- Videos, and another resource of which nothing is said. -/
def resources (targets : Json) : Members := [("VideoResource", .object (video targets)), ("LikeResource", .null)]

def mapping (targets : Json) : Members := [("resources", .object (resources targets))]

theorem readable_of_list (targets : List Json) :
    ∀ entry ∈ resources (.list targets), ∃ spec, entry.2.entries? = some spec ∧ IsReadable schema entry.1 spec := by
  have owner : RelationDeclaration.IsReadable [("kind", .text "morph_to"), ("targets", .list targets)] := by
    intro kind named
    obtain rfl : .morphTo = kind := Option.some.inj named
    refine ⟨fun _ value given => ?_, fun value given => ?_⟩
    · cases given
      rfl
    · cases given
  have likes : RelationDeclaration.IsReadable [("kind", .text "has_some")] := by
    intro kind named
    cases named
  refine List.forall_mem_cons.2 ⟨⟨_, rfl, ?_⟩, List.forall_mem_singleton.2 ⟨[], rfl, ?_⟩⟩
  · refine ⟨?_, fun _ => ⟨_, rfl, ?_⟩, fun _ => ⟨_, rfl, ?_⟩, fun _ => ?_⟩
    · rintro _ ⟨⟩
      rfl
    · exact List.forall_mem_singleton.2 rfl
    · exact List.forall_mem_cons.2 ⟨⟨_, rfl, owner⟩, List.forall_mem_singleton.2 ⟨_, rfl, likes⟩⟩
    · change '\x00' ∉ "VideoResource".toList
      decide
  · exact ⟨by rintro _ ⟨⟩, by rintro ⟨⟩, by rintro ⟨⟩, by rintro ⟨⟩⟩

/-- All that is wrong is reported at once. -/
theorem reports_of_list :
    ∃ issues, readAll schema (mapping (.list [])) = .error (.misconfigured issues) ∧
      ∀ issue ∈ ["VideoResource: unknown scope 'recent'",
        "VideoResource.likes: missing or unknown relation kind 'has_some'", "LikeResource: unknown model None"],
        issue ∈ issues := by
  have declared : (((mapping (.list [])).get? "resources").getD .null).entries? = some (resources (.list [])) := rfl
  have noModel : Wrong schema "LikeResource" [] "LikeResource: unknown model None" := .model rfl
  have noScope : Wrong schema "VideoResource" (video (.list [])) "VideoResource: unknown scope 'recent'" :=
    @Wrong.scope schema "VideoResource" (video (.list [])) [.text "recent"] (.text "recent") rfl rfl List.mem_cons_self
      (by simp [Scope.known, Scope.numbered, Scope.popular, Scope.between])
  have noKind : Wrong schema "VideoResource" (video (.list []))
      "VideoResource.likes: missing or unknown relation kind 'has_some'" := by
    have wrong : ¬RelationDeclaration.IsRight [("kind", .text "has_some")] := by
      rintro ⟨_, ⟨⟩, -⟩
    exact @Wrong.relation schema "VideoResource" (video (.list [])) (relations (.list [])) [("kind", .text "has_some")]
      "likes" "missing or unknown relation kind 'has_some'" (.object [("kind", .text "has_some")]) rfl rfl
      (List.mem_cons_of_mem _ List.mem_cons_self) rfl wrong rfl
  rcases reports_of_readAll declared (readable_of_list []) with ⟨_, -, -, right⟩ | ⟨issues, reported, -, named⟩
  · exact absurd noModel (right _ (List.mem_cons_of_mem _ List.mem_cons_self) [] rfl _)
  · refine ⟨issues, reported, ?_⟩
    refine List.forall_mem_cons.2 ⟨?_, List.forall_mem_cons.2 ⟨?_, List.forall_mem_singleton.2 ?_⟩⟩
    · exact (named _).2 ⟨_, List.mem_cons_self, _, rfl, noScope⟩
    · exact (named _).2 ⟨_, List.mem_cons_self, _, rfl, noKind⟩
    · exact (named _).2 ⟨_, List.mem_cons_of_mem _ List.mem_cons_self, _, rfl, noModel⟩

/-- Targets that are no list are not reported, whatever else is wrong. -/
theorem fails_of_null :
    (∀ declarations, readAll schema (mapping .null) ≠ .ok declarations) ∧
      ∀ issues, readAll schema (mapping .null) ≠ .error (.misconfigured issues) := by
  have fails : readAll schema (mapping .null) = .error (.fault .unsuitableValue) := rfl
  simp [fails]

end Videos

end ResourceDeclaration

end ResourceApi
