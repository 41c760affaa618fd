import ResourceApi.Proofs.Rule.Obeyed
import ResourceApi.Proofs.Text.Path

/-!
What rules ask of a document, in full. A document has no messages if and only if every place that a rule reaches meets the
constraints of the rule, or is absent and may be; what a pattern reaches below a path is what the rest of it reaches below
the places of the path.
-/

namespace ResourceApi

open Outcome

/-- What a constraint asks of an attribute. -/
def Constraint.Met (answer : GraphRule.Answer) (place : Attribute) : Constraint → Prop
  | .sometimes => True
  | .required => Json.isFilled place.value
  | .prohibited => place.value = none
  | .requiredWithout other => Json.isFilled (place.sibling? other) ∨ Json.isFilled place.value
  | .requiredIf other values =>
    ∀ sibling, place.sibling? other = some sibling → sibling.isIn values → Json.isFilled place.value
  | .prohibitedIf other values =>
    ∀ sibling, place.sibling? other = some sibling → sibling.isIn values → place.value = none
  | .prohibits others => place.value = none ∨ ∀ other ∈ others, place.sibling? other = none
  | .isList => ∀ value, place.value = some value → value.isList
  | .isObject => ∀ value, place.value = some value → value.isObject
  | .isString => ∀ value, place.value = some value → value.isText
  | .isInteger => ∀ value, place.value = some value → ∃ n, value = .int n
  | .oneOf values => ∀ value, place.value = some value → value.isIn values
  | .atLeast bound => ∀ value, place.value = some value → (∃ b, value = .bool b) ∨ ¬value.isLess bound
  | .atMostItems bound => ∀ items, place.value = some (.list items) → ¬bound.isLess (.int items.length)
  | .pivotFields allowed =>
    ∀ members, place.value = some (.object members) → ∀ key ∈ Members.keys members, (Json.text key).isIn allowed
  | .filterValue => ∀ value, place.value = some value → ∀ operand, value.get? "value" = some operand →
      value.get? "operator" = some (.text "in") ∨ value.get? "operator" = some (.text "not in") → operand.isList
  | .immutable _ _ => place.value = none
  | .graph rule => ∀ value, place.value = some value → answer rule value place.path = .ok []

theorem Json.text_isIn {text : String} {names : List String} : (Json.text text).isIn (names.map .text) ↔ text ∈ names := by
  simp [Json.isIn, Json.same, Json.sameScalar]

namespace RuleSet

variable {answer : GraphRule.Answer} {place : Attribute} {constraint : Constraint} {constraints : List Constraint}

private theorem filterMessages_eq_nil {value : Json} {path : String} :
    Constraint.filterMessages value path = [] ↔ ∀ operand, value.get? "value" = some operand →
      value.get? "operator" = some (.text "in") ∨ value.get? "operator" = some (.text "not in") → operand.isList := by
  unfold Constraint.filterMessages
  split
  · next operator operand named given =>
    simp only [named, given, Option.some.injEq, Json.text.injEq, forall_eq', ite_eq_right_iff, List.cons_ne_self,
      Bool.and_eq_true, Bool.or_eq_true, beq_iff_eq, Bool.not_eq_true', and_imp]
    cases operand.isList <;> simp
  · next apart =>
    simp only [true_iff]
    rintro operand given (named | named)
    · exact absurd given (apart _ _ named)
    · exact absurd given (apart _ _ named)

private theorem pivotMessages_eq_nil {allowed : List Json} {value : Json} {path : String} :
    Constraint.pivotMessages allowed value path = [] ↔
      ∀ members, value = .object members → ∀ key ∈ Members.keys members, (Json.text key).isIn allowed := by
  unfold Constraint.pivotMessages
  split
  · simp
  · next apart => simpa using fun members same => absurd same (apart members)

/-- A constraint has no message if and only if the attribute meets it. -/
theorem constraintErrors_eq_nil : constraintErrors answer place constraint = .ok [] ↔ constraint.Met answer place := by
  obtain ⟨trail, parent, value⟩ := place
  cases constraint with
  | filterValue => cases value <;> simp [constraintErrors, Constraint.Met, filterMessages_eq_nil, Constraint.seesAbsence]
  | pivotFields allowed =>
    cases value <;> simp [constraintErrors, Constraint.Met, pivotMessages_eq_nil, Constraint.seesAbsence]
  | immutable => cases value <;> simp [constraintErrors, Constraint.Met, Constraint.seesAbsence]
  | graph => cases value <;> simp [constraintErrors, Constraint.Met, Constraint.seesAbsence]
  | requiredWithout other =>
    simp only [constraintErrors, Constraint.Met, Constraint.seesAbsence, Constraint.problem?]
    cases Json.isFilled (Attribute.sibling? ⟨trail, parent, value⟩ other) <;> cases Json.isFilled value <;> simp
  | requiredIf other values =>
    simp only [constraintErrors, Constraint.Met, Constraint.seesAbsence, Constraint.problem?]
    cases Attribute.sibling? ⟨trail, parent, value⟩ other <;> simp
  | prohibitedIf other values =>
    simp only [constraintErrors, Constraint.Met, Constraint.seesAbsence, Constraint.problem?]
    cases Attribute.sibling? ⟨trail, parent, value⟩ other <;> cases value <;> simp [Attribute.isPresent]
  | prohibits others =>
    simp only [constraintErrors, Constraint.Met, Constraint.seesAbsence, Constraint.problem?]
    cases none : others.filter fun other => (Attribute.sibling? ⟨trail, parent, value⟩ other).isSome with
    | nil => simpa [Option.isSome_iff_ne_none, List.filter_eq_nil_iff] using .inr (by simpa using none)
    | cons first rest =>
      have clash : first ∈ others ∧ (Attribute.sibling? ⟨trail, parent, value⟩ first).isSome :=
        List.mem_filter.1 (none ▸ List.mem_cons_self)
      cases value with
      | none => simp [Attribute.isPresent]
      | some value => simpa [Attribute.isPresent] using ⟨first, clash.1, Option.isSome_iff_ne_none.1 clash.2⟩
  | isInteger =>
    cases value with
    | none => simp [constraintErrors, Constraint.Met, Constraint.seesAbsence]
    | some value => cases value <;> simp [constraintErrors, Constraint.Met, Constraint.problem?]
  | atLeast =>
    cases value with
    | none => simp [constraintErrors, Constraint.Met, Constraint.seesAbsence]
    | some value => cases value <;> simp [constraintErrors, Constraint.Met, Constraint.problem?]
  | atMostItems =>
    cases value with
    | none => simp [constraintErrors, Constraint.Met, Constraint.seesAbsence]
    | some value => cases value <;> simp [constraintErrors, Constraint.Met, Constraint.problem?]
  | _ =>
    cases value <;>
      simp [constraintErrors, Constraint.Met, Constraint.seesAbsence, Constraint.problem?, Attribute.isPresent]

private theorem attributeErrors_eq_nil :
    attributeErrors answer place constraints = .ok [] ↔ ∀ constraint ∈ constraints, constraint.Met answer place := by
  induction constraints with
  | nil => simp [attributeErrors]
  | cons first rest ih =>
    rw [attributeErrors, bind_eq_ok, List.forall_mem_cons, ← ih, ← constraintErrors_eq_nil]
    constructor
    · rintro ⟨messages, checked, after⟩
      split at after
      · next ended =>
        obtain rfl := pure_eq_ok.1 after
        simp at ended
      · obtain ⟨later, checkedLater, joined⟩ := bind_eq_ok.1 after
        obtain ⟨rfl, rfl⟩ := List.append_eq_nil_iff.1 (pure_eq_ok.1 joined)
        exact ⟨checked, checkedLater⟩
    · rintro ⟨checked, checkedLater⟩
      refine ⟨[], checked, ?_⟩
      rw [if_neg (by simp)]
      exact bind_eq_ok.2 ⟨[], checkedLater, rfl⟩

private theorem any_isSometimes :
    constraints.any (fun constraint => constraint matches .sometimes) = true ↔ .sometimes ∈ constraints := by
  rw [List.any_eq_true]
  constructor
  · rintro ⟨constraint, listed, isSometimes⟩
    cases constraint <;> first | exact listed | cases isSometimes
  · exact fun listed => ⟨.sometimes, listed, rfl⟩

/-- A place has no messages if and only if it meets every constraint, or is absent and may be. -/
theorem placeErrors_eq_nil :
    placeErrors answer constraints place = .ok [] ↔
      place.value = none ∧ .sometimes ∈ constraints ∨ ∀ constraint ∈ constraints, constraint.Met answer place := by
  rw [placeErrors, ← attributeErrors_eq_nil]
  split
  · next skipped =>
    obtain ⟨absent, listed⟩ := Bool.and_eq_true_iff.1 skipped
    exact iff_of_true rfl (.inl ⟨by simpa [Attribute.isPresent] using absent, any_isSometimes.1 listed⟩)
  · next looked =>
    refine (or_iff_right ?_).symm
    rintro ⟨absent, listed⟩
    exact looked (Bool.and_eq_true_iff.2 ⟨by simp [Attribute.isPresent, absent], any_isSometimes.2 listed⟩)

theorem placeErrors_eq_nil_of_present {value : Json} (present : place.value = some value) :
    placeErrors answer constraints place = .ok [] ↔ ∀ constraint ∈ constraints, constraint.Met answer place := by
  simp [placeErrors_eq_nil, present]

/-- A text that is one of some names, wherever there is a value. -/
theorem text_met {names : List String} :
    Constraint.isString.Met answer place ∧ (Constraint.oneOf (names.map .text)).Met answer place ↔
      ∀ value, place.value = some value → ∃ name ∈ names, value = .text name := by
  constructor
  · rintro ⟨-, listed⟩ value present
    exact Json.isIn_texts (listed value present)
  · intro named
    refine ⟨fun value present => ?_, fun value present => ?_⟩
    · obtain ⟨name, -, rfl⟩ := named value present
      rfl
    · obtain ⟨name, listed, rfl⟩ := named value present
      exact Json.text_isIn.2 listed

/-- A place that may be absent, and is one of some names if it is not. -/
theorem placeErrors_optional_text {names : List String} :
    placeErrors answer [.sometimes, .isString, .oneOf (names.map .text)] place = .ok [] ↔
      ∀ value, place.value = some value → ∃ name ∈ names, value = .text name := by
  rw [placeErrors_eq_nil, List.forall_mem_cons, List.forall_mem_cons, List.forall_mem_singleton, text_met]
  constructor
  · rintro (⟨absent, -⟩ | ⟨-, named⟩) value present
    · rw [absent] at present
      cases present
    · exact named value present
  · exact fun named => .inr ⟨trivial, named⟩

/-- A place that has to be one of some names, and no blank one. -/
theorem placeErrors_required_text {names : List String} :
    placeErrors answer [.required, .isString, .oneOf (names.map .text)] place = .ok [] ↔
      ∃ name ∈ names, place.value = some (.text name) ∧ ¬Text.isBlank name := by
  rw [placeErrors_eq_nil, or_iff_right (by simp), List.forall_mem_cons, List.forall_mem_cons, List.forall_mem_singleton,
    text_met]
  constructor
  · rintro ⟨filled, named⟩
    cases present : place.value with
    | none => simp [Constraint.Met, present, Json.isFilled] at filled
    | some value =>
      obtain ⟨name, listed, rfl⟩ := named value present
      exact ⟨name, listed, rfl, by simpa [Constraint.Met, present, Json.isFilled] using filled⟩
  · rintro ⟨name, listed, present, worded⟩
    refine ⟨by simpa [Constraint.Met, present, Json.isFilled] using worded, fun value given => ?_⟩
    rw [present] at given
    cases given
    exact ⟨name, listed, rfl⟩

/-- A place that may be absent, and is a list if it is not. -/
theorem placeErrors_optional_list :
    placeErrors answer [.sometimes, .isList] place = .ok [] ↔ ∀ value, place.value = some value → value.isList := by
  rw [placeErrors_eq_nil]
  cases absent : place.value <;> simp [Constraint.Met, absent]

/-- A document has no messages if and only if no place that a rule reaches has any. -/
theorem errors_eq_nil {rules : RuleSet} {data : Json} :
    rules.errors answer data = .ok [] ↔ ∀ pattern constraints, (pattern, constraints) ∈ rules →
      ∀ place ∈ Attribute.expand data pattern, placeErrors answer constraints place = .ok [] := by
  rw [errors, flatten_mapM_eq_nil]
  constructor
  · intro none pattern constraints rule
    exact flatten_mapM_eq_nil.1 (none _ rule)
  · intro each entry rule
    exact flatten_mapM_eq_nil.2 (each entry.1 entry.2 rule)

theorem errorsAt_eq_nil {rules : RuleSet} {data : Json} {path : String} :
    rules.errorsAt answer data path = .ok [] ↔ rules.errors answer data = .ok [] := by
  refine ⟨errors_of_errorsAt, fun none => ?_⟩
  rw [errorsAt, none]
  rfl

theorem errors_append_eq_nil {rules others : RuleSet} {data : Json} :
    RuleSet.errors answer (rules ++ others) data = .ok [] ↔
      rules.errors answer data = .ok [] ∧ others.errors answer data = .ok [] := by
  simp only [errors_eq_nil, List.mem_append, or_imp, forall_and]

theorem errors_cons_eq_nil {pattern : String} {rules : RuleSet} {data : Json} :
    RuleSet.errors answer ((pattern, constraints) :: rules) data = .ok [] ↔
      (∀ place ∈ Attribute.expand data pattern, placeErrors answer constraints place = .ok []) ∧
        rules.errors answer data = .ok [] := by
  simp only [errors_eq_nil, List.mem_cons, Prod.mk.injEq, or_imp, forall_and, and_imp, forall_eq, forall_eq_apply_imp_iff]

end RuleSet

/-! ## Constraints that ask nothing of the graph -/

namespace Constraint

/-- A constraint that looks at the document alone, and so always has an answer. -/
def IsLocal : Constraint → Prop
  | .immutable _ _ | .graph _ => False
  | _ => True

end Constraint

namespace RuleSet

variable {answer : GraphRule.Answer} {place : Attribute} {constraints : List Constraint}

private theorem attributeErrors_answered
    (answered : ∀ constraint ∈ constraints, ∃ messages, constraintErrors answer place constraint = .ok messages) :
    ∃ messages, attributeErrors answer place constraints = .ok messages := by
  induction constraints with
  | nil => exact ⟨[], rfl⟩
  | cons first rest ih =>
    obtain ⟨⟨messages, checked⟩, others⟩ := List.forall_mem_cons.1 answered
    obtain ⟨later, checkedLater⟩ := ih others
    rw [attributeErrors, checked, ok_bind]
    split
    · exact ⟨_, rfl⟩
    · exact ⟨_, bind_eq_ok.2 ⟨later, checkedLater, rfl⟩⟩

/-- A document has its messages whenever every constraint has an answer. -/
theorem errors_answered {rules : RuleSet} {answer : GraphRule.Answer} (answered : ∀ entry ∈ rules,
      ∀ constraint ∈ entry.2, ∀ place, ∃ messages, constraintErrors answer place constraint = .ok messages)
    (data : Json) : ∃ messages, rules.errors answer data = .ok messages := by
  have perPlace (entry) (rule : entry ∈ rules) (place : Attribute) :
      ∃ messages, placeErrors answer entry.2 place = .ok messages := by
    unfold placeErrors
    split
    · exact ⟨_, rfl⟩
    · exact attributeErrors_answered fun constraint listed => answered entry rule constraint listed place
  obtain ⟨found, checked⟩ := exists_forall₂ fun entry (rule : entry ∈ rules) =>
    show ∃ messages : List String, (do
      return (← (Attribute.expand data entry.1).mapM (placeErrors answer entry.2)).flatten) = .ok messages by
      obtain ⟨found, checked⟩ := exists_forall₂ fun place (_ : place ∈ Attribute.expand data entry.1) =>
        perPlace entry rule place
      exact ⟨_, bind_eq_ok.2 ⟨found, mapM_eq_ok.2 checked, rfl⟩⟩
  exact ⟨_, bind_eq_ok.2 ⟨found, mapM_eq_ok.2 checked, rfl⟩⟩

theorem constraintErrors_total {constraint : Constraint} (isLocal : constraint.IsLocal) (answer : GraphRule.Answer)
    (place : Attribute) : ∃ messages, constraintErrors answer place constraint = .ok messages := by
  obtain ⟨trail, parent, value⟩ := place
  cases constraint <;> cases isLocal <;> cases value <;> exact ⟨_, rfl⟩

/-- A document has its messages whenever the constraints look at nothing else. -/
theorem errors_total {rules : RuleSet} (locals : ∀ entry ∈ rules, ∀ constraint ∈ entry.2, constraint.IsLocal)
    (answer : GraphRule.Answer) (data : Json) : ∃ messages, rules.errors answer data = .ok messages :=
  errors_answered (fun entry rule constraint listed => constraintErrors_total (locals entry rule constraint listed) answer)
    data

end RuleSet

/-! ## Places below places -/

namespace Json

theorem mem_of_child {items : List Json} {child : Step × Json} (inside : child ∈ (Json.list items).children) :
    child.2 ∈ items := by
  obtain ⟨⟨item, position⟩, listed, rfl⟩ := List.mem_map.1 inside
  exact List.fst_mem_of_mem_zipIdx listed

theorem child_of_mem {items : List Json} {item : Json} (member : item ∈ items) :
    ∃ step, (step, item) ∈ (Json.list items).children := by
  obtain ⟨position, inside, rfl⟩ := List.getElem_of_mem member
  exact ⟨.index position, List.mem_map.2 ⟨(items[position], position), by simp [List.mem_zipIdx_iff_getElem?], rfl⟩⟩

end Json

namespace Attribute

/-- What a pattern reaches is what its last part reaches below the places of the first. -/
theorem below_append (trail : List Step) (data : Json) (before : List Segment) (segment : Segment)
    (rest : List Segment) :
    below trail data (before ++ segment :: rest) =
      (below trail data before).flatMap fun place =>
        place.value.toList.flatMap fun value => below place.steps value (segment :: rest) := by
  induction before generalizing trail data with
  | nil => simp [below]
  | cons first others ih =>
    cases others with
    | nil =>
      cases first with
      | any => simp [below, List.flatMap_map]
      | name key =>
        cases data with
        | object members =>
          simp only [List.singleton_append, below, Json.get?, Members.get?, List.flatMap_singleton]
          cases List.lookup key members <;> simp
        | _ => simp [below, Json.get?]
    | cons second others =>
      cases first with
      | any =>
        rw [List.cons_append, List.cons_append, below, ← List.cons_append]
        · simp only [ih, below, List.flatMap_assoc]
        · simp
      | name key =>
        rw [List.cons_append, List.cons_append, below, below, ← List.cons_append]
        cases data.get? key with
        | none => simp
        | some value => exact ih _ _
        · simp
        · simp

variable {path : String} {data : Json} {place : Attribute}

/-- What a longer path reaches is what its end reaches below the places of its beginning. -/
theorem mem_expand_append (nonempty : path ≠ "") (rest : String) :
    place ∈ expand data (path ++ "." ++ rest) ↔ ∃ outer ∈ expand data path, ∃ value, outer.value = some value ∧
      place ∈ below outer.steps value ((Path.names rest).map Segment.ofText) := by
  obtain ⟨first, more, parts⟩ := List.exists_cons_of_ne_nil (Path.names_ne_nil rest)
  rw [expand, Path.segments_append nonempty, List.map_append, parts, List.map_cons, below_append]
  simp [expand]

theorem mem_expand_items (nonempty : path ≠ "") :
    place ∈ expand data (path ++ ".*") ↔ ∃ outer ∈ expand data path, ∃ value, outer.value = some value ∧
      ∃ child ∈ value.children, place = ⟨outer.steps ++ [child.1], none, some child.2⟩ := by
  have names : (Path.names "*").map Segment.ofText = [.any] := rfl
  rw [show path ++ ".*" = path ++ "." ++ "*" by rw [String.append_assoc]; rfl, mem_expand_append nonempty, names]
  simp [below, eq_comm]

/-- The places of a member of every item. -/
theorem mem_expand_key (nonempty : path ≠ "") {key : String} (plain : Path.IsPlain key) (single : key ≠ "*") :
    place ∈ expand data (path ++ ".*" ++ ("." ++ key)) ↔
      ∃ outer ∈ expand data path, ∃ value, outer.value = some value ∧ ∃ child ∈ value.children,
        ∃ members, child.2 = .object members ∧
          place = ⟨outer.steps ++ [child.1] ++ [.member key], some members, Members.get? members key⟩ := by
  have named : (Path.names key).map Segment.ofText = [.name key] := by
    rw [Path.names_of_isPlain plain, List.map_singleton, Segment.ofText, if_neg single]
  have last (trail : List Step) (value : Json) : place ∈ below trail value [.name key] ↔
      ∃ members, value = .object members ∧
        place = ⟨trail ++ [.member key], some members, Members.get? members key⟩ := by
    cases value with
    | object members => simp [below_last]
    | _ => simp [below]
  rw [← String.append_assoc, mem_expand_append (by simp), named]
  simp only [mem_expand_items nonempty, last]
  constructor
  · rintro ⟨_, ⟨outer, reached, value, present, child, inside, rfl⟩, _, ⟨⟩, members, same, rfl⟩
    exact ⟨outer, reached, value, present, child, inside, members, same, rfl⟩
  · rintro ⟨outer, reached, value, present, child, inside, members, same, rfl⟩
    exact ⟨_, ⟨outer, reached, value, present, child, inside, rfl⟩, _, rfl, members, same, rfl⟩

end Attribute

namespace RuleSet

variable {answer : GraphRule.Answer} {path : String} {data : Json}

/-- Rules for a list of objects: for the list, for its items, and for some members of each. -/
def ofItems (path : String) (whole item : List Constraint) (keys : List (String × List Constraint)) : RuleSet :=
  (path, whole) :: (path ++ ".*", item) :: keys.map fun entry => (path ++ ".*" ++ ("." ++ entry.1), entry.2)

/-- A document keeps to rules for lists of objects if and only if every list, every item and every member does. -/
theorem errors_ofItems_eq_nil (nonempty : path ≠ "") {whole item : List Constraint}
    {keys : List (String × List Constraint)} (plain : ∀ entry ∈ keys, Path.IsPlain entry.1 ∧ entry.1 ≠ "*") :
    (ofItems path whole item keys).errors answer data = .ok [] ↔
      ∀ outer ∈ Attribute.expand data path, placeErrors answer whole outer = .ok [] ∧
        ∀ value, outer.value = some value → ∀ child ∈ value.children,
          placeErrors answer item ⟨outer.steps ++ [child.1], none, some child.2⟩ = .ok [] ∧
            ∀ members, child.2 = .object members → ∀ entry ∈ keys, placeErrors answer entry.2
              ⟨outer.steps ++ [child.1] ++ [.member entry.1], some members, Members.get? members entry.1⟩ = .ok [] := by
  rw [ofItems, errors_cons_eq_nil, errors_cons_eq_nil]
  constructor
  · rintro ⟨ofList, ofItem, ofKeys⟩ outer reached
    refine ⟨ofList outer reached, fun value present child inside => ⟨?_, fun members same entry listed => ?_⟩⟩
    · exact ofItem _ ((Attribute.mem_expand_items nonempty).2 ⟨outer, reached, value, present, child, inside, rfl⟩)
    · refine placeErrors_of_errors ofKeys (List.mem_map_of_mem listed) ?_
      obtain ⟨isPlain, single⟩ := plain entry listed
      exact (Attribute.mem_expand_key nonempty isPlain single).2
        ⟨outer, reached, value, present, child, inside, members, same, rfl⟩
  · intro each
    refine ⟨fun outer reached => (each outer reached).1, fun place reached => ?_,
      errors_eq_nil.2 fun pattern constraints rule place reached => ?_⟩
    · obtain ⟨outer, start, value, present, child, inside, rfl⟩ := (Attribute.mem_expand_items nonempty).1 reached
      exact ((each outer start).2 value present child inside).1
    · obtain ⟨entry, listed, same⟩ := List.mem_map.1 rule
      obtain ⟨rfl, rfl⟩ := Prod.mk.inj same
      obtain ⟨isPlain, single⟩ := plain entry listed
      obtain ⟨outer, start, value, present, child, inside, members, object, rfl⟩ :=
        (Attribute.mem_expand_key nonempty isPlain single).1 reached
      exact ((each outer start).2 value present child inside).2 members object entry listed

/-- A document keeps to rules for lists of items that may be absent if and only if every value there is a list of good
items. -/
theorem errors_ofList_eq_nil (nonempty : path ≠ "") {item : List Constraint} {keys : List (String × List Constraint)}
    (plain : ∀ entry ∈ keys, Path.IsPlain entry.1 ∧ entry.1 ≠ "*") {good : Json → Prop}
    (perItem : ∀ trail value, (placeErrors answer item ⟨trail, none, some value⟩ = .ok [] ∧
      ∀ members, value = .object members → ∀ entry ∈ keys, placeErrors answer entry.2
        ⟨trail ++ [.member entry.1], some members, Members.get? members entry.1⟩ = .ok []) ↔ good value) :
    (ofItems path [.sometimes, .isList] item keys).errors answer data = .ok [] ↔
      ∀ place ∈ Attribute.expand data path, ∀ value, place.value = some value →
        ∃ items, value = .list items ∧ ∀ item ∈ items, good item := by
  rw [errors_ofItems_eq_nil nonempty plain]
  refine forall₂_congr fun place _ => ?_
  rw [placeErrors_optional_list, ← forall_and]
  refine forall_congr' fun value => ?_
  rw [← imp_and]
  refine imp_congr_right fun _ => ?_
  constructor
  · rintro ⟨list, each⟩
    obtain ⟨items, rfl⟩ := Json.isList_iff.1 list
    refine ⟨items, rfl, fun item member => ?_⟩
    obtain ⟨step, child⟩ := Json.child_of_mem member
    exact (perItem _ _).1 (each _ child)
  · rintro ⟨items, rfl, each⟩
    exact ⟨rfl, fun child inside => (perItem _ _).2 (each _ (Json.mem_of_child inside))⟩

end RuleSet

end ResourceApi
