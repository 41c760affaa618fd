import ResourceApi.Proofs.Mutation.Accepted
import ResourceApi.Proofs.Mutation.Met

/-!
Which bodies of mutations are validated. A grammar says what a node is, over a graph that may have cycles; the rules
together with the reader accept exactly the lists of such nodes.
-/

namespace ResourceApi

open Outcome Reading RuleSet

/-- The resource that an item below a relation is of. Only an item of a polymorphic relation names it. -/
def Relation.LeadsTo (graph : Graph) (relation : Relation) (item : Json) (target : Resource) : Prop :=
  if relation.kind = .morphTo then
    ∃ name ∈ relation.targets, item.get? "resource" = some (.text name) ∧ graph.get? name = some target
  else item.get? "resource" = none ∧ graph.target relation = .ok target

/-- The operation that an entry states: to create, if it states none. -/
def Operation.IsStated (operation : Operation) (entry : Json) : Prop :=
  entry.get? "operation" = some (.text operation.name) ∨ entry.get? "operation" = none ∧ operation = .create

theorem Operation.IsStated.getD_eq {operation : Operation} {entry : Json}
    (stated : operation.IsStated entry) : (entry.get? "operation").getD (.text "create") = .text operation.name := by
  rcases stated with given | ⟨absent, rfl⟩
  · rw [given]
    rfl
  · rw [absent]
    rfl

theorem Members.get?_of_mem_keys {members : Members} {key : String} (member : key ∈ members.keys) :
    ∃ value, members.get? key = some value := by
  obtain ⟨entry, inside, rfl⟩ := List.mem_map.1 member
  exact Option.isSome_iff_exists.1 (List.lookup_isSome_iff.2 ⟨entry, inside, beq_self_eq_true _⟩)

mutual
/-- A node of a resource: an object of values that can be set, with the writes through its relations. -/
inductive IsNode (graph : Graph) : Resource → Json → Prop where
  | object {resource : Resource} {members : Members}
      (own : ∀ key ∈ Members.keys members,
        key ∈ resource.fillable ∨ key = resource.key ∨ key ∈ Node.reserved)
      (relations : ∀ value, members.get? "relations" = some value → AreEntries graph resource value) :
      IsNode graph resource (.object members)

/-- The writes through the relations of a resource, by the names of these. -/
inductive AreEntries (graph : Graph) : Resource → Json → Prop where
  | object {resource : Resource} {entries : Members}
      (each : ∀ name entry, entries.get? name = some entry → IsEntry graph resource name entry) :
      AreEntries graph resource (.object entries)

/-- The writes through a declared relation that can be written: an operation that its kind allows, on at least one item
and, if the relation leads to one record, on no more than one. -/
inductive IsEntry (graph : Graph) : Resource → String → Json → Prop where
  | object {resource : Resource} {name : String} {relation : Relation} {fields : Members} {operation : Operation}
      {items : List Json} (declared : resource.relation? name = some relation) (writable : relation.isMutable)
      (stated : operation.IsStated (.object fields)) (allowed : relation.kind.allows operation)
      (listed : fields.get? "operations" = some (.list items)) (nonempty : items ≠ [])
      (single : relation.kind.cardinality = .one → items.length ≤ 1)
      (each : ∀ item ∈ items, IsItem graph relation operation item) : IsEntry graph resource name (.object fields)

/-- A node of the resource behind a relation, which says which record it is unless that is to be made, and has join
values only where there are any. -/
inductive IsItem (graph : Graph) : Relation → Operation → Json → Prop where
  | node {relation : Relation} {operation : Operation} {item : Json} {target : Resource}
      (leads : relation.LeadsTo graph item target)
      (keyed : operation ≠ .create → ∃ value, item.get? target.key = some value ∧ value ≠ .null)
      (joined : ∀ value, item.get? "pivot" = some value → relation.kind.linkPlace = .pivot ∧
        ∃ members, value = .object members ∧ ∀ key ∈ Members.keys members, key ∈ relation.pivotFields)
      (wellFormed : IsNode graph target item) : IsItem graph relation operation item
end

namespace Mutation

variable {graph : Graph} {resource : Resource} {relation : Relation} {levels : Nat}

/-! ## Answers -/

theorem fillable_eq_nil {node : Json} {path : String} :
    answerTo graph levels (.fillable resource) node path = .ok [] ↔ ∀ members, node = .object members →
      ∀ key ∈ Members.keys members, key ∈ resource.fillable ∨ key = resource.key ∨ key ∈ Node.reserved := by
  cases node with
  | object members => simp [answerTo, Members.keys, ← or_iff_not_imp_left]
  | _ => simp [answerTo]

theorem knownRelations_eq_nil {value : Json} {path : String} :
    answerTo graph levels (.knownRelations resource) value path = .ok [] ↔ ∀ entries, value = .object entries →
      ∀ name ∈ Members.keys entries, ∃ relation, resource.relation? name = some relation := by
  cases value with
  | object entries => simp [answerTo, Members.keys, Option.isNone_iff_eq_none, Option.ne_none_iff_exists']
  | _ => simp [answerTo]

/-- Whether an item says which record of its resource it is. -/
def IsKeyed (graph : Graph) (relation : Relation) (item : Json) : Prop :=
  ∃ target?, relatedResource? graph relation item = .ok target? ∧
    ∀ target, target? = some target → ∃ value, item.get? target.key = some value ∧ value ≠ .null

private theorem missingKey_eq_nil {item : Json} {operation path : String} {position : Nat} : (do
      if !item.isObject then return []
      match ← relatedResource? graph relation item with
      | none => return []
      | some target =>
        match item.get? target.key with
        | none | some .null => return [s!"{path}.operations.{position}.{target.key}: is required to {operation}"]
        | some _ => return [] : Except Failure (List String)) = .ok [] ↔
      (item.isObject → IsKeyed graph relation item) := by
  cases item.isObject with
  | false => simp
  | true =>
    rw [imp_iff_right rfl, IsKeyed]
    cases relatedResource? graph relation item with
    | error failure => simp
    | ok target? =>
      cases target? with
      | none => simp
      | some target =>
        cases found : item.get? target.key with
        | none => simp [found]
        | some value => cases value <;> simp [found]

/-- Nodes to link or unlink have no message if and only if each says which record it is. -/
theorem missingKeys_eq_nil {entry : Json} {path : String} :
    missingKeys graph relation entry path = .ok [] ↔
      ∀ operation items, (entry.get? "operation").getD (.text "create") = .text operation →
        entry.get? "operations" = some (.list items) → operation ∈ ["attach", "detach", "sync"] →
        ∀ item ∈ items, item.isObject → IsKeyed graph relation item := by
  unfold missingKeys
  split
  · next operation items stated listed =>
    have whole : (∀ other others, Json.text operation = .text other → some (Json.list items) = some (.list others) →
        other ∈ ["attach", "detach", "sync"] → ∀ item ∈ others, item.isObject → IsKeyed graph relation item) ↔
        (operation ∈ ["attach", "detach", "sync"] → ∀ item ∈ items, item.isObject → IsKeyed graph relation item) := by
      refine ⟨fun each => each operation items rfl rfl, ?_⟩
      rintro each _ _ ⟨⟩ ⟨⟩
      exact each
    rw [stated, listed, whole]
    by_cases linking : operation ∈ ["attach", "detach", "sync"]
    · rw [if_neg (not_not_intro linking), imp_iff_right linking]
      refine flatten_mapM_eq_nil.trans ?_
      constructor
      · intro each item member
        obtain ⟨position, inside, rfl⟩ := List.getElem_of_mem member
        exact missingKey_eq_nil.1 (each (_, position) (by simp [List.mem_zipIdx_iff_getElem?]))
      · rintro each ⟨item, position⟩ member
        exact missingKey_eq_nil.2 (each item (List.fst_mem_of_mem_zipIdx member))
    · rw [if_pos linking]
      exact iff_of_true rfl fun isLinking => absurd isLinking linking
  · next others =>
    refine iff_of_true rfl fun operation items stated listed => ?_
    exact absurd listed (others operation items stated)

theorem relatedNode_eq_nil {members : Members} {path : String} :
    answerTo graph (levels + 1) (.relatedNode relation) (.object members) path = .ok [] ↔
      ∃ target?, relatedResource? graph relation (.object members) = .ok target? ∧
        ∀ target, target? = some target →
          (nodeRules target "").errors (answerTo graph levels) (.object members) = .ok [] := by
  simp only [answerTo, bind_eq_ok]
  refine exists_congr fun target? => and_congr_right fun _ => ?_
  cases target? with
  | none => simp
  | some target => simp [errorsAt_eq_nil]

/-- What the answers have to say does not go by the path. -/
theorem answerTo_free : (answerTo graph levels).IsFree := by
  intro rule value path
  cases rule with
  | fillable resource => exact fillable_eq_nil.trans fillable_eq_nil.symm
  | knownRelations resource => exact knownRelations_eq_nil.trans knownRelations_eq_nil.symm
  | operationKeys relation => 
    simp only [answerTo]
    exact missingKeys_eq_nil.trans missingKeys_eq_nil.symm
  | relatedNode relation =>
    cases value with
    | object members =>
      cases levels with
      | zero => exact Iff.rfl
      | succ levels => exact relatedNode_eq_nil.trans relatedNode_eq_nil.symm
    | _ => simp [answerTo]
  | _ => simp [answerTo]

/-! ## Rules and grammar -/

theorem relatedResource?_of_leadsTo {item : Json} {target : Resource} (leads : relation.LeadsTo graph item target) :
    relatedResource? graph relation item = .ok (some target) := by
  unfold Relation.LeadsTo at leads
  unfold relatedResource?
  split at leads
  · next polymorphic =>
    obtain ⟨name, listed, given, found⟩ := leads
    have member : relation.targets.contains name := by simpa using listed
    rw [if_pos polymorphic, given]
    simp only [Option.bind_some, Json.text?, if_pos member, found]
  · next single =>
    rw [if_neg single, leads.2]
    rfl

theorem mem_of_leadsTo {item : Json} {target : Resource} (leads : relation.LeadsTo graph item target) :
    target ∈ graph.resources := by
  unfold Relation.LeadsTo at leads
  split at leads
  · obtain ⟨_, -, -, found⟩ := leads
    exact Graph.mem_of_get? found
  · exact Graph.mem_of_target leads.2

/-- The rules of an item, and the graph, say of which resource it is. -/
theorem leadsTo_of_itemMet (sound : relation.Sound graph resource) {answer : GraphRule.Answer} {item : Json}
    (met : relation.ItemMet answer item) {target? : Option Resource}
    (asked : relatedResource? graph relation item = .ok target?) :
    ∃ target ∈ graph.resources, target? = some target ∧ relation.LeadsTo graph item target := by
  have tag := met.tag
  unfold Relation.LeadsTo
  unfold relatedResource? at asked
  split at tag
  · next polymorphic =>
    obtain ⟨name, listed, given, -⟩ := tag
    obtain ⟨target, found⟩ := sound.targets name listed
    have member : relation.targets.contains name := by simpa using listed
    simp only [if_pos polymorphic, given, Option.bind_some, Json.text?, if_pos member, found, Except.ok.injEq] at asked
    refine ⟨target, Graph.mem_of_get? found, asked.symm, ?_⟩
    rw [if_pos polymorphic]
    exact ⟨name, listed, given, found⟩
  · next single =>
    rw [if_neg single] at asked
    obtain ⟨target, leads, rfl⟩ := map_eq_ok.1 asked
    refine ⟨target, Graph.mem_of_target leads, rfl, ?_⟩
    rw [if_neg single]
    exact ⟨tag, leads⟩

/-- An item that is of a resource names it where it has to. -/
theorem tag_of_leadsTo (worded : ∀ target ∈ graph.resources, ¬Text.isBlank target.name) {item : Json}
    {target : Resource} (leads : relation.LeadsTo graph item target) :
    if relation.kind = .morphTo then
      ∃ name ∈ relation.targets, item.get? "resource" = some (.text name) ∧ ¬Text.isBlank name
    else item.get? "resource" = none := by
  unfold Relation.LeadsTo at leads
  split at leads
  · next polymorphic =>
    obtain ⟨name, listed, given, found⟩ := leads
    have same : target.name = name := by simpa using List.find?_some found
    rw [if_pos polymorphic]
    exact ⟨name, listed, given, same ▸ worded target (Graph.mem_of_get? found)⟩
  · next single =>
    rw [if_neg single]
    exact leads.1

/-- An item has no messages if and only if it is one, where this is so of the nodes of its resource. -/
theorem isItem_iff (sound : relation.Sound graph resource)
    (worded : ∀ target ∈ graph.resources, ¬Text.isBlank target.name) {operation : Operation} {item : Json}
    (asBefore : ∀ target ∈ graph.resources, item.isObject →
      ((nodeRules target "").errors (answerTo graph levels) item = .ok [] ↔ IsNode graph target item)) :
    (relation.ItemMet (answerTo graph (levels + 1)) item ∧ (operation ≠ .create → IsKeyed graph relation item)) ↔
      IsItem graph relation operation item := by
  constructor
  · rintro ⟨met, keyed⟩
    obtain ⟨members, rfl⟩ := Json.isObject_iff.1 met.object
    obtain ⟨target?, asked, checked⟩ := relatedNode_eq_nil.1 met.node
    obtain ⟨target, declared, rfl, leads⟩ := leadsTo_of_itemMet sound met asked
    refine .node leads (fun linking => ?_) met.pivot ((asBefore target declared rfl).1 (checked target rfl))
    obtain ⟨same?, sameAsked, found⟩ := keyed linking
    obtain rfl := Except.ok.inj (asked.symm.trans sameAsked)
    exact found target rfl
  · rintro ⟨leads, keyed, joined, wellFormed⟩
    rename_i target
    have asked := relatedResource?_of_leadsTo leads
    have declared := mem_of_leadsTo leads
    obtain ⟨own, relations⟩ := id wellFormed
    refine ⟨⟨rfl, relatedNode_eq_nil.2 ⟨_, asked, ?_⟩, joined, tag_of_leadsTo worded leads⟩,
      fun linking => ⟨_, asked, ?_⟩⟩
    · rintro _ ⟨⟩
      exact (asBefore target declared rfl).2 wellFormed
    · rintro _ ⟨⟩
      exact keyed linking

/-- The operation of an entry has no messages if and only if it is one that the relation allows. -/
theorem isStated_iff (writable : relation.isMutable) {entry : Json} :
    (∀ value, entry.get? "operation" = some value →
      ∃ operation ∈ relation.kind.operations, value = .text operation.name) ↔
      ∃ operation : Operation, operation.IsStated entry ∧ relation.kind.allows operation := by
  constructor
  · intro named
    cases given : entry.get? "operation" with
    | none => exact ⟨.create, .inr ⟨given, rfl⟩, allows_create writable⟩
    | some value =>
      obtain ⟨operation, listed, rfl⟩ := named value given
      exact ⟨operation, .inl given, by simpa [Kind.allows] using listed⟩
  · rintro ⟨operation, stated | ⟨absent, -⟩, allowed⟩ value given
    · cases stated.symm.trans given
      exact ⟨operation, by simpa [Kind.allows] using allowed, rfl⟩
    · cases absent.symm.trans given

theorem name_mem_linking {operation : Operation} :
    operation.name ∈ ["attach", "detach", "sync"] ↔ operation ≠ .create := by
  cases operation <;> decide

/-- An entry has no messages if and only if it is one, where this is so of its items. -/
theorem isEntry_iff {name : String} {entry : Json} (declared : resource.relation? name = some relation)
    (asBefore : ∀ items, entry.get? "operations" = some (.list items) → ∀ item ∈ items, ∀ operation : Operation,
      (relation.ItemMet (answerTo graph (levels + 1)) item ∧ (operation ≠ .create → IsKeyed graph relation item)) ↔
        IsItem graph relation operation item) :
    relation.EntryMet (answerTo graph (levels + 1)) entry ↔ IsEntry graph resource name entry := by
  constructor
  · rintro ⟨writable, keys, named, items, listed, nonempty, single, met⟩
    obtain ⟨operation, stated, allowed⟩ := (isStated_iff writable).1 named
    obtain ⟨fields, rfl⟩ : ∃ fields : Members, entry = .object fields := by
      cases entry with
      | object fields => exact ⟨fields, rfl⟩
      | _ => cases listed
    simp only [answerTo] at keys
    refine .object declared writable stated allowed listed nonempty single fun item member => ?_
    refine (asBefore items listed item member operation).1 ⟨met item member, fun linking => ?_⟩
    exact missingKeys_eq_nil.1 keys _ _ stated.getD_eq listed (name_mem_linking.2 linking) item member
      (met item member).object
  · rintro ⟨declaredToo, writable, stated, allowed, listed, nonempty, single, each⟩
    obtain rfl := Option.some.inj (declared.symm.trans declaredToo)
    have met {item : Json} (member : item ∈ _) := (asBefore _ listed item member _).2 (each item member)
    refine ⟨writable, ?_, (isStated_iff writable).2 ⟨_, stated, allowed⟩, _, listed, nonempty, single,
      fun item member => (met member).1⟩
    simp only [answerTo]
    refine missingKeys_eq_nil.2 fun other items given listedToo linking item member _ => ?_
    obtain rfl := Json.text.inj (stated.getD_eq.symm.trans given)
    obtain rfl := Json.list.inj (Option.some.inj (listed.symm.trans listedToo))
    exact (met member).2 (name_mem_linking.1 linking)

/-- A node has no messages if and only if it is a node of the resource, asked so many levels deep as it has. -/
theorem isNode_iff (sound : graph.Sound) (named : graph.Addressable)
    (worded : ∀ target ∈ graph.resources, ¬Text.isBlank target.name) {node : Json}
    (declared : resource ∈ graph.resources) (object : node.isObject) (deep : node.depth ≤ levels) :
    resource.NodeMet (answerTo graph levels) node ↔ IsNode graph resource node := by
  induction levels generalizing resource node with
  | zero =>
    have := node.depth_pos
    omega
  | succ levels ih =>
    obtain ⟨members, rfl⟩ := Json.isObject_iff.1 object
    have asBefore {relation : Relation} (ofResource : relation ∈ resource.relations) {value entry : Json}
        (relations : (Json.object members).get? "relations" = some value)
        (found : value.get? relation.name = some entry) :
        relation.EntryMet (answerTo graph (levels + 1)) entry ↔ IsEntry graph resource relation.name entry := by
      have known := (sound resource declared).relation?_eq ofResource
      refine isEntry_iff known fun items listed item member operation => ?_
      have itemDeep := depth_item_lt relations found listed member
      refine isItem_iff ((sound resource declared).relations relation ofResource) worded fun target known isObject => ?_
      rw [errors_nodeRules answerTo_free (named target known) (sound target known).distinct]
      exact ih known isObject (by omega)
    constructor
    · rintro ⟨own, known, entries⟩
      refine .object (fillable_eq_nil.1 own members rfl) fun value relations => ?_
      obtain ⟨isObject, names⟩ := known value relations
      obtain ⟨written, rfl⟩ := Json.isObject_iff.1 isObject
      refine .object fun name entry found => ?_
      obtain ⟨relation, known⟩ := knownRelations_eq_nil.1 names written rfl name
        (List.mem_map_of_mem (Members.mem_of_get? found))
      obtain ⟨ofResource, rfl⟩ := Resource.mem_of_relation? known
      exact (asBefore ofResource relations found).1 (entries relation ofResource _ entry relations found)
    · rintro ⟨own, relations⟩
      refine ⟨fillable_eq_nil.2 ?_, fun value written => ?_, fun relation ofResource value entry written found => ?_⟩
      · rintro _ ⟨⟩
        exact own
      · obtain ⟨each⟩ := relations value written
        refine ⟨rfl, knownRelations_eq_nil.2 ?_⟩
        rintro _ ⟨⟩ name key
        obtain ⟨entry, found⟩ := Members.get?_of_mem_keys key
        obtain ⟨known⟩ := each name entry found
        exact ⟨_, known⟩
      · obtain ⟨each⟩ := relations value written
        exact (asBefore ofResource written found).2 (each _ entry found)

end Mutation

/-! ## Reading what is well-formed -/

theorem Entry.readEach_total {entries : Members} {before : List String}
    (each : ∀ name value, entries.get? name = some value → name ∉ before → ∃ entry, Entry.read value = done entry) :
    ∃ read, Entry.readEach before entries = done read := by
  induction entries generalizing before with
  | nil => exact ⟨[], rfl⟩
  | cons member rest ih =>
    obtain ⟨key, first⟩ := member
    have later (seen : List String) (known : key ∈ seen) (more : ∀ name ∈ before, name ∈ seen) :
        ∃ read, Entry.readEach seen rest = done read := by
      refine ih fun name value found fresh => each name value ?_ fun inside => fresh (more name inside)
      have different : (name == key) = false := beq_false_of_ne fun same => fresh (same ▸ known)
      rw [Members.get?, List.lookup_cons, different]
      exact found
    rw [Entry.readEach]
    by_cases seen : before.contains key
    · rw [if_pos seen]
      exact later before (by simpa using seen) fun _ inside => inside
    · rw [if_neg seen]
      obtain ⟨entry, here⟩ := each key first (by simp [Members.get?]) (by simpa using seen)
      obtain ⟨others, there⟩ := later (key :: before) List.mem_cons_self fun _ inside => List.mem_cons_of_mem _ inside
      exact ⟨(key, entry) :: others,
        seq_eq_done.2 ⟨_, map_eq_done.2 ⟨entry, below_eq_done.2 here, rfl⟩, others, there, rfl⟩⟩

theorem Node.readFrom_total {items : List Json} {position : Nat}
    (each : ∀ item ∈ items, ∃ node, Node.read item = done node) :
    ∃ nodes, Node.readFrom position items = done nodes := by
  induction items generalizing position with
  | nil => exact ⟨[], rfl⟩
  | cons item rest ih =>
    obtain ⟨here, later⟩ := List.forall_mem_cons.1 each
    obtain ⟨node, read⟩ := here
    obtain ⟨others, there⟩ := @ih (position + 1) later
    exact ⟨node :: others, seq_eq_done.2 ⟨_, map_eq_done.2 ⟨node, below_eq_done.2 read, rfl⟩, others, there, rfl⟩⟩

mutual
/-- A well-formed node is read, unless its join values or the resource it names are of the wrong type. -/
theorem IsNode.reads {graph : Graph} {resource : Resource} {node : Json} :
    IsNode graph resource node → (∀ value, node.get? "pivot" = some value → value.isObject) →
      (∀ value, node.get? "resource" = some value → value.isText) → ∃ read, Node.read node = done read
  | @IsNode.object _ _ members own relations, pivot, tag => by
    have ofRelations : ∃ entries, Node.readRelations members = done entries := by
      rw [Node.readRelations_eq]
      split
      · next value written =>
        obtain ⟨entries, read⟩ := (relations value written).reads
        exact ⟨entries, below_eq_done.2 read⟩
      · exact ⟨[], rfl⟩
    have ofPivot : ∃ joined, member members "pivot" [] anyObject = done joined := by
      unfold member
      split
      · next value given =>
        obtain ⟨joined, rfl⟩ := Json.isObject_iff.1 (pivot value given)
        exact ⟨joined, rfl⟩
      · exact ⟨[], rfl⟩
    have ofTag : ∃ name, member members "resource" none (optional text) = done name := by
      unfold member
      split
      · next value given =>
        have isText := tag value given
        cases value with
        | text name => exact ⟨some name, rfl⟩
        | _ => cases isText
      · exact ⟨none, rfl⟩
    obtain ⟨entries, readEntries⟩ := ofRelations
    obtain ⟨joined, readPivot⟩ := ofPivot
    obtain ⟨name, readTag⟩ := ofTag
    rw [Node.read, readEntries, readPivot, readTag]
    exact ⟨_, rfl⟩

theorem AreEntries.reads {graph : Graph} {resource : Resource} {value : Json} :
    AreEntries graph resource value → ∃ entries, Entry.readAll value = done entries
  | .object each => Entry.readEach_total fun name entry found _ => (each name entry found).reads

theorem IsEntry.reads {graph : Graph} {resource : Resource} {name : String} {value : Json} :
    IsEntry graph resource name value → ∃ entry, Entry.read value = done entry
  | @IsEntry.object _ _ _ _ fields _ _ _ _ stated _ listed _ _ each => by
    obtain ⟨nodes, readNodes⟩ := @Node.readFrom_total _ 0 fun item member => (each item member).reads
    have ofNodes : Entry.readNodes fields = done nodes := by
      rw [Entry.readNodes_eq, listed]
      exact below_eq_done.2 readNodes
    have ofOperation : ∃ operation, member fields "operation" .create
        (choice Operation.ofName? "'create', 'attach', 'detach' or 'sync'") = done operation := by
      rcases stated with given | ⟨absent, -⟩
      · exact ⟨_, member_eq_done.2 (.inl ⟨_, given, choice_eq_done.2 ⟨_, rfl, Mutation.ofName?_name _⟩⟩)⟩
      · exact ⟨_, member_eq_done.2 (.inr ⟨absent, rfl⟩)⟩
    obtain ⟨operation, readOperation⟩ := ofOperation
    rw [Entry.read, readOperation, ofNodes]
    exact ⟨_, rfl⟩

theorem IsItem.reads {graph : Graph} {relation : Relation} {operation : Operation} {item : Json} :
    IsItem graph relation operation item → ∃ node, Node.read item = done node
  | .node leads _ joined wellFormed => by
    refine wellFormed.reads (fun value given => ?_) fun value given => ?_
    · obtain ⟨-, members, rfl, -⟩ := joined value given
      rfl
    · unfold Relation.LeadsTo at leads
      split at leads
      · obtain ⟨name, -, named, -⟩ := leads
        cases named.symm.trans given
        rfl
      · cases leads.1.symm.trans given
end

namespace Mutation

/-- A mutation is validated if and only if its body lists at least one node, and all that it lists are well-formed nodes
of the resource that stand for themselves: they have no join values and do not name a resource. -/
theorem validates_iff_wellFormed {schema : Schema} {declarations : List ResourceDeclaration} {graph : Graph}
    (built : Graph.build schema declarations = .ok graph) (named : graph.Addressable)
    (worded : ∀ resource ∈ graph.resources, ¬Text.isBlank resource.name) {resource : Resource}
    (declared : resource ∈ graph.resources) (body : Json) :
    (∃ nodes, validate graph resource body = .ok nodes) ↔
      ∃ items, normalize body = .list items ∧ items ≠ [] ∧ ∀ item ∈ items,
        item.get? "pivot" = none ∧ item.get? "resource" = none ∧ IsNode graph resource item := by
  have sound := Graph.sound_of_build built
  have checked : errors graph (rules resource "mutate") (.object [("mutate", normalize body)]) = .ok [] ↔
      ∃ items, normalize body = .list items ∧ items ≠ [] ∧ ∀ item ∈ items,
        item.get? "pivot" = none ∧ item.get? "resource" = none ∧ IsNode graph resource item := by
    rw [errors, errors_rules answerTo_free (named resource declared) (sound resource declared).distinct]
    refine exists_congr fun items => and_congr_right fun listed => and_congr_right fun _ => ?_
    refine forall₂_congr fun item member => ?_
    have deep : item.depth ≤ (Json.object [("mutate", normalize body)]).depth := by
      have := Json.depth_le_depthItems member
      rw [listed]
      simp only [Json.depth, Json.depthMembers]
      omega
    constructor
    · rintro ⟨object, pivot, tag, met⟩
      exact ⟨pivot, tag, (isNode_iff sound named worded declared object deep).1 met⟩
    · rintro ⟨pivot, tag, wellFormed⟩
      have object : item.isObject := by
        obtain ⟨-, -⟩ := wellFormed
        rfl
      exact ⟨object, pivot, tag, (isNode_iff sound named worded declared object deep).2 wellFormed⟩
  rw [← checked]
  constructor
  · rintro ⟨nodes, accepted⟩
    unfold validate at accepted
    obtain ⟨found, none, after⟩ := bind_eq_ok.1 accepted
    cases found with
    | nil => exact none
    | cons message rest => cases after
  · intro none
    obtain ⟨items, listed, -, each⟩ := checked.1 none
    have read (item) (member : item ∈ items) :
        ∃ node, ((Node.read item).resultBelow "mutate").mapError Failure.asInvalid = .ok node := by
      obtain ⟨pivot, tag, wellFormed⟩ := each item member
      obtain ⟨node, given⟩ := wellFormed.reads (fun value given => by cases pivot.symm.trans given)
        fun value given => by cases tag.symm.trans given
      exact ⟨node, by rw [given]; rfl⟩
    obtain ⟨nodes, made⟩ := exists_forall₂ read
    refine ⟨nodes, ?_⟩
    rw [validate, none]
    simp only [listed]
    exact bind_eq_ok.2 ⟨[], rfl, mapM_eq_ok.2 made⟩

namespace Remarks

def table : Table where
  name := "remarks"
  columns := [⟨"id", .integer, true, false, .null⟩, ⟨"subject_id", .integer, false, true, .null⟩,
    ⟨"subject_type", .string, false, true, .null⟩]

def schema : Schema := { tables := [table] }

/-- Remarks on other ones, by a relation that could lead to records of any resource. -/
def declaration : ResourceDeclaration where
  name := "Remark"
  table := table
  options := [("fields", .list [.text "id"])]
  scopes := []
  relations := [
    { name := "subject", kind := .morphTo, targets := [.text "Remark"], foreignKey := .text "subject_id",
      morphType := some "subject_type" }]

def remark : Resource where
  name := "Remark"
  table := table
  key := "id"
  fields := ["id"]
  scopes := []
  limits := [.int 10, .int 25, .int 50]
  defaultLimit := .int 50
  defaultOrder := [("id", .desc)]
  relations := [⟨"subject", .morphTo, ["Remark"], .parent ⟨"subject_id", "id", some "subject_type"⟩⟩]
  fillable := []
  softDeletes := .bool false
  deletedAt := none
  morphAlias := .text "remarks"
  gates := true

/-- A remark on another one, which is there. -/
def body (subject : Members) : Json :=
  .object [("relations", .object [("subject",
    .object [("operation", .text "attach"), ("operations", .list [.object subject])])])]

def subject : Relation := ⟨"subject", .morphTo, ["Remark"], .parent ⟨"subject_id", "id", some "subject_type"⟩⟩

theorem isItem_named :
    IsItem ⟨[remark]⟩ subject .attach (.object [("id", .int 1), ("resource", .text "Remark")]) := by
  have leads : subject.LeadsTo ⟨[remark]⟩ (.object [("id", .int 1), ("resource", .text "Remark")]) remark := 
    ⟨"Remark", List.mem_singleton.2 rfl, rfl, rfl⟩
  refine .node leads (fun _ => ⟨.int 1, rfl, fun same => by cases same⟩) (fun _ pivot => by cases pivot) (.object (by decide) fun _ found => by cases found)

/-- A remark is attached to another one that it names in full; the key alone does not do. -/
theorem validates_named :
    (∃ nodes, validate ⟨[remark]⟩ remark (body [("id", .int 1), ("resource", .text "Remark")]) = .ok nodes) ∧
      ¬∃ nodes, validate ⟨[remark]⟩ remark (body [("id", .int 1)]) = .ok nodes := by
  have built : Graph.build schema [declaration] = .ok ⟨[remark]⟩ := rfl
  have accepts (body : Json) := validates_iff_wellFormed built (by decide) (by decide) List.mem_cons_self body
  rw [accepts, accepts]
  constructor
  · refine ⟨_, rfl, by simp, fun item member => ?_⟩
    obtain rfl := List.mem_singleton.1 member
    refine ⟨rfl, rfl, .object (by decide) fun value relations => ?_⟩
    cases relations
    refine .object fun name entry found => ?_
    by_cases same : name = "subject"
    · subst same
      cases found
      have stated : Operation.attach.IsStated (.object [("operation", .text "attach"),
          ("operations", .list [.object [("id", .int 1), ("resource", .text "Remark")]])]) := .inl rfl
      refine .object rfl rfl stated rfl rfl (by simp) (by simp) fun item member => ?_
      obtain rfl := List.mem_singleton.1 member
      exact isItem_named
    · rw [Members.get?, List.lookup_cons, beq_false_of_ne same] at found
      cases found
  · rintro ⟨_, ⟨⟩, -, each⟩
    obtain ⟨-, -, ⟨-, relations⟩⟩ := each _ List.mem_cons_self
    obtain ⟨each⟩ := relations _ rfl
    obtain ⟨declared, -, -, -, listed, -, -, items⟩ := each "subject" _ rfl
    cases declared
    cases listed
    obtain ⟨leads, -⟩ := items _ List.mem_cons_self
    obtain ⟨name, -, named, -⟩ := leads
    cases named

end Remarks

end Mutation

end ResourceApi
