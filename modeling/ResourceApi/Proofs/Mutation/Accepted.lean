import ResourceApi.Mutation.Execution
import ResourceApi.Mutation.Validation
import ResourceApi.Proofs.Mutation.Obeyed
import ResourceApi.Proofs.Mutation.Reading

/-!
What is known of nodes once a mutation is accepted: at every depth they write through declared relations that can be
written, by operations that the relations allow, and each node has a resource.
-/

namespace ResourceApi

open Outcome Reading RuleSet

mutual
/-- A node that writes only through what its resource offers. -/
def Node.Fits (graph : Graph) (resource : Resource) : Node → Prop
  | .mk _ _ _ relations => Entry.FitAll graph resource relations
termination_by structural node => node

/-- Each entry names a relation of the resource that can be written. -/
def Entry.FitAll (graph : Graph) (resource : Resource) : List (String × Entry) → Prop
  | [] => True
  | (name, entry) :: rest =>
    (∃ relation, resource.relation? name = some relation ∧ relation.isMutable ∧ entry.Fits graph relation) ∧
      Entry.FitAll graph resource rest
termination_by structural entries => entries

/-- The operation is one that the relation allows. -/
def Entry.Fits (graph : Graph) (relation : Relation) : Entry → Prop
  | .mk operation nodes => relation.kind.allows operation ∧ Node.FitAll graph relation nodes
termination_by structural entry => entry

/-- Each node has a resource behind the relation, and fits it. -/
def Node.FitAll (graph : Graph) (relation : Relation) : List Node → Prop
  | [] => True
  | node :: rest =>
    (∃ target, Mutation.targetOf graph relation node.resource = .ok target ∧ node.Fits graph target) ∧
      Node.FitAll graph relation rest
termination_by structural nodes => nodes
end

theorem Node.fitAll_of_each {graph : Graph} {relation : Relation} {nodes : List Node}
    (each : ∀ node ∈ nodes, ∃ target, Mutation.targetOf graph relation node.resource = .ok target ∧
      node.Fits graph target) : Node.FitAll graph relation nodes := by
  induction nodes with
  | nil => trivial
  | cons node rest ih =>
    obtain ⟨here, later⟩ := List.forall_mem_cons.1 each
    exact ⟨here, ih later⟩

theorem Entry.fitAll_of_each {graph : Graph} {resource : Resource} {entries : List (String × Entry)}
    (each : ∀ pair ∈ entries, ∃ relation, resource.relation? pair.1 = some relation ∧ relation.isMutable ∧
      pair.2.Fits graph relation) : Entry.FitAll graph resource entries := by
  induction entries with
  | nil => trivial
  | cons pair rest ih =>
    obtain ⟨here, later⟩ := List.forall_mem_cons.1 each
    exact ⟨here, ih later⟩

namespace Mutation

variable {graph : Graph} {resource : Resource} {relation : Relation}

theorem allows_create (writable : relation.isMutable) : relation.kind.allows .create := by
  change relation.kind.isMutable at writable
  revert writable
  cases relation.kind <;> decide

theorem ofName?_name (operation : Operation) : Operation.ofName? operation.name = some operation := by
  cases operation <;> decide

/-- The validation of a node and its writing find the same resource behind a relation. -/
theorem targetOf_of_relatedResource? (sound : ∀ name ∈ relation.targets, ∃ target, graph.get? name = some target)
    {item : Json} {target? : Option Resource} (asked : relatedResource? graph relation item = .ok target?)
    (tagged : relation.kind = .morphTo → ∃ name ∈ relation.targets, item.get? "resource" = some (.text name))
    {name? : Option String} (read : ∀ name, item.get? "resource" = some (.text name) → name? = some name) :
    ∃ target, target? = some target ∧ targetOf graph relation name? = .ok target ∧ target ∈ graph.resources := by
  unfold relatedResource? at asked
  unfold targetOf
  by_cases polymorphic : relation.kind = .morphTo
  · obtain ⟨name, listed, given⟩ := tagged polymorphic
    obtain ⟨target, found⟩ := sound name listed
    have member : relation.targets.contains name := by simpa using listed
    simp only [if_pos polymorphic, given, Option.bind_some, Json.text?, if_pos member, found, Except.ok.injEq] at asked
    refine ⟨target, asked.symm, ?_, Graph.mem_of_get? found⟩
    have chosen : (relation.targets.find? fun other => (Json.text name).isName [other]) = some name := by
      cases first : relation.targets.find? fun other => (Json.text name).isName [other] with
      | none =>
        have absent := List.find?_eq_none.1 first name listed
        simp [Json.isName] at absent
      | some other =>
        have same := List.find?_some first
        simp only [Json.isName, List.contains_cons, List.contains_nil, Bool.or_false, beq_iff_eq] at same
        rw [same]
    rw [if_pos polymorphic, read name given, Graph.taggedTarget, Json.ofText?]
    simp only [chosen, found]
  · rw [if_neg polymorphic] at asked ⊢
    obtain ⟨target, leads, rfl⟩ := map_eq_ok.1 asked
    exact ⟨target, rfl, leads, Graph.mem_of_target leads⟩

theorem knownAnswer {levels : Nat} {entries : Members} {place : String}
    (none : answerTo graph levels (.knownRelations resource) (.object entries) place = .ok []) :
    ∀ entry ∈ entries, (resource.relation? entry.1).isSome := by
  intro entry member
  simp only [answerTo, Except.ok.injEq, List.map_eq_nil_iff, List.filter_eq_nil_iff] at none
  simpa [Option.isSome_iff_ne_none] using none entry member

/-- The values below an entry of a node are less deep than the node. -/
private theorem depth_lt {members entries fields : Members} {name : String} {items : List Json} {item : Json}
    (relations : members.get? "relations" = some (.object entries)) (found : entries.get? name = some (.object fields))
    (listed : fields.get? "operations" = some (.list items)) (member : item ∈ items) :
    item.depth < (Json.object members).depth := by
  have inNode := Json.depth_le_depthMembers (Members.mem_of_get? relations)
  have inRelations := Json.depth_le_depthMembers (Members.mem_of_get? found)
  have inEntry := Json.depth_le_depthMembers (Members.mem_of_get? listed)
  have inItems := Json.depth_le_depthItems member
  simp only [Json.depth] at inNode inRelations inEntry ⊢
  omega

/-- The rules of a resource for a node without messages. -/
theorem obeyed_of_nodeRules (sound : resource.Sound graph) (named : resource.Addressable) {answer : GraphRule.Answer}
    {node : Json} {path : String} (none : (nodeRules resource "").errorsAt answer node path = .ok []) :
    resource.Obeyed answer node := by
  have plain : ∀ relation ∈ resource.relations, Path.IsPlain relation.name := fun relation declared =>
    (named relation declared).1
  rw [nodeRules_eq plain sound.distinct] at none
  refine Resource.obeyed_of_errors (errors_of_errorsAt none) (Attribute.reaches_whole node) named ?_ ?_
  · exact List.mem_cons_of_mem _ List.mem_cons_self
  · exact fun entry member => List.mem_cons_of_mem _ (List.mem_cons_of_mem _ member)

/-- The operation that was read is the one that was stated, or the usual one. -/
private theorem operation_of_read {fields : Members} {operation : Operation}
    (read : member fields "operation" .create (choice Operation.ofName? "'create', 'attach', 'detach' or 'sync'") =
      done operation)
    (writable : relation.isMutable)
    (allowed : ∀ value, Members.get? fields "operation" = some value →
      ∃ operation ∈ relation.kind.operations, value = .text operation.name) : relation.kind.allows operation := by
  rcases member_eq_done.1 read with ⟨value, stated, given⟩ | ⟨-, rfl⟩
  · obtain ⟨other, listed, rfl⟩ := allowed value stated
    obtain ⟨name, same, found⟩ := choice_eq_done.1 given
    cases same
    rw [ofName?_name, Option.some.injEq] at found
    subst found
    simpa [Kind.allows] using listed
  · exact allows_create writable

/-- The resource that a node names was read from it. -/
private theorem tag_of_read {item : Json} {node : Node} (read : Node.read item = done node) (name : String)
    (given : item.get? "resource" = some (.text name)) : node.resource = some name := by
  obtain ⟨members, rfl, -, tagRead⟩ := Node.read_eq_done read
  rcases member_eq_done.1 tagRead with ⟨value, found, readValue⟩ | ⟨absent, -⟩
  · have isText : value = .text name := Option.some.inj (found.symm.trans given)
    subst isText
    rcases optional_eq_done readValue with ⟨isNull, -⟩ | ⟨text, readText, is⟩
    · cases isNull
    · rw [is, ← Json.text.inj (text_eq_done.1 readText)]
  · rw [show Members.get? members "resource" = _ from given] at absent
    cases absent

/-- The nodes of an entry that keeps to the rules of its relation have resources, whose rules they keep to. -/
private theorem targets_of_obeyed (sound : graph.Sound) (named : graph.Addressable) {levels : Nat}
    (relationSound : relation.Sound graph resource) {entry : Json}
    (obeyed : relation.Obeyed (answerTo graph (levels + 1)) entry) {items : List Json}
    (listed : entry.get? "operations" = some (.list items)) {item : Json} (member : item ∈ items) {tag : Option String}
    (read : ∀ name, item.get? "resource" = some (.text name) → tag = some name) :
    ∃ inner, item = .object inner ∧ ∃ target ∈ graph.resources, targetOf graph relation tag = .ok target ∧
      target.Obeyed (answerTo graph levels) item := by
  obtain ⟨same, sameListed, each⟩ := obeyed.items
  obtain rfl : items = same := Json.list.inj (Option.some.inj (listed.symm.trans sameListed))
  obtain ⟨isObject, ⟨place, answered⟩, tagged⟩ := each item member
  obtain ⟨inner, rfl⟩ := Json.isObject_iff.1 isObject
  simp only [answerTo, bind_eq_ok] at answered
  obtain ⟨target?, asked, checked⟩ := answered
  obtain ⟨target, rfl, leads, declared⟩ := targetOf_of_relatedResource? relationSound.targets asked tagged read
  exact ⟨inner, rfl, target, declared, leads, obeyed_of_nodeRules (sound target declared) (named target declared) checked⟩

/-- A node that keeps to the rules of its resource, asked so many levels deep as it has, fits the resource. -/
theorem fits_of_obeyed (sound : graph.Sound) (named : graph.Addressable) {levels : Nat} {members : Members} {node : Node}
    (declared : resource ∈ graph.resources) (deep : (Json.object members).depth ≤ levels)
    (obeyed : resource.Obeyed (answerTo graph levels) (.object members))
    (read : Node.read (.object members) = done node) : node.Fits graph resource := by
  induction levels generalizing resource members node with
  | zero =>
    have := Json.depth_pos (.object members)
    omega
  | succ levels ih =>
    obtain ⟨attributes, pivot, tag, relations⟩ := node
    refine Entry.fitAll_of_each fun pair member => ?_
    rcases Node.relations_of_read read with ⟨entries, found, readEntries⟩ | ⟨-, empty⟩
    · obtain ⟨name, operation, nodes⟩ := pair
      obtain ⟨-, value, here, readEntry⟩ := (Entry.readEach_eq_done readEntries).1 _ member
      obtain ⟨place, none⟩ := obeyed.known _ found
      obtain ⟨relation, known⟩ := Option.isSome_iff_exists.1 (knownAnswer none _ (Members.mem_of_get? here))
      obtain ⟨ofResource, sameName⟩ := Resource.mem_of_relation? known
      have entryFound : (Json.object entries).get? relation.name = some value := by
        rw [sameName]
        exact here
      have entryObeyed := obeyed.entries _ found relation ofResource value entryFound
      obtain ⟨fields, rfl, operationRead, nodesRead⟩ := Entry.read_eq_done readEntry
      have allowed := operation_of_read operationRead entryObeyed.writable entryObeyed.operation
      refine ⟨relation, known, entryObeyed.writable, allowed, Node.fitAll_of_each fun below belowMember => ?_⟩
      rcases nodesRead with ⟨items, listed, pointwise⟩ | ⟨-, empty⟩
      · obtain ⟨item, itemMember, readItem⟩ := forall₂_mem_right pointwise belowMember
        have itemDeep := depth_lt found here listed itemMember
        have relationSound := (sound resource declared).relations relation ofResource
        obtain ⟨inner, rfl, target, targetDeclared, leads, itemObeyed⟩ :=
          targets_of_obeyed sound named relationSound entryObeyed listed itemMember (tag_of_read readItem)
        exact ⟨target, leads, ih targetDeclared (by omega) itemObeyed readItem⟩
      · change nodes = [] at empty
        rw [empty] at belowMember
        cases belowMember
    · change relations = [] at empty
      rw [empty] at member
      cases member

/-- A node that names a derived relation, itself or in a node that it writes through another relation. -/
inductive Touches (graph : Graph) : Resource → Json → Prop where
  | direct {resource : Resource} {relation : Relation} {node value entry : Json} (declared : relation ∈ resource.relations)
      (derived : relation.kind.linkPlace = .through) (relations : node.get? "relations" = some value)
      (found : value.get? relation.name = some entry) : Touches graph resource node
  | nested {resource target : Resource} {relation : Relation} {node value entry item : Json} {items : List Json}
      (declared : relation ∈ resource.relations) (relations : node.get? "relations" = some value)
      (found : value.get? relation.name = some entry) (listed : entry.get? "operations" = some (.list items))
      (member : item ∈ items)
      (leads : targetOf graph relation ((item.get? "resource").bind Json.text?) = .ok target)
      (touches : Touches graph target item) : Touches graph resource node

theorem depth_item_lt {node value entry item : Json} {name : String} {items : List Json}
    (relations : node.get? "relations" = some value) (found : value.get? name = some entry)
    (listed : entry.get? "operations" = some (.list items)) (member : item ∈ items) : item.depth < node.depth := by
  cases node with
  | object members =>
    cases value with
    | object entries =>
      cases entry with
      | object fields => exact depth_lt relations found listed member
      | _ => cases listed
    | _ => cases found
  | _ => cases relations

private theorem text_of_given (item : Json) (name : String) (given : item.get? "resource" = some (.text name)) :
    (item.get? "resource").bind Json.text? = some name := by
  rw [given]
  rfl

/-- A node that keeps to the rules of its resource names no derived relation, at any depth. -/
theorem not_touches_of_obeyed (sound : graph.Sound) (named : graph.Addressable) {levels : Nat} {node : Json}
    (declared : resource ∈ graph.resources) (deep : node.depth ≤ levels)
    (obeyed : resource.Obeyed (answerTo graph levels) node) : ¬Touches graph resource node := by
  intro touches
  induction touches generalizing levels with
  | direct ofResource derived relations found =>
    have writable := (obeyed.entries _ relations _ ofResource _ found).writable
    rw [Relation.isMutable, Kind.isMutable, derived] at writable
    cases writable
  | nested ofResource relations found listed member leads touches ih =>
    have itemDeep := depth_item_lt relations found listed member
    obtain ⟨fewer, rfl⟩ : ∃ fewer, levels = fewer + 1 := ⟨levels - 1, by omega⟩
    have entryObeyed := obeyed.entries _ relations _ ofResource _ found
    have relationSound := (sound _ declared).relations _ ofResource
    obtain ⟨-, -, target, targetDeclared, targetLeads, itemObeyed⟩ :=
      targets_of_obeyed sound named relationSound entryObeyed listed member (text_of_given _)
    obtain rfl := Except.ok.inj (leads.symm.trans targetLeads)
    exact ih targetDeclared (by omega) itemObeyed

/-- Each node of a mutation that is validated keeps to the rules of the resource. -/
private theorem obeyed_of_validate (sound : graph.Sound) (named : graph.Addressable) (declared : resource ∈ graph.resources)
    {body : Json} {nodes : List Node} (accepted : validate graph resource body = .ok nodes) :
    ∃ items, normalize body = .list items ∧ List.Forall₂ (fun item node => Node.read item = done node) items nodes ∧
      ∃ levels, ∀ item ∈ items, item.depth ≤ levels ∧ resource.Obeyed (answerTo graph levels) item := by
  unfold validate at accepted
  obtain ⟨found, none, after⟩ := bind_eq_ok.1 accepted
  cases found with
  | cons message rest => cases after
  | nil =>
    cases listed : normalize body with
    | list items =>
      simp only [listed] at none after
      refine ⟨items, rfl, (mapM_eq_ok.1 after).imp fun item node given => ?_,
        (Json.object [("mutate", .list items)]).depth, fun item member => ⟨?_, ?_⟩⟩
      · cases outcome : (Node.read item).resultBelow "mutate" with
        | error failure =>
          rw [outcome] at given
          cases given
        | ok result =>
          rw [outcome] at given
          cases given
          exact below_eq_done.1 (result_eq_ok.1 outcome)
      · have := Json.depth_le_depthItems member
        simp only [Json.depth, Json.depthMembers]
        omega
      · have plain : ∀ relation ∈ resource.relations, Path.IsPlain relation.name := fun relation ofResource =>
          (named resource declared relation ofResource).1
        rw [errors, rules_eq plain (sound resource declared).distinct] at none
        exact Resource.obeyed_of_errors none (Attribute.reaches_item (by decide) member) (named resource declared)
          (by simp [Path.under]) fun entry inside => List.mem_append_right _ inside
    | _ =>
      simp only [listed] at after
      cases after

/-- Every node of a mutation that is validated fits its resource, at every depth. -/
theorem fits_of_validate (sound : graph.Sound) (named : graph.Addressable) (declared : resource ∈ graph.resources)
    {body : Json} {nodes : List Node} (accepted : validate graph resource body = .ok nodes) :
    ∀ node ∈ nodes, node.Fits graph resource := by
  obtain ⟨items, -, pointwise, levels, obeyed⟩ := obeyed_of_validate sound named declared accepted
  intro node member
  obtain ⟨item, itemMember, read⟩ := forall₂_mem_right pointwise member
  obtain ⟨deep, itemObeyed⟩ := obeyed item itemMember
  obtain ⟨members, rfl, -⟩ := Node.read_eq_done read
  exact fits_of_obeyed sound named declared deep itemObeyed read

/-- A mutation is not validated if one of its nodes names a derived relation anywhere. -/
theorem validate_of_touches (sound : graph.Sound) (named : graph.Addressable) (declared : resource ∈ graph.resources)
    {body item : Json} {items : List Json} (listed : normalize body = .list items) (member : item ∈ items)
    (touches : Touches graph resource item) : ∃ failure, validate graph resource body = .error failure := by
  cases outcome : validate graph resource body with
  | error failure => exact ⟨failure, rfl⟩
  | ok nodes =>
    obtain ⟨same, sameListed, -, levels, obeyed⟩ := obeyed_of_validate sound named declared outcome
    obtain rfl := Json.list.inj (listed.symm.trans sameListed)
    obtain ⟨deep, itemObeyed⟩ := obeyed item member
    exact absurd touches (not_touches_of_obeyed sound named declared deep itemObeyed)

end Mutation

end ResourceApi
