import ResourceApi.Mutation.Reader
import ResourceApi.Proofs.Json.Members
import ResourceApi.Proofs.Json.Reading

/-!
Nodes that were read, taken apart: which members of a document their parts come from.
-/

namespace ResourceApi

open Reading

namespace Node

theorem readRelations_eq (members : Members) :
    readRelations members = match members.get? "relations" with
      | some value => (Entry.readAll value).below "relations"
      | none => done [] := by
  induction members with
  | nil => rfl
  | cons entry rest ih =>
    obtain ⟨key, value⟩ := entry
    rw [readRelations, ih, Members.get?, Members.get?, List.lookup_cons]
    by_cases here : key = "relations"
    · simp [here]
    · have different : ("relations" == key) = false := by simpa using Ne.symm here
      rw [if_neg here, different]

theorem readFrom_eq_done {position : Nat} {items : List Json} {nodes : List Node}
    (success : readFrom position items = done nodes) :
    List.Forall₂ (fun item node => read item = done node) items nodes := by
  induction items generalizing position nodes with
  | nil =>
    cases success
    exact .nil
  | cons item rest ih =>
    simp only [readFrom, seq_eq_done, map_eq_done, below_eq_done] at success
    obtain ⟨_, ⟨node, here, rfl⟩, others, later, rfl⟩ := success
    exact .cons here (ih later)

end Node

namespace Entry

theorem readNodes_eq (members : Members) :
    readNodes members = match members.get? "operations" with
      | some value => (Node.readAll value).below "operations"
      | none => done [] := by
  induction members with
  | nil => rfl
  | cons entry rest ih =>
    obtain ⟨key, value⟩ := entry
    rw [readNodes, ih, Members.get?, Members.get?, List.lookup_cons]
    by_cases here : key = "operations"
    · simp [here]
    · have different : ("operations" == key) = false := by simpa using Ne.symm here
      rw [if_neg here, different]

/-- Entries are read from the first values of their names. -/
theorem readEach_eq_done {before : List String} {members : Members} {entries : List (String × Entry)}
    (success : readEach before members = done entries) :
    (∀ pair ∈ entries, pair.1 ∉ before ∧ ∃ value, members.get? pair.1 = some value ∧ read value = done pair.2) ∧
      ∀ name value, members.get? name = some value → name ∉ before →
        ∃ entry, (name, entry) ∈ entries ∧ read value = done entry := by
  induction members generalizing before entries with
  | nil =>
    cases success
    exact ⟨List.forall_mem_nil _, fun name value found => by cases found⟩
  | cons member rest ih =>
    obtain ⟨key, first⟩ := member
    have other {name : String} (different : name ≠ key) : Members.get? ((key, first) :: rest) name = Members.get? rest name := by
      rw [Members.get?, Members.get?, List.lookup_cons, beq_false_of_ne different]
    have same : Members.get? ((key, first) :: rest) key = some first := by
      rw [Members.get?, List.lookup_cons, beq_self_eq_true]
    rw [readEach] at success
    by_cases seen : before.contains key
    · rw [if_pos seen] at success
      have known : key ∈ before := by simpa using seen
      obtain ⟨each, all⟩ := ih success
      refine ⟨fun pair inside => ?_, fun name value found fresh => ?_⟩
      · obtain ⟨fresh, value, found, given⟩ := each pair inside
        have different : pair.1 ≠ key := fun equal => fresh (equal ▸ known)
        exact ⟨fresh, value, (other different).trans found, given⟩
      · have different : name ≠ key := fun equal => fresh (equal ▸ known)
        exact all name value ((other different).symm.trans found) fresh
    · rw [if_neg seen] at success
      have fresh : key ∉ before := by simpa using seen
      simp only [seq_eq_done, map_eq_done, below_eq_done] at success
      obtain ⟨_, ⟨entry, here, rfl⟩, others, later, rfl⟩ := success
      obtain ⟨each, all⟩ := ih later
      refine ⟨fun pair inside => ?_, fun name value found unseen => ?_⟩
      · rcases List.mem_cons.1 inside with rfl | further
        · exact ⟨fresh, first, same, here⟩
        · obtain ⟨notBefore, value, found, given⟩ := each pair further
          obtain ⟨different, unseen⟩ := not_or.1 (fun either => notBefore (List.mem_cons.2 either))
          exact ⟨unseen, value, (other different).trans found, given⟩
      · by_cases equal : name = key
        · subst equal
          rw [same] at found
          cases found
          exact ⟨entry, List.mem_cons_self, here⟩
        · obtain ⟨entry, inside, given⟩ := all name value ((other equal).symm.trans found)
            (fun known => (List.mem_cons.1 known).elim equal unseen)
          exact ⟨entry, List.mem_cons_of_mem _ inside, given⟩

end Entry

/-- What was read of a node's relations and of its resource. -/
theorem Node.read_eq_done {value : Json} {node : Node} (success : Node.read value = done node) :
    ∃ members, value = .object members ∧ Node.readRelations members = done node.relations ∧
      member members "resource" none (optional text) = done node.resource := by
  cases value with
  | object members =>
    simp only [Node.read, seq_eq_done, map_eq_done] at success
    obtain ⟨_, ⟨_, ⟨relations, relationsRead, rfl⟩, pivot, -, rfl⟩, resource, resourceRead, rfl⟩ := success
    exact ⟨members, rfl, relationsRead, resourceRead⟩
  | _ => cases success

/-- The entries of a node were read from its member for relations. -/
theorem Node.relations_of_read {members : Members} {node : Node} (success : Node.read (.object members) = done node) :
    (∃ entries, members.get? "relations" = some (.object entries) ∧ Entry.readEach [] entries = done node.relations) ∨
      members.get? "relations" = none ∧ node.relations = [] := by
  obtain ⟨_, same, relationsRead, -⟩ := Node.read_eq_done success
  cases same
  rw [Node.readRelations_eq] at relationsRead
  cases found : members.get? "relations" with
  | none =>
    rw [found] at relationsRead
    exact .inr ⟨rfl, (Reading.done.inj relationsRead).symm⟩
  | some value =>
    rw [found] at relationsRead
    have all := below_eq_done.1 relationsRead
    cases value with
    | object entries => exact .inl ⟨entries, rfl, all⟩
    | _ => cases all

/-- The nodes of an entry were read from its member for them. -/
theorem Entry.read_eq_done {value : Json} {entry : Entry} (success : Entry.read value = done entry) :
    ∃ fields, value = .object fields ∧
      member fields "operation" .create (choice Operation.ofName? "'create', 'attach', 'detach' or 'sync'") =
        done entry.operation ∧
      ((∃ items, Members.get? fields "operations" = some (.list items) ∧
        List.Forall₂ (fun item node => Node.read item = done node) items entry.nodes) ∨
        Members.get? fields "operations" = none ∧ entry.nodes = []) := by
  cases value with
  | object fields =>
    simp only [Entry.read, seq_eq_done, map_eq_done] at success
    obtain ⟨_, ⟨operation, operationRead, rfl⟩, nodes, nodesRead, rfl⟩ := success
    refine ⟨fields, rfl, operationRead, ?_⟩
    rw [Entry.readNodes_eq] at nodesRead
    cases found : Members.get? fields "operations" with
    | none =>
      rw [found] at nodesRead
      exact .inr ⟨rfl, (Reading.done.inj nodesRead).symm⟩
    | some value =>
      rw [found] at nodesRead
      have all := below_eq_done.1 nodesRead
      cases value with
      | list items => exact .inl ⟨items, rfl, Node.readFrom_eq_done all⟩
      | _ => cases all
  | _ => cases success

end ResourceApi
