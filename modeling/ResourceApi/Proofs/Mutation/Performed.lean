import ResourceApi.Proofs.Mutation.Accepted
import ResourceApi.Proofs.Resource.Paths
import ResourceApi.Proofs.Session.Records
import ResourceApi.Session.Operations

/-!
Writing nodes that fit. What is written through a relation was checked by the rules of the same resource, node by node, so
writing never meets a relation or an operation that it does not know.
-/

namespace ResourceApi

open Job

/-- Failures of requests that break the rules, or ask for writes that there are not. -/
def Failure.IsStructural : Failure → Prop
  | .invalid _ | .unreadable _ | .unsupported _ => True
  | _ => False

theorem Failure.isStructural_ofRequests : Failure.OfRequests Failure.IsStructural :=
  ⟨⟨fun _ => id, fun _ => id⟩, fun _ _ => id, fun _ _ => id⟩

namespace Mutation

section Performing

variable {p : Failure → Prop} (foreign : Failure.OfRequests p) {context : Context}

/-! ### Single records -/

theorem resultOf_never (resource : Resource) (number : Nat) (operation : String)
    (relations : List (String × List WriteResult)) : Never p (resultOf resource number operation relations) :=
  (record_never number).bind fun _ => Never.pure _

theorem replace_never (start : Nat) (old : Option Nat) (new : Nat) : Never p (replace start old new) := by
  unfold replace
  split
  · exact Never.ite (fun _ => Never.modify _) fun _ => Never.pure _
  · exact Never.pure _

include foreign

theorem findLinked_never (target : Resource) (node : Node) (operation : Operation) :
    Never p (findLinked context target node operation) :=
  (find_never foreign _ _ _).bind fun _ => (keyOf_never _ _).bind fun _ =>
    (authorize_never foreign _ _ _ _).bind fun _ => Never.pure _

theorem dropStale_never (target : Resource) (rows : JoinRows) (stale : List Value) (start : Nat) :
    Never p (dropStale context target rows stale start) := by
  refine Never.ite (fun _ => Never.pure _) fun _ => ?_
  refine (Never.forIn (fun key last => ?_) _).bind fun _ => rows.remove_never foreign.toOfStorage _
  refine (find_never foreign _ _ _).bind fun number => (replace_never _ _ _).bind fun _ => ?_
  exact (keyOf_never _ _).bind fun _ => (authorize_never foreign _ _ _ _).bind fun _ => Never.pure _

theorem syncNodes_never (target : Resource) (rows : JoinRows) (start : Nat) (nodes : List Node)
    (existing desired : List Value) (last : Option Nat) :
    Never p (syncNodes context target rows start existing nodes desired last) := by
  induction nodes generalizing existing desired last with
  | nil => exact Never.get.bind fun _ => (dropStale_never foreign _ _ _ _).bind fun _ => Never.pure _
  | cons node rest ih =>
    refine (findLinked_never foreign _ _ _).bind fun number => (replace_never _ _ _).bind fun _ => ?_
    refine (record_never _).bind fun record => ?_
    have later (existing desired : List Value) (last : Option Nat) : Never p (do
        let result ← resultOf target number "sync" []
        return result :: (← syncNodes context target rows start existing rest desired last)) :=
      (resultOf_never _ _ _ _).bind fun _ => (ih _ _ _).bind fun _ => Never.pure _
    refine Never.ite (fun known => Never.ite (fun _ => ?_) fun _ => ?_) fun unknown => ?_
    · exact (rows.change_never foreign.toOfStorage _ _).bind fun _ => later _ _ _
    · exact (Never.pure _).bind fun _ => later _ _ _
    · exact (rows.add_never foreign.toOfStorage _ _).bind fun _ => later _ _ _

/-! ### Trees of nodes -/

set_option linter.unusedSectionVars false

variable (sound : context.graph.Sound)
include sound

omit foreign sound in
/-- What a node that fits names can be written. -/
theorem checkRelations_eq_ok {resource : Resource} {entries : List (String × Entry)}
    (fits : Entry.FitAll context.graph resource entries) : checkRelations resource (entries.map (·.1)) = .ok () := by
  induction entries with
  | nil => rfl
  | cons entry rest ih =>
    obtain ⟨⟨relation, known, writable, -⟩, later⟩ := fits
    have here : checkRelations resource ((entry :: rest).map (·.1)) =
        checkRelations resource (rest.map (·.1)) := by
      simp only [checkRelations, List.map_cons, List.forM_eq_forM, List.forM_cons, known, if_pos writable]
      rfl
    rw [here]
    exact ih later

omit foreign sound in
theorem mem_of_targetOf {graph : Graph} {relation : Relation} {tag : Option String} {target : Resource}
    (leads : targetOf graph relation tag = .ok target) : target ∈ graph.resources := by
  unfold targetOf at leads
  split at leads
  · unfold Graph.taggedTarget at leads
    dsimp only at leads
    split at leads
    · cases leads
    · split at leads
      · next found =>
        cases leads
        exact Graph.mem_of_get? found
      · cases leads
  · exact Graph.mem_of_target leads

mutual
theorem writeNode_never {resource : Resource} (declared : resource ∈ context.graph.resources) (link : Values) :
    ∀ node : Node, node.Fits context.graph resource → Never p (writeNode context resource link node)
  | .mk attributes pivot tag relations, fits => by
    have checked := checkRelations_eq_ok fits
    rw [writeNode, checked]
    refine (Never.of (Outcome.Never.ok ())).bind fun _ => Never.get.bind fun work => ?_
    have entries (number : Nat) (kept : Bool) : Never p (writeEntries context resource number kept relations) :=
      writeEntries_never declared number kept relations fits
    have written (number : Nat) : Never p (do
        let before ← writeEntries context resource number true relations
        let given := resource.fillable.filterMap fun name =>
          (Members.get? attributes name).map fun j => (name, Value.plain j)
        setValues number (given ++ link)
        flush number
        let after ← writeEntries context resource number false relations
        let result ← resultOf resource number
          (if ((Members.get? attributes resource.key).getD .null).isNull then "create" else "update") (before ++ after)
        releaseFrom work.next
        return result) := by
      refine (entries _ _).bind fun _ => (setValues_never _ _).bind fun _ => (flush_never foreign.toOfStorage _).bind fun _ => ?_
      exact (entries _ _).bind fun _ => (resultOf_never _ _ _ _).bind fun _ => (Never.modify _).bind fun _ => Never.pure _
    refine Never.ite (fun _ => ?_) fun _ => ?_
    · refine (authorize_never foreign _ _ _ _).bind fun _ => ?_
      exact (Never.modifyGet _).bind written
    · refine (find_never foreign _ _ _).bind fun number => (keyOf_never _ _).bind fun _ => ?_
      exact (authorize_never foreign _ _ _ _).bind fun _ => (Never.pure _).bind written

theorem writeEntries_never {resource : Resource} (declared : resource ∈ context.graph.resources) (number : Nat)
    (kept : Bool) : ∀ entries : List (String × Entry), Entry.FitAll context.graph resource entries →
      Never p (writeEntries context resource number kept entries)
  | [], _ => Never.pure []
  | (name, entry) :: rest, ⟨⟨relation, known, writable, fits⟩, later⟩ => by
    have others := writeEntries_never declared number kept rest later
    rw [writeEntries, known]
    refine Never.ite (fun _ => ?_) fun _ => others
    exact (writeEntry_never declared number (Resource.mem_of_relation? known).1 writable entry fits).bind fun _ =>
      others.bind fun _ => Never.pure _

theorem writeEntry_never {resource : Resource} (declared : resource ∈ context.graph.resources) (number : Nat)
    {relation : Relation} (ofResource : relation ∈ resource.relations) (writable : relation.isMutable) :
    ∀ entry : Entry, entry.Fits context.graph relation → Never p (writeEntry context resource number relation entry)
  | .mk operation nodes, ⟨allowed, fits⟩ => by
    have placed := ((sound resource declared).relations relation ofResource).placed
    have only (single : relation.kind ≠ .morphTo) {target : Resource} (leads : context.graph.target relation = .ok target)
        (tag : Option String) (found : Resource) (same : targetOf context.graph relation tag = .ok found) :
        found = target := by
      rw [targetOf, if_neg single, leads] at same
      exact (Except.ok.inj same).symm
    rw [writeEntry]
    simp only [allowed, Bool.not_true, Bool.false_eq_true, if_false]
    refine Never.get.bind fun work => ?_
    have released (results : List WriteResult) : Never p (do
        releaseFrom work.next
        return results) := (Never.modify _).bind fun _ => Never.pure _
    split
    · exact (writeParents_never number relation _ operation _ nodes none fits).bind released
    · next link stored =>
      refine Never.of_bind (Graph.target_never foreign.fault relation) fun target leads => ?_
      have single : relation.kind ≠ .morphTo := by
        intro same
        rw [stored, same] at placed
        cases placed
      refine (record_never number).bind fun record => ?_
      exact (writeChildren_never (Graph.mem_of_target leads) (only single leads) _ operation _ nodes none fits).bind
        released
    · next link stored =>
      refine Never.of_bind (Graph.target_never foreign.fault relation) fun target leads => ?_
      have single : relation.kind ≠ .morphTo := by
        intro same
        rw [stored, same] at placed
        cases placed
      refine (record_never number).bind fun record => Never.ite (fun _ => ?_) fun _ => ?_
      · refine (JoinRows.relatedKeys_never foreign.toOfStorage _).bind fun existing => ?_
        exact (syncNodes_never foreign target _ _ nodes existing [] none).bind released
      · exact (writeJoined_never (Graph.mem_of_target leads) (only single leads) _ operation _ nodes none fits).bind
          released
    · next link derived =>
      rw [derived] at placed
      rw [Relation.isMutable, Kind.isMutable, ← placed] at writable
      cases writable

theorem writeParents_never (number : Nat) (relation : Relation) (link : ParentLink) (operation : Operation)
    (start : Nat) : ∀ (nodes : List Node) (last : Option Nat), Node.FitAll context.graph relation nodes →
      Never p (writeParents context number relation link operation start last nodes)
  | [], _, _ => Never.pure []
  | node :: rest, last, ⟨⟨target, leads, fits⟩, later⟩ => by
    have others (last : Option Nat) := writeParents_never number relation link operation start rest last later
    rw [writeParents]
    refine Never.of_bind (Outcome.Never.of_eq_ok leads) fun found same => ?_
    obtain rfl := Except.ok.inj (leads.symm.trans same)
    refine Never.ite (fun _ => ?_) fun _ => ?_
    · refine (writeNode_never (mem_of_targetOf leads) [] node fits).bind fun _ => (setValues_never _ _).bind fun _ => ?_
      exact (others _).bind fun _ => Never.pure _
    · refine (findLinked_never foreign _ _ _).bind fun _ => (replace_never _ _ _).bind fun _ => ?_
      refine (record_never _).bind fun _ => (resultOf_never _ _ _ _).bind fun _ => ?_
      exact (setValues_never _ _).bind fun _ => (others _).bind fun _ => Never.pure _

theorem writeChildren_never {relation : Relation} {target : Resource} (declared : target ∈ context.graph.resources)
    (only : ∀ tag found, targetOf context.graph relation tag = .ok found → found = target) (values : Values)
    (operation : Operation) (start : Nat) : ∀ (nodes : List Node) (last : Option Nat),
      Node.FitAll context.graph relation nodes →
        Never p (writeChildren context target values operation start last nodes)
  | [], _, _ => Never.pure []
  | node :: rest, last, ⟨⟨found, leads, fits⟩, later⟩ => by
    obtain rfl := only _ _ leads
    have others (last : Option Nat) := writeChildren_never declared only values operation start rest last later
    rw [writeChildren]
    refine Never.ite (fun _ => ?_) fun _ => ?_
    · exact (writeNode_never declared values node fits).bind fun _ => (others _).bind fun _ => Never.pure _
    · refine (findLinked_never foreign _ _ _).bind fun _ => (replace_never _ _ _).bind fun _ => ?_
      refine (setValues_never _ _).bind fun _ => (flush_never foreign.toOfStorage _).bind fun _ => ?_
      exact (resultOf_never _ _ _ _).bind fun _ => (others _).bind fun _ => Never.pure _

theorem writeJoined_never {relation : Relation} {target : Resource} (declared : target ∈ context.graph.resources)
    (only : ∀ tag found, targetOf context.graph relation tag = .ok found → found = target) (rows : JoinRows)
    (operation : Operation) (start : Nat) : ∀ (nodes : List Node) (last : Option Nat),
      Node.FitAll context.graph relation nodes →
        Never p (writeJoined context target rows operation start last nodes)
  | [], _, _ => Never.pure []
  | node :: rest, last, ⟨⟨found, leads, fits⟩, later⟩ => by
    obtain rfl := only _ _ leads
    have others (last : Option Nat) := writeJoined_never declared only rows operation start rest last later
    rw [writeJoined]
    refine Never.ite (fun _ => ?_) fun _ => ?_
    · refine (writeNode_never declared [] node fits).bind fun _ => (rows.add_never foreign.toOfStorage _ _).bind fun _ => ?_
      exact (others _).bind fun _ => Never.pure _
    · refine (findLinked_never foreign _ _ _).bind fun _ => (replace_never _ _ _).bind fun _ => ?_
      refine (record_never _).bind fun _ => (resultOf_never _ _ _ _).bind fun result => ?_
      have finish (last : Option Nat) : Never p (do
          return result :: (← writeJoined context found rows operation start last rest)) :=
        (others _).bind fun _ => Never.pure _
      refine Never.ite (fun _ => ?_) fun _ => ?_
      · exact (rows.remove_never foreign.toOfStorage _).bind fun _ => finish _
      · exact (rows.add_never foreign.toOfStorage _ _).bind fun _ => finish _
end

theorem execute_never {resource : Resource} (declared : resource ∈ context.graph.resources) {nodes : List Node}
    (fits : ∀ node ∈ nodes, node.Fits context.graph resource) : Never p (execute context resource nodes) := by
  refine (Never.transaction (Never.mapM fun node member => ?_)).bind fun results => ?_
  · exact writeNode_never foreign sound declared [] node (fits node member)
  · exact (Never.modify _).bind fun _ => Never.pure _

end Performing

/-- A validated mutation writes, at every depth, through relations that can be written, by operations that they allow, to
resources that they lead to; so it never fails for its structure, whatever is stored and whoever asks. A mutation that
names a derived relation anywhere is refused before it is begun. -/
theorem never_structural_of_validate {schema : Schema} {declarations : List ResourceDeclaration} {graph : Graph}
    (built : Graph.build schema declarations = .ok graph) (named : graph.Addressable) {resource : Resource}
    (declared : resource ∈ graph.resources) (body : Json) :
    (∀ nodes, validate graph resource body = .ok nodes →
      (∀ node ∈ nodes, node.Fits graph resource) ∧
        ∀ context : Context, context.graph = graph →
          Job.Never Failure.IsStructural (execute context resource nodes)) ∧
      ∀ items, normalize body = .list items → ∀ item ∈ items, Touches graph resource item →
        ∃ failure, validate graph resource body = .error failure ∧
          ∀ (context : Context) (name : String) (work : Work), context.graph = graph → graph.get? name = some resource →
            (Operations.mutate context name body).runOn work = (.error failure, work) := by
  have sound := Graph.sound_of_build built
  constructor
  · intro nodes accepted
    have fits := fits_of_validate sound named declared accepted
    refine ⟨fits, ?_⟩
    rintro context rfl
    exact execute_never Failure.isStructural_ofRequests sound declared fits
  · intro items listed item member touches
    obtain ⟨failure, refused⟩ := validate_of_touches sound named declared listed member touches
    refine ⟨failure, refused, ?_⟩
    rintro context name work rfl found
    rw [Operations.mutate, bind_runOn, Job.resource, found]
    simp only [pure_runOn, bind_runOn, refused, of_runOn]

/-! ### A tree of records -/

namespace Tree

def table : Table := ⟨"records",
  [{ name := "id", type := .integer, isKey := true, isNullable := false }, { name := "parent", type := .integer }]⟩

def schema : Schema := { tables := [table] }

/-- A resource of records each below another, with the records two steps below as a derived relation. -/
def declaration : ResourceDeclaration where
  name := "Record"
  table := table
  options := [("fields", .list [.text "id"])]
  scopes := []
  relations := [
    { name := "above", kind := .belongsTo, targets := [.text "Record"], foreignKey := .text "parent" },
    { name := "below", kind := .hasManyThrough, targets := [.text "Record"], throughTable := .text "records",
      firstKey := .text "parent", secondKey := .text "parent" }]

def record : Resource where
  name := "Record"
  table := table
  key := "id"
  fields := ["id"]
  scopes := []
  limits := [.int 10, .int 25, .int 50]
  defaultLimit := .int 50
  defaultOrder := [("id", .desc)]
  relations := [
    ⟨"above", .belongsTo, ["Record"], .parent ⟨"parent", "id", none⟩⟩,
    ⟨"below", .hasManyThrough, ["Record"], .through ⟨table, "parent", "parent", "id", "id"⟩⟩]
  fillable := []
  softDeletes := .bool false
  deletedAt := none
  morphAlias := .text "records"
  gates := true

/-- A record that is written through a relation of another one. -/
def through (relation : String) (node : Json) : Json :=
  .object [("relations", .object [(relation, .object [("operations", .list [node])])])]

/-- A body of one record that is written through a relation of another one. -/
def body (relation : String) (node : Json) : Json := .object [("mutate", .list [through relation node])]

theorem tree_of_declaration : Graph.build schema [declaration] = .ok ⟨[record]⟩ := rfl

/-- A record above another one is written, and one that would write two steps below it is refused. -/
theorem never_structural_above :
    (∃ nodes, validate ⟨[record]⟩ record (body "above" (.object [])) = .ok nodes ∧
      Job.Never Failure.IsStructural (execute { graph := ⟨[record]⟩ } record nodes)) ∧
      ∃ failure, ∀ work : Work,
        (Operations.mutate { graph := ⟨[record]⟩ } "Record" (body "above" (through "below" .null))).runOn work =
          (.error failure, work) := by
  have declared : record ∈ (⟨[record]⟩ : Graph).resources := List.mem_singleton.2 rfl
  have above := (never_structural_of_validate tree_of_declaration (by decide) declared (body "above" (.object []))).1
  have below := (never_structural_of_validate tree_of_declaration (by decide) declared
    (body "above" (through "below" .null))).2
  constructor
  · have accepted : validate ⟨[record]⟩ record (body "above" (.object [])) =
        .ok [.mk [] [] none [("above", .mk .create [.mk [] [] none []])]] := rfl
    exact ⟨_, accepted, (above _ accepted).2 _ rfl⟩
  · have derived : Touches ⟨[record]⟩ record (through "below" .null) :=
      .direct (List.mem_cons_of_mem _ List.mem_cons_self) rfl rfl rfl
    have touches : Touches ⟨[record]⟩ record (through "above" (through "below" .null)) :=
      .nested List.mem_cons_self rfl rfl rfl List.mem_cons_self rfl derived
    obtain ⟨failure, -, refused⟩ := below _ rfl _ List.mem_cons_self touches
    exact ⟨failure, fun work => refused _ _ work rfl rfl⟩

end Tree

end Mutation

end ResourceApi
