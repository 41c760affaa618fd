import ResourceApi.Proofs.Mutation.Scoped

/-!
The report of a mutation mirrors the nodes that it was asked to write. Every node has one result, and every relation that a
node lists has the results of its nodes, in their order; each result tells the resource of its node, what was done, and the
number of the row that this was done with: in the end that row has what the node gave, where nothing else writes it. As long
as no row of a table goes as a row of a join table, the numbers that are reported as new are those of rows that were not there
before.
-/

namespace ResourceApi

open Outcome

/-! ## What a report mentions -/

/-- A record that a report mentions, with what was done with it. -/
structure Mention where
  resource : String
  operation : String
  key : Value

namespace WriteResult

mutual
/-- The record of a result, and those below it. -/
def mentions : WriteResult → List Mention
  | mk resource operation key _ relations => ⟨resource, operation, key⟩ :: mentionsBelow relations
termination_by structural result => result

def mentionsBelow : List (String × List WriteResult) → List Mention
  | [] => []
  | (_, results) :: rest => mentionsOf results ++ mentionsBelow rest
termination_by structural relations => relations

def mentionsOf : List WriteResult → List Mention
  | [] => []
  | result :: rest => result.mentions ++ mentionsOf rest
termination_by structural results => results
end

theorem mentionsBelow_append (before after : List (String × List WriteResult)) :
    mentionsBelow (before ++ after) = mentionsBelow before ++ mentionsBelow after := by
  induction before with
  | nil => rfl
  | cons entry rest ih =>
    rw [List.cons_append, mentionsBelow, mentionsBelow, ih, List.append_assoc]

end WriteResult

/-- The keys that mentions tell of new records of a resource. -/
def Resource.created (resource : Resource) (mentions : List Mention) : List Value :=
  (mentions.filter fun mention => mention.resource == resource.name && mention.operation == "create").map (·.key)

theorem Resource.created_append {resource : Resource} {mentions more : List Mention} :
    resource.created (mentions ++ more) = resource.created mentions ++ resource.created more := by
  simp [Resource.created]

/-- Whether the relation of a name is one whose link the record keeps itself. -/
def Resource.keepsLink (resource : Resource) (name : String) : Bool :=
  (resource.relation? name).any (·.kind.linkPlace == .parent)

namespace Mutation

open Job

/-! ## Reports that mirror nodes -/

mutual
/-- Whether a result is that of a node: of its resource, with the key of a row that has what the node gives, the one that the
node asks for if it does, and with results for exactly the relations that it lists. -/
inductive Mirrors (graph : Graph) (scope : Scope) (database : Database) : Resource → Node → WriteResult → Prop
  | intro {resource : Resource} {node : Node} {key : Value} {attributes : Values}
      {relations told : List (String × List WriteResult)} (declared : resource ∈ graph.resources)
      (numbered : ∃ n, key = .plain (.int n)) (asked : ¬(keyOf resource node).isNull → key.IsFor (keyOf resource node))
      (holds : scope.spares resource.table → scope.Holds resource node key database)
      (below : MirrorsBelow graph scope database resource node.relations told) (same : relations.Perm told) :
      Mirrors graph scope database resource node
        (.mk resource.name (if (keyOf resource node).isNull then "create" else "update") key attributes relations)

/-- Whether results are those of the relations of a node, one after the other. -/
inductive MirrorsBelow (graph : Graph) (scope : Scope) (database : Database) :
    Resource → List (String × Entry) → List (String × List WriteResult) → Prop
  | nil {resource : Resource} : MirrorsBelow graph scope database resource [] []
  | cons {resource : Resource} {name : String} {entry : Entry} {relation : Relation} {results : List WriteResult}
      {entries : List (String × Entry)} {others : List (String × List WriteResult)}
      (known : resource.relation? name = some relation)
      (here : MirrorsEach graph scope database relation entry.operation entry.nodes results)
      (later : MirrorsBelow graph scope database resource entries others) :
      MirrorsBelow graph scope database resource ((name, entry) :: entries) ((name, results) :: others)

/-- Whether results are those of the nodes of an entry, one for each: of a record that was written below the relation, or
of one that was linked, unlinked or kept, with the key of a row that is the one that the node asks for. -/
inductive MirrorsEach (graph : Graph) (scope : Scope) (database : Database) :
    Relation → Operation → List Node → List WriteResult → Prop
  | nil {relation : Relation} {operation : Operation} : MirrorsEach graph scope database relation operation [] []
  | created {relation : Relation} {target : Resource} {node : Node} {rest : List Node} {result : WriteResult}
      {others : List WriteResult} (leads : targetOf graph relation node.resource = .ok target)
      (first : Mirrors graph scope database target node result)
      (later : MirrorsEach graph scope database relation .create rest others) :
      MirrorsEach graph scope database relation .create (node :: rest) (result :: others)
  | linked {relation : Relation} {operation : Operation} {target : Resource} {node : Node} {rest : List Node} {key : Value}
      {attributes : Values} {others : List WriteResult} (unlike : operation ≠ .create)
      (leads : targetOf graph relation node.resource = .ok target) (asked : key.IsFor (keyOf target node))
      (there : scope.spares target.table → key ∈ database.numbers target.table)
      (later : MirrorsEach graph scope database relation operation rest others) :
      MirrorsEach graph scope database relation operation (node :: rest)
        (.mk target.name operation.name key attributes [] :: others)
end

section Goes

set_option linter.unusedSectionVars false

variable {graph : Graph} {scope : Scope} {bound : Nat} {before after : Work}
  (advances : before.Advances (scope.layout graph) bound scope.spares after)
include advances

-- what is said of rows stays true as work goes on
mutual
theorem Mirrors.goes {resource : Resource} {node : Node} {result : WriteResult} :
    Mirrors graph scope before.database resource node result → Mirrors graph scope after.database resource node result
  | .intro declared numbered asked holds below same =>
    have listed := Graph.mem_tables declared
    .intro declared numbered asked (fun spared => (holds spared).grows (advances.numbered.numbered _ listed)
      (advances.numbered.apart _ listed) (advances.grows _ listed spared)) below.goes same

theorem MirrorsBelow.goes {resource : Resource} {entries : List (String × Entry)}
    {results : List (String × List WriteResult)} :
    MirrorsBelow graph scope before.database resource entries results →
      MirrorsBelow graph scope after.database resource entries results
  | .nil => .nil
  | .cons known here later => .cons known here.goes later.goes

theorem MirrorsEach.goes {relation : Relation} {operation : Operation} {nodes : List Node} {results : List WriteResult} :
    MirrorsEach graph scope before.database relation operation nodes results →
      MirrorsEach graph scope after.database relation operation nodes results
  | .nil => .nil
  | .created leads first later => .created leads first.goes later.goes
  | .linked unlike leads asked there later =>
    .linked unlike leads asked (fun spared =>
      (advances.grows _ (Graph.mem_tables (mem_of_targetOf leads)) spared).numbers.subset (there spared)) later.goes
end

end Goes

/-! ## Reports of work -/

/-- How work goes on that is reported: the keys of new records are those of rows that came to the others. -/
structure Reports (graph : Graph) (scope : Scope) (bound : Nat) (before after : Work) (mentions : List Mention) : Prop
    extends Work.Advances (scope.layout graph) bound scope.spares before after where
  made : ∀ resource ∈ graph.resources, scope.spares resource.table →
    (resource.created mentions ++ before.database.numbers resource.table).Subperm (after.database.numbers resource.table)

namespace Reports

variable {graph : Graph} {scope : Scope} {resource : Resource} {before middle after : Work} {mentions more : List Mention}
  {bound : Nat}

theorem of_advances (advances : before.Advances (scope.layout graph) bound scope.spares after) :
    Reports graph scope bound before after [] :=
  ⟨advances, fun _ declared spared => (advances.grows _ (Graph.mem_tables declared) spared).numbers⟩

theorem trans (first : Reports graph scope bound before middle mentions) (second : Reports graph scope bound middle after more) :
    Reports graph scope bound before after (mentions ++ more) := by
  refine ⟨first.toAdvances.trans second.toAdvances, fun resource declared spared => ?_⟩
  rw [Resource.created_append]
  have swapped : (resource.created mentions ++ resource.created more ++ before.database.numbers resource.table).Perm
      (resource.created more ++ (resource.created mentions ++ before.database.numbers resource.table)) := by
    rw [← List.append_assoc]
    exact List.perm_append_comm.append_right _
  have grown := (List.subperm_append_left (resource.created more)).2 (first.made resource declared spared)
  exact swapped.subperm.trans (grown.trans (second.made resource declared spared))

theorem mono {less : Nat} (reports : Reports graph scope bound before after mentions) (below : less ≤ bound) :
    Reports graph scope less before after mentions :=
  ⟨reports.toAdvances.mono below fun _ => id, reports.made⟩

theorem perm (reports : Reports graph scope bound before after mentions) (perm : mentions.Perm more) :
    Reports graph scope bound before after more := by
  refine ⟨reports.toAdvances, fun resource declared spared => ?_⟩
  have created : (resource.created mentions).Perm (resource.created more) := (perm.filter _).map _
  exact (created.symm.append_right _).subperm.trans (reports.made resource declared spared)

/-- What is told of a record that was there is no new one. -/
theorem told {name operation : String} {key : Value} (advances : before.Advances (scope.layout graph) bound scope.spares after)
    (old : operation ≠ "create") : Reports graph scope bound before after [⟨name, operation, key⟩] := by
  refine ⟨advances, fun other declared spared => ?_⟩
  have none : other.created [⟨name, operation, key⟩] = [] := by simp [Resource.created, old]
  rw [none]
  exact (advances.grows _ (Graph.mem_tables declared) spared).numbers

/-- A record that is new is told of. -/
theorem of_new {key : Value} (names : (graph.resources.map (·.name)).Nodup) (declared : resource ∈ graph.resources)
    (advances : before.Advances (scope.layout graph) bound scope.spares after)
    (grown : (key :: before.database.numbers resource.table).Subperm (after.database.numbers resource.table)) :
    Reports graph scope bound before after [⟨resource.name, "create", key⟩] := by
  refine ⟨advances, fun other declaredToo spared => ?_⟩
  by_cases same : resource.name = other.name
  · obtain rfl := List.inj_on_of_nodup_map names declared declaredToo same
    simpa [Resource.created] using grown
  · have none : other.created [⟨resource.name, "create", key⟩] = [] := by simp [Resource.created, same]
    rw [none]
    exact (advances.grows _ (Graph.mem_tables declaredToo) spared).numbers

end Reports

/-! ## The walk -/

theorem name_ne_create {operation : Operation} (unlike : operation ≠ .create) : operation.name ≠ "create" := by
  cases operation <;> first | exact absurd rfl unlike | decide

theorem named_of_targetOf {graph : Graph} {relation : Relation} {tag : Option String} {target : Resource}
    (leads : targetOf graph relation tag = .ok target) : target.name ∈ relation.targets := by
  have named {name : String} (found : graph.get? name = some target) : target.name = name := by
    simpa using List.find?_some found
  unfold targetOf at leads
  split at leads
  · unfold Graph.taggedTarget at leads
    dsimp only at leads
    split at leads
    · cases leads
    · next chosen =>
      split at leads
      · next found =>
        cases leads
        exact named found ▸ List.mem_of_find?_eq_some chosen
      · cases leads
  · unfold Graph.target at leads
    split at leads
    · cases leads
    · next first =>
      split at leads
      · next found =>
        cases leads
        rw [first, named found]
        exact List.mem_cons_self
      · cases leads

/-- The relations that are written of a node are relations of its resource. -/
theorem known_of_checkRelations {resource : Resource} {names : List String} (checked : checkRelations resource names = .ok ()) :
    ∀ name ∈ names, (resource.relation? name).isSome := by
  induction names with
  | nil => exact fun _ listed => absurd listed List.not_mem_nil
  | cons name rest ih =>
    simp only [checkRelations, List.forM_eq_forM, List.forM_cons] at checked
    obtain ⟨_, here, later⟩ := Outcome.bind_eq_ok.1 checked
    refine List.forall_mem_cons.2 ⟨?_, ih later⟩
    split at here
    · cases here
    · next known => rw [known, Option.isSome_some]

/-- Results of the entries that a record writes before itself and of all others are results of its entries. -/
theorem MirrorsBelow.merge {graph : Graph} {scope : Scope} {database : Database} {owner : Resource}
    {keeps : String × Entry → Bool} :
    ∀ {entries : List (String × Entry)} {above below : List (String × List WriteResult)},
      MirrorsBelow graph scope database owner (entries.filter fun entry => keeps entry == true) above →
      MirrorsBelow graph scope database owner (entries.filter fun entry => keeps entry == false) below →
      ∃ told, MirrorsBelow graph scope database owner entries told ∧ (above ++ below).Perm told
  | [], _, _, first, second => by
    cases first
    cases second
    exact ⟨[], .nil, .refl _⟩
  | entry :: rest, above, below, first, second => by
    cases kept : keeps entry with
    | true =>
      rw [List.filter_cons_of_pos (by rw [kept]; rfl)] at first
      rw [List.filter_cons_of_neg (by rw [kept]; decide)] at second
      cases first with
      | cons known here later =>
        obtain ⟨told, mirrors, same⟩ := MirrorsBelow.merge later second
        exact ⟨_, .cons known here mirrors, same.cons _⟩
    | false =>
      rw [List.filter_cons_of_neg (by rw [kept]; decide)] at first
      rw [List.filter_cons_of_pos (by rw [kept]; rfl)] at second
      cases second with
      | cons known here later =>
        obtain ⟨told, mirrors, same⟩ := MirrorsBelow.merge first later
        exact ⟨_, .cons known here mirrors, List.perm_middle.trans (same.cons _)⟩

section Walk

set_option linter.unusedSectionVars false

variable {context : Context} {scope : Scope} {work after : Work}

/-- The values by which a record refers to the one above it are written where links are kept. -/
theorem writes_childLink {owner target : Resource} {relation : Relation} {link : ChildLink} {tag : Option String}
    {record : Record} (links : scope.Links context.graph) (declared : owner ∈ context.graph.resources)
    (listed : relation ∈ owner.relations) (own : relation.link = .child link)
    (leads : targetOf context.graph relation tag = .ok target) :
    ∀ entry ∈ childLink owner link record, scope.writes target.table entry.1 := by
  have keeps := links owner declared relation listed target (mem_of_targetOf leads) (named_of_targetOf leads)
  rw [own] at keeps
  refine List.forall_mem_cons.2 ⟨keeps _ List.mem_cons_self, fun entry among => ?_⟩
  obtain ⟨column, typed, rfl⟩ := List.mem_map.1 among
  exact keeps _ (List.mem_cons_of_mem _ typed)

/-- The values by which a record refers to another one are written where links are kept. -/
theorem writes_parentLink {owner target : Resource} {relation : Relation} {link : ParentLink} {tag : Option String}
    {related : Option (Value × Resource)} (links : scope.Links context.graph) (declared : owner ∈ context.graph.resources)
    (listed : relation ∈ owner.relations) (own : relation.link = .parent link)
    (leads : targetOf context.graph relation tag = .ok target) :
    ∀ entry ∈ parentLink link related, scope.writes owner.table entry.1 := by
  have keeps := links owner declared relation listed target (mem_of_targetOf leads) (named_of_targetOf leads)
  rw [own] at keeps
  unfold parentLink
  split <;> refine List.forall_mem_cons.2 ⟨keeps _ List.mem_cons_self, fun entry among => ?_⟩ <;>
    obtain ⟨column, typed, rfl⟩ := List.mem_map.1 among <;> exact keeps _ (List.mem_cons_of_mem _ typed)

variable (names : (context.graph.resources.map (·.name)).Nodup) (generates : context.graph.Generates)
include names generates

/-- Linking a record tells the key that it was looked for by. -/
theorem findLinked_reports {target : Resource} {node : Node} {operation : Operation} {found start : Nat}
    {last : Option Nat} {looked : Work} (declared : target ∈ context.graph.resources) (unlike : operation ≠ .create)
    (numbered : work.Numbered (scope.layout context.graph))
    (searched : (findLinked context target node operation).runOn work = (.ok found, looked))
    (replaced : (replace start last found).runOn looked = (.ok (), after)) :
    ∃ key, Reports context.graph scope start work after [⟨target.name, operation.name, key⟩] ∧
      Knows after found target key ∧ key.IsFor (keyOf target node) ∧
      (scope.spares target.table → key ∈ after.database.numbers target.table) := by
  have listed := Graph.mem_tables declared
  rw [findLinked_eq] at searched
  obtain ⟨one, key, knows, asked, present⟩ : work.Advances _ start scope.spares looked ∧ _ :=
    findFor_advances numbered listed (generates.place_eq declared) searched
  obtain ⟨two, still⟩ : looked.Advances _ start scope.spares after ∧ _ := replace_advances one.numbered knows replaced
  exact ⟨key, .told (one.trans two) (name_ne_create unlike), still, asked,
    fun spared => (two.grows _ listed spared).numbers.subset present⟩

/-- Syncing with one record tells the key that it was looked for by. -/
theorem syncNode_reports {target : Resource} {rows : JoinRows} {start : Nat} {existing : List Value} {node : Node}
    {last : Option Nat} {done : Nat × Value × WriteResult} (declared : target ∈ context.graph.resources)
    (spared : ∀ table, scope.spares table → table.name ≠ rows.link.table.name)
    (numbered : work.Numbered (scope.layout context.graph))
    (ran : (syncNode context target rows start existing node last).runOn work = (.ok done, after)) :
    ∃ key attributes, done.2.2 = .mk target.name "sync" key attributes [] ∧ key.IsFor (keyOf target node) ∧
      (scope.spares target.table → key ∈ after.database.numbers target.table) ∧
      Reports context.graph scope start work after done.2.2.mentions := by
  unfold syncNode at ran
  obtain ⟨number, found, looked, ran⟩ := bind_eq_ok.1 ran
  obtain ⟨_, left, replaced, ran⟩ := bind_eq_ok.1 ran
  obtain ⟨key, told, knows, asked, there⟩ : ∃ key, Reports context.graph scope start work left _ ∧ _ :=
    findLinked_reports names generates declared (by simp) numbered looked replaced
  have kept := knows
  obtain ⟨record, inHand, -⟩ := kept
  rw [bind_runOn, record_runOn inHand] at ran
  dsimp only at ran
  -- the result is read of the record in hand, whatever was done with the rows
  have finish {state : Work} (advances : ∀ bound, left.Advances (scope.layout context.graph) bound scope.spares state)
      (ran : (do
        let result ← resultOf target number "sync" []
        return (number, record.value rows.link.targetKey, result) : Job (Nat × Value × WriteResult)).runOn state =
          (.ok done, after)) :
      ∃ key attributes, done.2.2 = .mk target.name "sync" key attributes [] ∧ key.IsFor (keyOf target node) ∧
        (scope.spares target.table → key ∈ after.database.numbers target.table) ∧
        Reports context.graph scope start work after done.2.2.mentions := by
    have still := knows.advances (advances (number + 1)) (Nat.lt_succ_self number)
    obtain ⟨attributes, shown⟩ := still.resultOf_runOn (generates.place_eq declared) "sync" []
    rw [bind_runOn, shown] at ran
    cases ran
    refine ⟨key, attributes, rfl, asked, fun also => ?_, told.trans (.of_advances (advances start))⟩
    exact ((advances start).grows _ (Graph.mem_tables declared) also).numbers.subset (there also)
  split at ran
  · split at ran
    · obtain ⟨_, changed, wrote, ran⟩ := bind_eq_ok.1 ran
      exact finish (fun _ => JoinRows.change_advances told.numbered spared wrote) ran
    · exact finish (fun _ => .refl told.numbered) ran
  · obtain ⟨_, added, wrote, ran⟩ := bind_eq_ok.1 ran
    exact finish (fun _ => JoinRows.add_advances told.numbered wrote) ran

theorem syncNodes_reports {target : Resource} {relation : Relation} {rows : JoinRows} {start : Nat}
    (declared : target ∈ context.graph.resources) (leads : ∀ tag, targetOf context.graph relation tag = .ok target)
    (spared : ∀ table, scope.spares table → table.name ≠ rows.link.table.name) {nodes : List Node}
    {existing desired : List Value} {last : Option Nat} {results : List WriteResult}
    (numbered : work.Numbered (scope.layout context.graph)) (below : start ≤ work.next)
    (ran : (syncNodes context target rows start existing nodes desired last).runOn work = (.ok results, after)) :
    Reports context.graph scope start work after (WriteResult.mentionsOf results) ∧
      MirrorsEach context.graph scope after.database relation .sync nodes results := by
  have listed := Graph.mem_tables declared
  induction nodes generalizing work existing desired last results with
  | nil =>
    rw [syncNodes] at ran
    rw [bind_runOn, get_runOn] at ran
    dsimp only at ran
    obtain ⟨_, _, dropped, ran⟩ := bind_eq_ok.1 ran
    cases ran
    have advances := dropStale_advances numbered listed (generates.place_eq declared) spared dropped
    exact ⟨.of_advances (advances.mono below fun _ => id), .nil⟩
  | cons node rest ih =>
    rw [syncNodes_cons] at ran
    obtain ⟨done, middle, first, ran⟩ := bind_eq_ok.1 ran
    obtain ⟨others, _, later, ran⟩ := bind_eq_ok.1 ran
    cases ran
    obtain ⟨key, attributes, is, asked, there, told⟩ := syncNode_reports names generates declared spared numbered first
    obtain ⟨reports, mirrors⟩ := ih told.numbered (below.trans told.next) later
    refine ⟨told.trans reports, ?_⟩
    rw [is]
    exact .linked (by simp) (leads _) asked (fun also => (reports.grows _ listed also).numbers.subset (there also)) mirrors

variable (links : scope.Links context.graph) (sound : context.graph.Sound)
include links sound

mutual
theorem writeNode_reports {resource : Resource} (declared : resource ∈ context.graph.resources) {link : Values}
    (linked : ∀ entry ∈ link, scope.writes resource.table entry.1) :
    ∀ (node : Node) (work after : Work) (result : WriteResult),
      work.Numbered (scope.layout context.graph) → scope.Covers context.graph resource node →
      (writeNode context resource link node).runOn work = (.ok result, after) →
      Reports context.graph scope work.next work after result.mentions ∧
        Mirrors context.graph scope after.database resource node result
  | .mk attributes pivot tag relations, work, after, result, numbered, covers, ran => by
    have listed := Graph.mem_tables declared
    have place := generates.place_eq declared
    have unfilled : resource.table.place ∉ resource.fillable := place ▸ generates.unfilled resource declared
    have known : ∀ entry ∈ relations, (resource.relation? entry.1).isSome := by
      rw [writeNode_eq] at ran
      obtain ⟨_, checked, -⟩ := of_bind_eq_ok.1 ran
      exact fun entry member => known_of_checkRelations checked _ (List.mem_map_of_mem member)
    obtain ⟨number, taken, above, before, set, flushed, below, last, ended, took, wroteAbove, setGiven, wrote, wroteBelow, shown,
      letGo⟩ := writeNode_steps ran
    -- once the record itself is written, the other relations follow, and the result is read of it
    have finish {key : Value} (toTaken : work.Advances (scope.layout context.graph) work.next scope.spares taken)
        (first : Reports context.graph scope taken.next taken before (WriteResult.mentionsBelow above))
        (mirrored : MirrorsBelow context.graph scope before.database resource
          (relations.filter fun entry => resource.keepsLink entry.1 == true) above)
        (own : Reports context.graph scope work.next before flushed
          [⟨resource.name, if (keyOf resource (.mk attributes pivot tag relations)).isNull then "create" else "update", key⟩])
        (knows : Knows flushed number resource key) (isNumber : ∃ n, key = .plain (.int n))
        (asked : ¬(keyOf resource (.mk attributes pivot tag relations)).isNull →
          key.IsFor (keyOf resource (.mk attributes pivot tag relations)))
        (holds : scope.spares resource.table →
          scope.Holds resource (.mk attributes pivot tag relations) key flushed.database) :
        Reports context.graph scope work.next work after result.mentions ∧
          Mirrors context.graph scope after.database resource (.mk attributes pivot tag relations) result := by
      obtain ⟨second, mirroredToo⟩ := writeEntries_reports declared false relations flushed last below known covers.entries
        own.numbered knows.has wroteBelow
      obtain ⟨shownAttributes, resulted⟩ := (knows.advances second.toAdvances (knows.has.lt own.numbered)).resultOf_runOn
        place _ (above ++ below)
      cases resulted.symm.trans shown
      subst letGo
      have upTo := toTaken.next.trans (first.next.trans own.next)
      have released : last.Advances (scope.layout context.graph) work.next scope.spares _ :=
        second.numbered.advances_filter (· < work.next) fun _ small => decide_eq_true small
      have onward := (second.mono upTo).trans (.of_advances released)
      have whole := (Reports.of_advances toTaken).trans ((first.mono toTaken.next).trans (own.trans onward))
      obtain ⟨told, mirrors, same⟩ :=
        (mirrored.goes (own.toAdvances.trans onward.toAdvances)).merge (mirroredToo.goes released)
      refine ⟨whole.perm ?_, .intro declared isNumber asked (fun spared => ?_) mirrors same⟩
      · rw [WriteResult.mentions, WriteResult.mentionsBelow_append, List.nil_append, List.append_nil]
        exact List.perm_middle
      · exact (holds spared).grows (generates.isNumbered declared) (own.numbered.apart _ listed) (onward.grows _ listed spared)
    by_cases null : (keyOf resource (.mk attributes pivot tag relations)).isNull = true
    · obtain ⟨toTaken, rfl, new⟩ : work.Advances _ _ scope.spares taken ∧ _ := takeNew_advances numbered listed null took
      obtain ⟨first, mirrored⟩ := writeEntries_reports declared true relations taken before above known covers.entries
        toTaken.numbered new.has wroteAbove
      have still := new.advances first.toAdvances (new.has.lt toTaken.numbered)
      have apart : ∀ entry ∈ given resource attributes ++ link, entry.1 ≠ resource.table.place := by
        refine List.forall_mem_append.2 ⟨fun entry member same => ?_, fun entry member same => ?_⟩
        · exact unfilled (same ▸ (Scope.mem_given.1 member).1)
        · exact numbered.apart _ listed (same ▸ linked entry member)
      obtain ⟨advances, n, record, table, knows, grown, bears⟩ := writeNew_advances first.numbered still apart
        (List.forall_mem_append.2 ⟨covers.self.definite, fun entry member unwritten => absurd (linked entry member) unwritten⟩)
        setGiven wrote
      refine finish toTaken first mirrored ?_ knows ⟨n, rfl⟩ (fun keyed => absurd null keyed) fun _ =>
        Scope.holds_of_bears table unfilled linked bears
      rw [if_pos null]
      exact .of_new names declared advances grown
    · obtain ⟨toTaken, key, knows, asked, present⟩ : work.Advances _ work.next scope.spares taken ∧ _ :=
        takeOld_advances numbered listed place null took
      obtain ⟨first, mirrored⟩ := writeEntries_reports declared true relations taken before above known covers.entries
        toTaken.numbered knows.has wroteAbove
      have still := knows.advances first.toAdvances (knows.has.lt toTaken.numbered)
      have written := covers.self.written null
      obtain ⟨advances, knowsToo⟩ : before.Advances _ work.next scope.spares flushed ∧ _ :=
        writeOld_advances first.numbered still (List.forall_mem_append.2 ⟨written, linked⟩) setGiven wrote
      have isNumber : ∃ n, key = .plain (.int n) := asked.imp fun _ is => is.1
      refine finish toTaken first mirrored ?_ knowsToo isNumber (fun _ => asked) fun spared => ?_
      · rw [if_neg null]
        exact .told advances (by decide)
      · refine Scope.holds_of_mem written ?_
        exact (advances.grows _ listed spared).numbers.subset ((first.grows _ listed spared).numbers.subset present)

theorem writeEntries_reports {owner : Resource} {number : Nat} (declared : owner ∈ context.graph.resources) (kept : Bool) :
    ∀ (entries : List (String × Entry)) (work after : Work) (results : List (String × List WriteResult)),
      (∀ entry ∈ entries, (owner.relation? entry.1).isSome) →
      (∀ entry ∈ entries, scope.CoversEntry context.graph owner entry.1 entry.2) →
      work.Numbered (scope.layout context.graph) → Has work number owner →
      (writeEntries context owner number kept entries).runOn work = (.ok results, after) →
      Reports context.graph scope work.next work after (WriteResult.mentionsBelow results) ∧
        MirrorsBelow context.graph scope after.database owner
          (entries.filter fun entry => owner.keepsLink entry.1 == kept) results
  | [], work, after, results, _, _, numbered, _, ran => by
    rw [writeEntries] at ran
    cases ran
    exact ⟨.of_advances (.refl numbered), .nil⟩
  | (name, entry) :: rest, work, after, results, known, covers, numbered, has, ran => by
    obtain ⟨⟨relation, here⟩, others⟩ := (List.forall_mem_cons.1 known).imp_left Option.isSome_iff_exists.1
    obtain ⟨covered, coveredToo⟩ := List.forall_mem_cons.1 covers
    have keeps : owner.keepsLink name = (relation.kind.linkPlace == .parent) := by simp [Resource.keepsLink, here]
    rw [writeEntries, here] at ran
    dsimp only at ran
    split at ran
    · next now =>
      obtain ⟨written, middle, wrote, ran⟩ := bind_eq_ok.1 ran
      obtain ⟨further, _, later, ran⟩ := bind_eq_ok.1 ran
      cases ran
      obtain ⟨listed, rfl⟩ := Resource.mem_of_relation? here
      obtain ⟨first, mirrored⟩ := writeEntry_reports declared listed here entry work middle written covered numbered has wrote
      obtain ⟨reports, mirrors⟩ := writeEntries_reports declared kept rest middle _ further others coveredToo first.numbered
        (has.advances first.toAdvances (has.lt numbered)) later
      have onward := reports.mono first.next
      refine ⟨first.trans onward, ?_⟩
      rw [List.filter_cons_of_pos (by rw [keeps, now])]
      exact .cons here (mirrored.goes onward.toAdvances) mirrors
    · next elsewhere =>
      obtain ⟨reports, mirrors⟩ :=
        writeEntries_reports declared kept rest work after results others coveredToo numbered has ran
      refine ⟨reports, ?_⟩
      rw [List.filter_cons_of_neg (by simpa [keeps] using elsewhere)]
      exact mirrors

theorem writeEntry_reports {owner : Resource} {relation : Relation} {number : Nat}
    (declared : owner ∈ context.graph.resources) (listed : relation ∈ owner.relations)
    (known : owner.relation? relation.name = some relation) :
    ∀ (entry : Entry) (work after : Work) (results : List WriteResult),
      scope.CoversEntry context.graph owner relation.name entry →
      work.Numbered (scope.layout context.graph) → Has work number owner →
      (writeEntry context owner number relation entry).runOn work = (.ok results, after) →
      Reports context.graph scope work.next work after (WriteResult.mentionsOf results) ∧
        MirrorsEach context.graph scope after.database relation entry.operation entry.nodes results
  | .mk operation nodes, work, after, results, covers, numbered, has, ran => by
    have placed := ((sound owner declared).relations relation listed).placed
    have covered := covers.nodes relation known
    rw [writeEntry] at ran
    split at ran
    · cases ran
    rw [bind_runOn, get_runOn] at ran
    dsimp only at ran
    -- what is written is followed by letting go of the records that were taken for it
    have finish {state : Work} {written : List WriteResult}
        (reports : Reports context.graph scope work.next work state (WriteResult.mentionsOf written) ∧
          MirrorsEach context.graph scope state.database relation operation nodes written)
        (ran : (do
          releaseFrom work.next
          return written : Job (List WriteResult)).runOn state = (.ok results, after)) :
        Reports context.graph scope work.next work after (WriteResult.mentionsOf results) ∧
          MirrorsEach context.graph scope after.database relation operation nodes results := by
      cases ran
      have released : state.Advances (scope.layout context.graph) work.next scope.spares _ :=
        reports.1.numbered.advances_filter (· < work.next) fun _ small => decide_eq_true small
      have whole := reports.1.trans (.of_advances released)
      rw [List.append_nil] at whole
      exact ⟨whole, reports.2.goes released⟩
    have leads {target : Resource} (leads : context.graph.target relation = .ok target) (below : relation.link.place ≠ .parent) :
        ∀ tag, targetOf context.graph relation tag = .ok target := fun _ => targetOf_of_target leads (placed ▸ below)
    split at ran
    · next link own =>
      obtain ⟨written, state, wrote, ran⟩ := bind_eq_ok.1 ran
      exact finish (writeParents_reports declared listed known own operation nodes none work state written covered numbered
        le_rfl has (has.lt numbered) wrote) ran
    · next link own =>
      obtain ⟨target, found, ran⟩ := of_bind_eq_ok.1 ran
      obtain ⟨record, there, -⟩ := has
      rw [bind_runOn, record_runOn there] at ran
      dsimp only at ran
      have leads := leads found (by simp [own, Link.place])
      obtain ⟨written, state, wrote, ran⟩ := bind_eq_ok.1 ran
      exact finish (writeChildren_reports (mem_of_targetOf (leads none)) leads
        (writes_childLink links declared listed own (leads none)) operation nodes none work state written covered numbered le_rfl
        wrote) ran
    · next link own =>
      obtain ⟨target, found, led⟩ := of_bind_eq_ok.1 ran
      obtain ⟨record, there, -⟩ := has
      rw [bind_runOn, record_runOn there] at led
      dsimp only at led
      have leads := leads found (by simp [own, Link.place])
      have declaredToo := mem_of_targetOf (leads none)
      have spared (removes : operation = .detach ∨ operation = .sync) : ∀ table, scope.spares table →
          table.name ≠ (JoinRows.ofRecord owner target link record).link.table.name := by
        rw [JoinRows.link_ofRecord]
        exact covers.spared relation link known own removes
      split at led
      · next sync =>
        subst sync
        obtain ⟨existing, _, looked, synced⟩ := bind_eq_ok.1 led
        obtain ⟨rfl, -⟩ := JoinRows.relatedKeys_eq_ok looked
        obtain ⟨written, state, wrote, ran⟩ := bind_eq_ok.1 synced
        exact finish (syncNodes_reports names generates declaredToo leads (spared (.inr rfl)) numbered le_rfl wrote) ran
      · obtain ⟨written, state, wrote, ran⟩ := bind_eq_ok.1 led
        exact finish (writeJoined_reports declaredToo leads operation (fun detaches => spared (.inl detaches)) nodes none work
          state written covered numbered le_rfl wrote) ran
    · cases ran

theorem writeParents_reports {owner : Resource} {relation : Relation} {number start : Nat}
    (declared : owner ∈ context.graph.resources) (listed : relation ∈ owner.relations)
    (known : owner.relation? relation.name = some relation) {link : ParentLink} (own : relation.link = .parent link)
    (operation : Operation) : ∀ (nodes : List Node) (last : Option Nat) (work after : Work) (results : List WriteResult),
      scope.CoversNodes context.graph relation operation nodes →
      work.Numbered (scope.layout context.graph) → start ≤ work.next → Has work number owner → number < start →
      (writeParents context number relation link operation start last nodes).runOn work = (.ok results, after) →
      Reports context.graph scope start work after (WriteResult.mentionsOf results) ∧
        MirrorsEach context.graph scope after.database relation operation nodes results
  | [], _, work, after, results, _, numbered, _, _, _, ran => by
    rw [writeParents] at ran
    cases ran
    exact ⟨.of_advances (.refl numbered), .nil⟩
  | node :: rest, last, work, after, results, covers, numbered, below, has, inHand, ran => by
    rw [writeParents] at ran
    obtain ⟨target, leads, ran⟩ := of_bind_eq_ok.1 ran
    have declaredToo := mem_of_targetOf leads
    -- what is done for a node is followed by its link and by the other nodes
    have goOn {middle : Work} {result : WriteResult} {related : Option (Value × Resource)} {last : Option Nat}
        (first : Reports context.graph scope start work middle result.mentions)
        (ran : (do
          setValues number (parentLink link related)
          return result :: (← writeParents context number relation link operation start last rest) :
            Job (List WriteResult)).runOn middle = (.ok results, after)) :
        ∃ others, results = result :: others ∧
          Reports context.graph scope start middle after (WriteResult.mentionsOf others) ∧
          MirrorsEach context.graph scope after.database relation operation rest others := by
      have still := has.advances first.toAdvances inHand
      obtain ⟨_, set, setLink, ran⟩ := bind_eq_ok.1 ran
      have second : middle.Advances (scope.layout context.graph) start scope.spares set :=
        setValues_advances first.numbered still (writes_parentLink links declared listed own leads) setLink
      obtain ⟨others, _, later, ran⟩ := bind_eq_ok.1 ran
      cases ran
      obtain ⟨reports, mirrors⟩ := writeParents_reports declared listed known own operation rest last set _ others covers.tail
        second.numbered (below.trans (first.next.trans second.next)) (still.advances second inHand) inHand later
      exact ⟨others, rfl, (Reports.of_advances second).trans reports, mirrors⟩
    split at ran
    · next creates =>
      subst creates
      obtain ⟨result, written, wrote, ran⟩ := bind_eq_ok.1 ran
      obtain ⟨whole, mirrored⟩ :=
        writeNode_reports declaredToo (by simp) node work written result numbered (covers.head leads) wrote
      have first := whole.mono below
      obtain ⟨others, rfl, reports, mirrors⟩ := goOn first ran
      exact ⟨first.trans reports, .created leads (mirrored.goes reports.toAdvances) mirrors⟩
    · next unlike =>
      obtain ⟨found, looked, searched, ran⟩ := bind_eq_ok.1 ran
      obtain ⟨_, left, replaced, ran⟩ := bind_eq_ok.1 ran
      obtain ⟨key, told, knows, asked, there⟩ := findLinked_reports names generates declaredToo unlike numbered searched replaced
      obtain ⟨attributes, shown⟩ := knows.resultOf_runOn (generates.place_eq declaredToo) operation.name []
      obtain ⟨record, inHand, -⟩ := knows
      rw [bind_runOn, record_runOn inHand] at ran
      dsimp only at ran
      rw [bind_runOn, shown] at ran
      obtain ⟨others, rfl, reports, mirrors⟩ := goOn told ran
      exact ⟨told.trans reports, .linked unlike leads asked (fun also =>
        (reports.grows _ (Graph.mem_tables declaredToo) also).numbers.subset (there also)) mirrors⟩

theorem writeChildren_reports {target : Resource} {relation : Relation} {start : Nat}
    (declared : target ∈ context.graph.resources) (leads : ∀ tag, targetOf context.graph relation tag = .ok target)
    {values : Values} (linked : ∀ entry ∈ values, scope.writes target.table entry.1) (operation : Operation) :
    ∀ (nodes : List Node) (last : Option Nat) (work after : Work) (results : List WriteResult),
      scope.CoversNodes context.graph relation operation nodes →
      work.Numbered (scope.layout context.graph) → start ≤ work.next →
      (writeChildren context target values operation start last nodes).runOn work = (.ok results, after) →
      Reports context.graph scope start work after (WriteResult.mentionsOf results) ∧
        MirrorsEach context.graph scope after.database relation operation nodes results
  | [], _, work, after, results, _, numbered, _, ran => by
    rw [writeChildren] at ran
    cases ran
    exact ⟨.of_advances (.refl numbered), .nil⟩
  | node :: rest, last, work, after, results, covers, numbered, below, ran => by
    rw [writeChildren] at ran
    split at ran
    · next creates =>
      subst creates
      obtain ⟨result, written, wrote, ran⟩ := bind_eq_ok.1 ran
      obtain ⟨whole, mirrored⟩ :=
        writeNode_reports declared linked node work written result numbered (covers.head (leads _)) wrote
      have first := whole.mono below
      obtain ⟨others, _, later, ran⟩ := bind_eq_ok.1 ran
      cases ran
      obtain ⟨reports, mirrors⟩ := writeChildren_reports declared leads linked .create rest last written _ others covers.tail
        first.numbered (below.trans first.next) later
      exact ⟨first.trans reports, .created (leads _) (mirrored.goes reports.toAdvances) mirrors⟩
    · next unlike =>
      obtain ⟨found, looked, searched, ran⟩ := bind_eq_ok.1 ran
      obtain ⟨_, left, replaced, ran⟩ := bind_eq_ok.1 ran
      obtain ⟨key, told, knows, asked, there⟩ : ∃ key, Reports context.graph scope start work left _ ∧ _ :=
        findLinked_reports names generates declared unlike numbered searched replaced
      obtain ⟨_, set, setLink, ran⟩ := bind_eq_ok.1 ran
      obtain ⟨_, flushed, wrote, ran⟩ := bind_eq_ok.1 ran
      obtain ⟨second, still⟩ : left.Advances (scope.layout context.graph) start scope.spares flushed ∧ _ := by
        refine writeOld_advances told.numbered knows (fun entry listed => ?_) setLink wrote
        split at listed
        · obtain ⟨value, given, rfl⟩ := List.mem_map.1 listed
          exact linked value given
        · exact linked entry listed
      obtain ⟨attributes, shown⟩ := still.resultOf_runOn (generates.place_eq declared) operation.name []
      rw [bind_runOn, shown] at ran
      obtain ⟨others, _, later, ran⟩ := bind_eq_ok.1 ran
      cases ran
      obtain ⟨reports, mirrors⟩ := writeChildren_reports declared leads linked operation rest (some found) flushed _ others
        covers.tail second.numbered (below.trans (told.next.trans second.next)) later
      have onward := (Reports.of_advances second).trans reports
      exact ⟨told.trans onward, .linked unlike (leads _) asked (fun also =>
        (onward.grows _ (Graph.mem_tables declared) also).numbers.subset (there also)) mirrors⟩

theorem writeJoined_reports {target : Resource} {relation : Relation} {start : Nat}
    (declared : target ∈ context.graph.resources) (leads : ∀ tag, targetOf context.graph relation tag = .ok target)
    {rows : JoinRows} (operation : Operation)
    (spared : operation = .detach → ∀ table, scope.spares table → table.name ≠ rows.link.table.name) :
    ∀ (nodes : List Node) (last : Option Nat) (work after : Work) (results : List WriteResult),
      scope.CoversNodes context.graph relation operation nodes →
      work.Numbered (scope.layout context.graph) → start ≤ work.next →
      (writeJoined context target rows operation start last nodes).runOn work = (.ok results, after) →
      Reports context.graph scope start work after (WriteResult.mentionsOf results) ∧
        MirrorsEach context.graph scope after.database relation operation nodes results
  | [], _, work, after, results, _, numbered, _, ran => by
    rw [writeJoined] at ran
    cases ran
    exact ⟨.of_advances (.refl numbered), .nil⟩
  | node :: rest, last, work, after, results, covers, numbered, below, ran => by
    rw [writeJoined] at ran
    split at ran
    · next creates =>
      subst creates
      obtain ⟨result, written, wrote, ran⟩ := bind_eq_ok.1 ran
      obtain ⟨whole, mirrored⟩ :=
        writeNode_reports declared (by simp) node work written result numbered (covers.head (leads _)) wrote
      have first := whole.mono below
      obtain ⟨_, added, adding, ran⟩ := bind_eq_ok.1 ran
      have second : written.Advances (scope.layout context.graph) start scope.spares added :=
        JoinRows.add_advances first.numbered adding
      obtain ⟨others, _, later, ran⟩ := bind_eq_ok.1 ran
      cases ran
      obtain ⟨reports, mirrors⟩ := writeJoined_reports declared leads .create spared rest last added _ others covers.tail
        second.numbered (below.trans (first.next.trans second.next)) later
      have onward := (Reports.of_advances second).trans reports
      exact ⟨first.trans onward, .created (leads _) (mirrored.goes onward.toAdvances) mirrors⟩
    · next unlike =>
      obtain ⟨found, looked, searched, ran⟩ := bind_eq_ok.1 ran
      obtain ⟨_, left, replaced, ran⟩ := bind_eq_ok.1 ran
      obtain ⟨key, told, knows, asked, there⟩ : ∃ key, Reports context.graph scope start work left _ ∧ _ :=
        findLinked_reports names generates declared unlike numbered searched replaced
      obtain ⟨attributes, shown⟩ := knows.resultOf_runOn (generates.place_eq declared) operation.name []
      obtain ⟨record, inHand, -⟩ := knows
      rw [bind_runOn, record_runOn inHand] at ran
      dsimp only at ran
      rw [bind_runOn, shown] at ran
      dsimp only at ran
      -- the rows of the join table are followed by the other nodes
      have goOn {state : Work} (second : left.Advances (scope.layout context.graph) start scope.spares state)
          (ran : (do
            return .mk target.name operation.name key attributes [] ::
              (← writeJoined context target rows operation start (some found) rest) : Job (List WriteResult)).runOn state =
                (.ok results, after)) :
          Reports context.graph scope start work after (WriteResult.mentionsOf results) ∧
            MirrorsEach context.graph scope after.database relation operation (node :: rest) results := by
        obtain ⟨others, _, later, ran⟩ := bind_eq_ok.1 ran
        cases ran
        obtain ⟨reports, mirrors⟩ := writeJoined_reports declared leads operation spared rest (some found) state _ others
          covers.tail second.numbered (below.trans (told.next.trans second.next)) later
        have onward := (Reports.of_advances second).trans reports
        exact ⟨told.trans onward, .linked unlike (leads _) asked (fun also =>
          (onward.grows _ (Graph.mem_tables declared) also).numbers.subset (there also)) mirrors⟩
      split at ran
      · next detaches =>
        obtain ⟨_, removed, removing, ran⟩ := bind_eq_ok.1 ran
        exact goOn (JoinRows.remove_advances told.numbered (spared detaches) removing) ran
      · obtain ⟨_, added, adding, ran⟩ := bind_eq_ok.1 ran
        exact goOn (JoinRows.add_advances told.numbered adding) ran
end

/-- Nodes that are written one after the other are told of one after the other. -/
theorem writeNodes_reports {resource : Resource} (declared : resource ∈ context.graph.resources) {nodes : List Node}
    {results : List WriteResult} (numbered : work.Numbered (scope.layout context.graph))
    (covers : ∀ node ∈ nodes, scope.Covers context.graph resource node)
    (ran : (nodes.mapM (writeNode context resource [])).runOn work = (.ok results, after)) :
    Reports context.graph scope work.next work after (WriteResult.mentionsOf results) ∧
      List.Forall₂ (Mirrors context.graph scope after.database resource) nodes results := by
  induction nodes generalizing work results with
  | nil =>
    cases ran
    exact ⟨.of_advances (.refl numbered), .nil⟩
  | cons node rest ih =>
    rw [List.mapM_cons] at ran
    obtain ⟨result, middle, wrote, ran⟩ := bind_eq_ok.1 ran
    obtain ⟨others, _, later, ran⟩ := bind_eq_ok.1 ran
    cases ran
    obtain ⟨covered, coveredToo⟩ := List.forall_mem_cons.1 covers
    obtain ⟨first, mirrored⟩ :=
      writeNode_reports names generates links sound declared (by simp) node work middle result numbered covered wrote
    obtain ⟨reports, mirrors⟩ := ih first.numbered coveredToo later
    have onward := reports.mono first.next
    exact ⟨first.trans onward, .cons (mirrored.goes onward.toAdvances) mirrors⟩

end Walk

/-! ## Mutations -/

/-- Whether a column counts as written again: a link of the graph is kept in it, or a node with a key gives something to it.
What is not equal to itself counts as written again as well, be it given or there by default. -/
inductive Overwrites (graph : Graph) (resource : Resource) (nodes : List Node) (table : Table) (name : String) : Prop
  | linked {owner target : Resource} {relation : Relation} (declared : owner ∈ graph.resources)
      (listed : relation ∈ owner.relations) (declaredToo : target ∈ graph.resources) (leads : target.name ∈ relation.targets)
      (own : relation.link.carrier owner target = table) (keeper : name ∈ relation.link.keepers) :
      Overwrites graph resource nodes table name
  | filled {other : Resource} {node last : Node} {value : Value} (listed : node ∈ nodes)
      (written : IsWritten graph resource node other last) (own : other.table = table)
      (gives : (name, value) ∈ given other last.attributes) (again : ¬(keyOf other last).isNull ∨ ¬value.IsDefinite) :
      Overwrites graph resource nodes table name
  | default {column : Column} (listed : column ∈ table.columns) (own : column.name = name) (apart : name ≠ table.place)
      (odd : ¬(Value.plain column.default).IsDefinite) : Overwrites graph resource nodes table name

/-- What becomes of rows in a mutation: a table may lose some if a node that is written detaches or syncs through it. -/
def scopeOf (graph : Graph) (resource : Resource) (nodes : List Node) : Scope where
  spares table := ∀ node ∈ nodes, ∀ other last, IsWritten graph resource node other last →
    ∀ name entry, (name, entry) ∈ last.relations → ∀ relation link, other.relation? name = some relation →
      relation.link = .pivot link → entry.operation = .detach ∨ entry.operation = .sync → table.name ≠ link.table.name
  writes := Overwrites graph resource nodes

section ScopeOf

variable {graph : Graph} {resource : Resource} {nodes : List Node}

theorem covers_scopeOf {node : Node} (listed : node ∈ nodes) : (scopeOf graph resource nodes).Covers graph resource node := by
  intro other last written
  refine ⟨fun name entry among relation link known own removes table spares => ?_, fun keyed entry gives => ?_,
    fun entry gives unwritten => ?_⟩
  · exact spares node listed other last written name entry among relation link known own removes
  · exact .filled listed written rfl gives (.inl keyed)
  · by_contra odd
    exact unwritten (.filled listed written rfl gives (.inr odd))

theorem links_scopeOf : (scopeOf graph resource nodes).Links graph :=
  fun _ declared _ listed _ declaredToo leads _ keeper => .linked declared listed declaredToo leads rfl keeper

/-- Numbers are not written again. -/
theorem place_of_overwrites (generates : graph.Generates) (declared : resource ∈ graph.resources) {table : Table}
    {name : String} (overwrites : Overwrites graph resource nodes table name) : name ≠ table.place := by
  rintro rfl
  cases overwrites with
  | @linked owner target relation listed among declaredToo leads own keeper =>
    subst own
    exact generates.unlinked owner listed relation among target declaredToo leads keeper
  | @filled other node last value listed written own gives again =>
    subst own
    have declaredToo := written.declared declared
    refine generates.unfilled other declaredToo ?_
    rw [← generates.place_eq declaredToo]
    exact (Scope.mem_given.1 gives).1
  | default listed own apart odd => exact apart rfl

/-- Without records in hand, what is numbered in the storage is all that is. -/
theorem numbered_scopeOf {work : Work} (generates : graph.Generates) (declared : resource ∈ graph.resources)
    (numbers : ∀ other ∈ graph.resources, work.database.Numbers other.table) (none : work.records = []) :
    work.Numbered ((scopeOf graph resource nodes).layout graph) where
  fresh := by simp [none]
  nodup := by simp [none]
  numbered := List.forall_mem_map.2 fun _ listed => generates.isNumbered listed
  apart table _ overwrites := place_of_overwrites generates declared overwrites rfl
  defaults table _ column listed apart unwritten := by
    by_contra odd
    exact unwritten (.default listed rfl apart odd)
  numbers := List.forall_mem_map.2 numbers
  records := by simp [none]

end ScopeOf

/-- What was done with a node is told by whether it has a key. -/
theorem Mirrors.operation_eq {graph : Graph} {scope : Scope} {database : Database} {resource : Resource} {node : Node}
    {result : WriteResult} (mirrors : Mirrors graph scope database resource node result) :
    result.operation = if (keyOf resource node).isNull then "create" else "update" := by
  cases mirrors
  rfl

/-- The results that tell of new records are those of the nodes without a key, and the same goes for all others. -/
theorem keys_of_mirrors {graph : Graph} {scope : Scope} {database : Database} {resource : Resource} {nodes : List Node}
    {results : List WriteResult} (creates : Bool)
    (mirrors : List.Forall₂ (Mirrors graph scope database resource) nodes results) :
    (results.filter fun result => (result.operation == "create") == creates).map (·.key) =
      ((nodes.zip results).filter fun entry => (keyOf resource entry.1).isNull == creates).map (·.2.key) := by
  induction mirrors with
  | nil => rfl
  | @cons node result _ _ first _ ih =>
    have same : (result.operation == "create") = (keyOf resource node).isNull := by
      rw [first.operation_eq]
      cases (keyOf resource node).isNull <;> decide
    rw [List.zip_cons_cons, List.filter_cons, List.filter_cons, same]
    split
    · rw [List.map_cons, List.map_cons, ih]
    · exact ih

/-- A mutation that succeeds tells the keys of its results, by what was done. -/
theorem execute_eq_ok {context : Context} {resource : Resource} {nodes : List Node} {work after : Work} {result : MutationResult}
    (ran : (execute context resource nodes).runOn work = (.ok result, after)) :
    ∃ last, (nodes.mapM (writeNode context resource [])).runOn work = (.ok result.results, last) ∧
      after.database = last.database ∧
      result.created = (result.results.filter fun result => (result.operation == "create") == true).map (·.key) ∧
      result.updated = (result.results.filter fun result => (result.operation == "create") == false).map (·.key) := by
  rw [execute, bind_runOn, transaction_runOn] at ran
  rcases wrote : (nodes.mapM (writeNode context resource [])).runOn work with ⟨failure | results, last⟩
  · rw [wrote] at ran
    cases ran
  · rw [wrote] at ran
    cases ran
    exact ⟨last, rfl, rfl, by simp, by simp⟩

/-- The report of a mutation mirrors its nodes, and tells by their keys which records are new and which are not. In the end,
each key is that of a row that has what the node gave, where nothing is written again; unless rows of a table go as those of a
join table, the new ones have keys that no row had before. -/
theorem mirrors_of_execute {schema : Schema} {declarations : List ResourceDeclaration} {context : Context} {resource : Resource}
    {nodes : List Node} {work after : Work} {result : MutationResult}
    (built : Graph.build schema declarations = .ok context.graph) (generates : context.graph.Generates)
    (declared : resource ∈ context.graph.resources)
    (numbers : ∀ other ∈ context.graph.resources, work.database.Numbers other.table) (none : work.records = [])
    (ran : (execute context resource nodes).runOn work = (.ok result, after)) :
    List.Forall₂ (Mirrors context.graph (scopeOf context.graph resource nodes) after.database resource) nodes result.results ∧
      result.created = ((nodes.zip result.results).filter fun entry => (keyOf resource entry.1).isNull == true).map (·.2.key) ∧
      result.updated = ((nodes.zip result.results).filter fun entry => (keyOf resource entry.1).isNull == false).map (·.2.key) ∧
      ∀ other ∈ context.graph.resources, (scopeOf context.graph resource nodes).spares other.table →
        (other.created (WriteResult.mentionsOf result.results) ++ work.database.numbers other.table).Nodup := by
  obtain ⟨last, wrote, database, created, updated⟩ := execute_eq_ok ran
  obtain ⟨reports, mirrors⟩ := writeNodes_reports (Graph.names_of_build built) generates links_scopeOf
    (Graph.sound_of_build built) declared (numbered_scopeOf generates declared numbers none) (fun _ => covers_scopeOf) wrote
  rw [database]
  refine ⟨mirrors, created.trans (keys_of_mirrors true mirrors), updated.trans (keys_of_mirrors false mirrors), ?_⟩
  intro other listed spared
  have distinct := (reports.numbered.numbers _ (Graph.mem_tables listed)).nodup_numbers (generates.isNumbered listed)
  obtain ⟨_, perm, among⟩ := reports.made other listed spared
  exact perm.nodup_iff.1 (distinct.sublist among)

/-! ## Numbers that are given out again -/

namespace Tagging

def posts : Table := ⟨"posts",
  [{ name := "id", type := .integer, isKey := true, isNullable := false }, { name := "title", type := .string }]⟩

def tags : Table := ⟨"tags",
  [{ name := "id", type := .integer, isKey := true, isNullable := false }, { name := "name", type := .string }]⟩

def tagged : Table := ⟨"post_tags",
  [{ name := "id", type := .integer, isKey := true, isNullable := false }, { name := "post_id", type := .integer },
    { name := "tag_id", type := .integer }]⟩

def schema : Schema := { tables := [posts, tags, tagged] }

def options (fields : List String) : Members := [("fields", .list (fields.map Json.text))]

def declarations : List ResourceDeclaration := [
  { name := "Post", table := posts, options := options ["id", "title"], scopes := []
    relations := [
      { name := "tags", kind := .belongsToMany, targets := [.text "Tag"], pivotTable := .text "post_tags"
        foreignPivotKey := .text "post_id", relatedPivotKey := .text "tag_id" },
      { name := "links", kind := .hasMany, targets := [.text "PostTag"], foreignKey := .text "post_id" }] },
  { name := "Tag", table := tags, options := options ["id", "name"], scopes := [], relations := [] },
  { name := "PostTag", table := tagged, options := options ["id", "post_id", "tag_id"], scopes := [], relations := [] }]

/-- The links of a post to its tags, which are records of their own as well. -/
def joins : PivotLink := ⟨tagged, "post_id", "tag_id", "id", "id", none, []⟩

def post : Resource where
  name := "Post"
  table := posts
  key := "id"
  fields := ["id", "title"]
  scopes := []
  limits := [.int 10, .int 25, .int 50]
  defaultLimit := .int 50
  defaultOrder := [("id", .desc)]
  relations := [⟨"tags", .belongsToMany, ["Tag"], .pivot joins⟩,
    ⟨"links", .hasMany, ["PostTag"], .child ⟨"post_id", "id", none, none⟩⟩]
  fillable := ["title"]
  softDeletes := .bool false
  deletedAt := none
  morphAlias := .text "posts"
  gates := true

def tag : Resource :=
  { post with name := "Tag", table := tags, fields := ["id", "name"], relations := [], fillable := ["name"]
              morphAlias := .text "tags" }

def link : Resource :=
  { post with name := "PostTag", table := tagged, fields := ["id", "post_id", "tag_id"], relations := []
              fillable := ["post_id", "tag_id"], morphAlias := .text "post_tags" }

def graph : Graph := ⟨[post, tag, link]⟩

theorem graph_of_declarations : Graph.build schema declarations = .ok graph := rfl

/-- A post with one tag. -/
def database : Database :=
  ⟨[⟨posts, [[("id", .int 1), ("title", .text "a")]]⟩, ⟨tags, [[("id", .int 1), ("name", .text "t")]]⟩,
    ⟨tagged, [[("id", .int 1), ("post_id", .int 1), ("tag_id", .int 1)]]⟩]⟩

def anew : Entry := .mk .create [.mk [] [] none []]

/-- Gives the post a new tag, and a new link of its own. -/
def links : Node :=
  .mk [("id", .int 1)] [] none [("tags", .mk .create [.mk [("name", .text "u")] [] none []]), ("links", anew)]

/-- Takes the tag from the post before that. -/
def relinks : Node := .mk [("id", .int 1)] [] none [("tags", .mk .detach [.mk [("id", .int 1)] [] none []]), ("links", anew)]

theorem generates : graph.Generates := ⟨by decide, by decide, by decide⟩

theorem numbers : ∀ other ∈ graph.resources, database.Numbers other.table := by
  have each (table : Table) (stores : database.Stores table) (nodup : table.columnNames.Nodup)
      (full : ∀ row ∈ database.rows table.name, table.fullRow row = row)
      (alone : ∃ row, database.rows table.name = [row] ∧ row.cell table.place = .int 1 ∧
        ∀ entry ∈ row, entry.2 ≠ .real .notANumber) : database.Numbers table := by
    obtain ⟨row, only, one, known⟩ := alone
    refine ⟨⟨stores, nodup, full, ?_⟩, ?_, ?_⟩ <;> rw [only]
    · exact List.pairwise_singleton _ _
    · exact List.forall_mem_singleton.2 ⟨1, one⟩
    · exact List.forall_mem_singleton.2 (.of_forall known)
  simp only [graph, List.forall_mem_cons, List.not_mem_nil, false_imp_iff, implies_true, and_true]
  refine ⟨each _ ⟨_, rfl⟩ (by decide) (by decide) ⟨_, rfl, by decide, by decide⟩,
    each _ ⟨_, rfl⟩ (by decide) (by decide) ⟨_, rfl, by decide, by decide⟩,
    each _ ⟨_, rfl⟩ (by decide) (by decide) ⟨_, rfl, by decide, by decide⟩⟩

theorem creates_of_links {other : Resource} {last : Node} (written : IsWritten graph post links other last) :
    ∀ name entry, (name, entry) ∈ last.relations → entry.operation = .create := by
  have each : ∀ entry ∈ links.relations, entry.2.operation = .create ∧ ∀ child ∈ entry.2.nodes, child.relations = [] := by
    simp [links, anew, Node.relations, Entry.operation, Entry.nodes]
  cases written with
  | self => exact fun name entry listed => (each _ listed).1
  | deeper listed known creates member leads later =>
    have bare := (each _ listed).2 _ member
    cases later with
    | self => simp [bare]
    | deeper among => simp [bare] at among

theorem spares_of_links (table : Table) : (scopeOf graph post [links]).spares table := by
  intro node among other last written name entry listed relation link known own removes
  cases List.mem_singleton.1 among
  rw [creates_of_links written name entry listed] at removes
  simp at removes

/-- The new link gets a number that the one before it does not have. -/
theorem mirrors_of_links : ∃ result after,
    (execute { graph := graph } post [links]).runOn { database := database } = (.ok result, after) ∧
    List.Forall₂ (Mirrors graph (scopeOf graph post [links]) after.database post) [links] result.results ∧
    result.created = [] ∧ (link.created (WriteResult.mentionsOf result.results) ++ [Value.plain (.int 1)]).Nodup := by
  obtain ⟨result, after, ran⟩ : ∃ result after,
      (execute { graph := graph } post [links]).runOn { database := database } = (.ok result, after) := by
    have succeeds : ((execute { graph := graph } post [links]).runOn { database := database }).1.isOk = true := by
      set_option maxRecDepth 8000 in cbv
    rcases ran : (execute { graph := graph } post [links]).runOn { database := database } with ⟨failure | result, after⟩
    · rw [ran] at succeeds
      cases succeeds
    · exact ⟨result, after, rfl⟩
  obtain ⟨mirrors, created, -, accounts⟩ :=
    mirrors_of_execute graph_of_declarations generates List.mem_cons_self numbers rfl ran
  refine ⟨result, after, ran, mirrors, ?_, accounts link (by simp [graph]) (spares_of_links _)⟩
  have keyed : (keyOf post links).isNull = false := rfl
  obtain ⟨first, rest, -, -, is⟩ := List.forall₂_cons_left_iff.1 mirrors
  simp [created, is, keyed]

/-- The new link gets the number of the one that was just removed. -/
theorem number_given_again : Graph.build schema declarations = .ok graph ∧ graph.Generates ∧
    ((execute { graph := graph } post [relinks]).runOn { database := database }).1.map
      (fun result => link.created (WriteResult.mentionsOf result.results)) = .ok [.plain (.int 1)] ∧
    .plain (.int 1) ∈ database.numbers tagged := by
  refine ⟨graph_of_declarations, generates, ?_, List.mem_cons_self⟩
  set_option maxRecDepth 8000 in cbv

end Tagging

end Mutation

end ResourceApi
