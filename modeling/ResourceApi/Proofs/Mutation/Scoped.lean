import ResourceApi.Proofs.Mutation.Detached
import ResourceApi.Proofs.Mutation.Synced
import ResourceApi.Proofs.Session.Numbered

/-!
What the nodes of a mutation write of rows that are there, and how its steps go on where the keys of records are numbers that
the storage gives: records in hand stay what they are, and rows keep what no node and no link writes.
-/

namespace ResourceApi

open Outcome

/-! ## Graphs whose keys are given by the storage -/

/-- The tables of a graph. -/
def Graph.tables (graph : Graph) : List Table := graph.resources.map (·.table)

theorem Graph.mem_tables {graph : Graph} {resource : Resource} (declared : resource ∈ graph.resources) :
    resource.table ∈ graph.tables := List.mem_map_of_mem declared

/-- A graph whose resources are found by numbers that the storage gives: their keys are the columns by which rows are
placed, and no client and no link writes them. -/
structure Graph.Generates (graph : Graph) : Prop where
  placed : ∀ resource ∈ graph.resources, resource.table.placeColumn?.map (·.name) = some resource.key
  unfilled : ∀ resource ∈ graph.resources, resource.key ∉ resource.fillable
  unlinked : ∀ resource ∈ graph.resources, ∀ relation ∈ resource.relations, ∀ target ∈ graph.resources,
    target.name ∈ relation.targets → (relation.link.carrier resource target).place ∉ relation.link.keepers

namespace Graph.Generates

variable {graph : Graph} {resource : Resource} (generates : graph.Generates) (declared : resource ∈ graph.resources)
include generates declared

theorem place_eq : resource.table.place = resource.key := by
  rw [Table.place, generates.placed resource declared]
  rfl

theorem isNumbered : resource.table.IsNumbered := by
  obtain ⟨column, found, -⟩ := Option.map_eq_some_iff.1 (generates.placed resource declared)
  exact ⟨column, found⟩

end Graph.Generates

namespace Mutation

open Job

/-! ## What nodes write -/

/-- The key that a node gives to its record, null if it gives none. -/
def keyOf (resource : Resource) (node : Node) : Json := (Members.get? node.attributes resource.key).getD .null

/-- The nodes that are written with a node: the node itself, and with it the nodes of the entries that create records. -/
inductive IsWritten (graph : Graph) : Resource → Node → Resource → Node → Prop
  | self {resource : Resource} {node : Node} : IsWritten graph resource node resource node
  | deeper {resource target other : Resource} {node child last : Node} {name : String} {entry : Entry} {relation : Relation}
      (listed : (name, entry) ∈ node.relations) (known : resource.relation? name = some relation)
      (creates : entry.operation = .create) (member : child ∈ entry.nodes)
      (leads : targetOf graph relation child.resource = .ok target) (later : IsWritten graph target child other last) :
      IsWritten graph resource node other last

theorem IsWritten.declared {graph : Graph} {resource other : Resource} {node last : Node}
    (written : IsWritten graph resource node other last) (declared : resource ∈ graph.resources) : other ∈ graph.resources := by
  induction written with
  | self => exact declared
  | deeper listed known creates member leads later ih => exact ih (mem_of_targetOf leads)

/-- What becomes of rows that are there: the tables that lose none, and the columns that are written. -/
structure Scope where
  spares : Table → Prop
  writes : Table → String → Prop

namespace Scope

def layout (scope : Scope) (graph : Graph) : Layout := ⟨graph.tables, scope.writes⟩

/-- Whether an entry of a resource has no rows of tables that are spared removed as those of a join table. -/
def Spared (scope : Scope) (resource : Resource) (name : String) (operation : Operation) : Prop :=
  ∀ relation link, resource.relation? name = some relation → relation.link = .pivot link →
    operation = .detach ∨ operation = .sync → ∀ table, scope.spares table → table.name ≠ link.table.name

/-- Whether a node that is written keeps to a scope: its entries remove no rows that are spared, what it gives to a row that
is there goes to columns that are written, and so does what is not equal to itself. -/
structure Admits (scope : Scope) (resource : Resource) (node : Node) : Prop where
  spared : ∀ name entry, (name, entry) ∈ node.relations → scope.Spared resource name entry.operation
  written : ¬(keyOf resource node).isNull → ∀ entry ∈ given resource node.attributes, scope.writes resource.table entry.1
  definite : ∀ entry ∈ given resource node.attributes, ¬scope.writes resource.table entry.1 → entry.2.IsDefinite

/-- Whether all nodes that are written with a node keep to a scope. -/
def Covers (scope : Scope) (graph : Graph) (resource : Resource) (node : Node) : Prop :=
  ∀ other last, IsWritten graph resource node other last → scope.Admits other last

/-- Whether all nodes that are written below a relation keep to a scope. -/
def CoversNodes (scope : Scope) (graph : Graph) (relation : Relation) (operation : Operation) (nodes : List Node) : Prop :=
  operation = .create → ∀ child ∈ nodes, ∀ target, targetOf graph relation child.resource = .ok target →
    scope.Covers graph target child

/-- Whether what an entry of a resource does keeps to a scope. -/
structure CoversEntry (scope : Scope) (graph : Graph) (resource : Resource) (name : String) (entry : Entry) : Prop where
  spared : scope.Spared resource name entry.operation
  nodes : ∀ relation, resource.relation? name = some relation →
    scope.CoversNodes graph relation entry.operation entry.nodes

/-- Whether the columns by which links are kept count as written. -/
def Links (scope : Scope) (graph : Graph) : Prop :=
  ∀ resource ∈ graph.resources, ∀ relation ∈ resource.relations, ∀ target ∈ graph.resources, target.name ∈ relation.targets →
    ∀ name ∈ relation.link.keepers, scope.writes (relation.link.carrier resource target) name

/-- Whether the row of a key has what a node gives to the columns that are not written otherwise; null stands for what is
there by default. -/
def Holds (scope : Scope) (resource : Resource) (node : Node) (key : Value) (database : Database) : Prop :=
  ∃ row ∈ database.rows resource.table.name, .plain (row.cell resource.table.place).json = key ∧
    ∀ column ∈ resource.table.columns, column.name ∈ resource.fillable → ¬scope.writes resource.table column.name →
      ∀ j, Members.get? node.attributes column.name = some j →
        column.Bears (if j.isNull then .plain column.default else .plain j) (row.cell column.name)

variable {scope : Scope} {graph : Graph} {resource : Resource} {node : Node} {key : Value}

theorem Holds.grows {before after : Database} (holds : scope.Holds resource node key before)
    (numbered : resource.table.IsNumbered) (apart : ¬scope.writes resource.table resource.table.place)
    (grows : before.Grows scope.writes resource.table after) : scope.Holds resource node key after := by
  obtain ⟨row, there, number, given⟩ := holds
  obtain ⟨now, still, same⟩ := grows.rows row there
  obtain ⟨place, found⟩ := numbered
  refine ⟨now, still, ?_, fun column listed fillable unwritten j gives => ?_⟩
  · rw [Table.place_of_placeColumn? found] at apart number ⊢
    rw [same place (Table.placeColumn?_eq_some found).1 apart, number]
  · rw [same column listed unwritten]
    exact given column listed fillable unwritten j gives

theorem Covers.self (covers : scope.Covers graph resource node) : scope.Admits resource node := covers _ _ .self

theorem Covers.entries (covers : scope.Covers graph resource node) :
    ∀ entry ∈ node.relations, scope.CoversEntry graph resource entry.1 entry.2 := fun entry listed =>
  ⟨covers.self.spared entry.1 entry.2 listed, fun _ known creates _ member _ leads other last written =>
    covers other last (.deeper listed known creates member leads written)⟩

theorem CoversNodes.head {relation : Relation} {target : Resource} {rest : List Node}
    (covers : scope.CoversNodes graph relation .create (node :: rest))
    (leads : targetOf graph relation node.resource = .ok target) : scope.Covers graph target node :=
  covers rfl node List.mem_cons_self target leads

theorem CoversNodes.tail {relation : Relation} {operation : Operation} {rest : List Node}
    (covers : scope.CoversNodes graph relation operation (node :: rest)) : scope.CoversNodes graph relation operation rest :=
  fun creates child member => covers creates child (List.mem_cons_of_mem _ member)

theorem mem_given {attributes : Members} {name : String} {value : Value} : (name, value) ∈ given resource attributes ↔
    name ∈ resource.fillable ∧ ∃ j, Members.get? attributes name = some j ∧ .plain j = value := by
  rw [given, List.mem_filterMap]
  constructor
  · rintro ⟨field, fillable, gives⟩
    obtain ⟨j, told, same⟩ := Option.map_eq_some_iff.1 gives
    obtain ⟨rfl, rfl⟩ := Prod.mk.inj same
    exact ⟨fillable, j, told, rfl⟩
  · rintro ⟨fillable, j, told, rfl⟩
    exact ⟨name, fillable, by rw [told, Option.map_some]⟩

theorem lookup_given {attributes : Members} {name : String} {j : Json} (fillable : name ∈ resource.fillable)
    (gives : Members.get? attributes name = some j) :
    (given resource attributes).reverse.lookup name = some (.plain j) := by
  cases found : (given resource attributes).reverse.lookup name with
  | none =>
    have listed := mem_given.2 ⟨fillable, j, gives, rfl⟩
    simpa using List.lookup_eq_none_iff.1 found _ (List.mem_reverse.2 listed)
  | some value =>
    obtain ⟨-, other, told, rfl⟩ := mem_given.1 (List.mem_reverse.1 (mem_of_lookup found))
    cases told.symm.trans gives
    rfl

/-- The row that was added for a node has what the node gives. -/
theorem holds_of_bears {record : Record} {link : Values} {database : Database} (own : record.table = resource.table)
    (unfilled : resource.table.place ∉ resource.fillable) (linked : ∀ entry ∈ link, scope.writes resource.table entry.1)
    (bears : Bears (record.setAll (given resource node.attributes ++ link)) database key) :
    scope.Holds resource node key database := by
  obtain ⟨row, there, number, each⟩ := bears
  rw [Record.table_setAll, own] at there number each
  refine ⟨row, there, number, fun column listed fillable unwritten j gives => ?_⟩
  have unlinked : link.reverse.lookup column.name = none :=
    lookup_eq_none.2 fun entry inside same => unwritten (same ▸ linked entry (List.mem_reverse.1 inside))
  have value : (record.setAll (given resource node.attributes ++ link)).value column.name = .plain j := by
    rw [Record.value, Record.value?_setAll, List.reverse_append, List.lookup_append, unlinked, Option.none_or,
      lookup_given fillable gives]
    rfl
  have bears := each column listed fun place => unfilled (place ▸ fillable)
  have null : (Value.plain j).isNull = j.isNull := by cases j <;> rfl
  rwa [newValue, value, null] at bears

/-- The row of a node that asks for it is there. -/
theorem holds_of_mem {database : Database}
    (written : ∀ entry ∈ given resource node.attributes, scope.writes resource.table entry.1)
    (there : key ∈ database.numbers resource.table) : scope.Holds resource node key database := by
  obtain ⟨row, inside, number⟩ := List.mem_map.1 there
  exact ⟨row, inside, number, fun column _ fillable unwritten j gives =>
    absurd (written _ (mem_given.2 ⟨fillable, j, gives, rfl⟩)) unwritten⟩

end Scope

/-! ## Steps -/

section Steps

variable {context : Context} {resource owner target : Resource} {work after : Work} {number bound : Nat} {spares : Table → Prop}

/-- Whether a record of a resource is in hand. -/
def Has (work : Work) (number : Nat) (resource : Resource) : Prop :=
  ∃ record, work.records.lookup number = some record ∧ record.table = resource.table

/-- Whether a stored record of a resource is in hand, with its key. -/
def Knows (work : Work) (number : Nat) (resource : Resource) (key : Value) : Prop :=
  ∃ record, work.records.lookup number = some record ∧ record.table = resource.table ∧ record.isStored = true ∧
    record.value? resource.table.place = some key

/-- Whether a new record of a resource is in hand. -/
def IsNew (work : Work) (number : Nat) (resource : Resource) : Prop :=
  ∃ record, work.records.lookup number = some record ∧ record.table = resource.table ∧ record.isStored = false

theorem Knows.has {key : Value} (knows : Knows work number resource key) : Has work number resource := by
  obtain ⟨record, found, table, -⟩ := knows
  exact ⟨record, found, table⟩

theorem IsNew.has (new : IsNew work number resource) : Has work number resource := by
  obtain ⟨record, found, table, -⟩ := new
  exact ⟨record, found, table⟩

variable {layout : Layout}

theorem Has.advances (has : Has work number resource) (advances : work.Advances layout bound spares after)
    (below : number < bound) : Has after number resource := by
  obtain ⟨record, found, table⟩ := has
  obtain ⟨now, there, lasts⟩ := advances.lasts number below record found
  exact ⟨now, there, lasts.table.trans table⟩

theorem Knows.advances {key : Value} (knows : Knows work number resource key)
    (advances : work.Advances layout bound spares after) (below : number < bound) : Knows after number resource key := by
  obtain ⟨record, found, table, stored, value⟩ := knows
  obtain ⟨now, there, lasts⟩ := advances.lasts number below record found
  refine ⟨now, there, lasts.table.trans table, lasts.isStored.trans stored, ?_⟩
  rw [← table, lasts.number, table, value]

theorem IsNew.advances (new : IsNew work number resource) (advances : work.Advances layout bound spares after)
    (below : number < bound) : IsNew after number resource := by
  obtain ⟨record, found, table, stored⟩ := new
  obtain ⟨now, there, lasts⟩ := advances.lasts number below record found
  exact ⟨now, there, lasts.table.trans table, lasts.isStored.trans stored⟩

theorem Has.lt (has : Has work number resource) (numbered : work.Numbered layout) : number < work.next := by
  obtain ⟨record, found, -⟩ := has
  exact numbered.lt found

variable (numbered : work.Numbered layout)
include numbered

theorem alike_advances (alike : work.Alike after) : work.Advances layout bound spares after := by
  obtain ⟨_, _, rfl⟩ := alike
  exact ⟨⟨numbered.fresh, numbered.nodup, numbered.numbered, numbered.apart, numbered.defaults, numbered.numbers,
    numbered.records⟩, le_rfl, fun _ _ record found => ⟨record, found, .refl record⟩, fun _ _ _ => .refl _⟩

/-- Values for columns that are written are set in a record. -/
theorem setValues_advances {values : Values} (has : Has work number resource)
    (written : ∀ entry ∈ values, layout.writes resource.table entry.1)
    (ran : (setValues number values).runOn work = (.ok (), after)) : work.Advances layout bound spares after := by
  obtain ⟨record, found, table⟩ := has
  obtain ⟨listed, -⟩ := numbered.records _ (mem_of_lookup found)
  rw [← table] at written
  refine Job.setValues_advances numbered found ⟨fun entry given same => ?_, fun _ => written, fun entry given unwritten => ?_⟩ ran
  · exact numbered.apart _ listed (same ▸ written entry given)
  · exact absurd (written entry given) unwritten

/-- A stored record to which values are given is written under its key. -/
theorem writeOld_advances {values : Values} {key : Value} {set : Work} (knows : Knows work number resource key)
    (written : ∀ entry ∈ values, layout.writes resource.table entry.1)
    (setGiven : (setValues number values).runOn work = (.ok (), set))
    (wrote : (flush number).runOn set = (.ok (), after)) :
    work.Advances layout bound spares after ∧ Knows after number resource key := by
  have early (bound : Nat) : work.Advances layout bound spares set := setValues_advances numbered knows.has written setGiven
  have late (bound : Nat) : work.Advances layout bound spares after := by
    obtain ⟨record, there, -, stored, -⟩ := knows.advances (early (number + 1)) (Nat.lt_succ_self number)
    exact (early bound).trans (flush_advances (early bound).numbered there stored wrote)
  exact ⟨late bound, knows.advances (late (number + 1)) (Nat.lt_succ_self number)⟩

/-- A new record to which values are given gets a row, and a key that no row had. -/
theorem writeNew_advances {values : Values} {set : Work} (new : IsNew work number resource)
    (apart : ∀ entry ∈ values, entry.1 ≠ resource.table.place)
    (definite : ∀ entry ∈ values, ¬layout.writes resource.table entry.1 → entry.2.IsDefinite)
    (setGiven : (setValues number values).runOn work = (.ok (), set))
    (wrote : (flush number).runOn set = (.ok (), after)) :
    work.Advances layout number spares after ∧ ∃ n, ∃ record : Record, record.table = resource.table ∧
      Knows after number resource (.plain (.int n)) ∧
      (.plain (.int n) :: work.database.numbers resource.table).Subperm (after.database.numbers resource.table) ∧
      Bears (record.setAll values) after.database (.plain (.int n)) := by
  obtain ⟨record, found, table, new⟩ := new
  rw [← table] at apart definite
  have early : work.Advances layout number (fun _ => True) set :=
    Job.setValues_advances numbered found ⟨apart, fun stored => absurd (new.symm.trans stored) (by decide), definite⟩ setGiven
  obtain ⟨held, database⟩ : set.records.lookup number = some (record.setAll values) ∧ set.database = work.database := by
    rw [setValues, bind_runOn, record_runOn found] at setGiven
    cases setGiven
    exact ⟨lookup_replace_same found _, rfl⟩
  obtain ⟨late, n, now, still, own, kept, value, grown, bears⟩ :=
    flush_new_advances early.numbered held (Record.isStored_setAll.trans new) wrote
  rw [Record.table_setAll, table] at own value grown
  rw [database] at grown
  exact ⟨(early.mono le_rfl fun _ _ => trivial).trans late, n, record, table, ⟨now, still, own, kept, value⟩, grown, bears⟩

/-- A record that was found stays in hand when the one before it goes. -/
theorem replace_advances {start : Nat} {old : Option Nat} {new : Nat} {key : Value} (knows : Knows work new resource key)
    (ran : (replace start old new).runOn work = (.ok (), after)) :
    work.Advances layout start spares after ∧ Knows after new resource key := by
  unfold replace at ran
  split at ran
  · next old =>
    split at ran
    · next goes =>
      simp only [Bool.and_eq_true, decide_eq_true_eq] at goes
      obtain ⟨high, other⟩ := goes
      cases ran
      have advances : work.Advances layout start spares { work with records := work.records.filter (·.1 != old) } :=
        numbered.advances_filter (· != old) fun number below => by simpa using Nat.ne_of_lt (below.trans_le high)
      obtain ⟨record, found, known⟩ := knows
      refine ⟨advances, record, ?_, known⟩
      rw [← found]
      exact Work.lookup_filter (· != old) (by simpa using other.symm)
    · cases ran
      exact ⟨.refl numbered, knows⟩
  · cases ran
    exact ⟨.refl numbered, knows⟩

omit numbered in
theorem Knows.resultOf_runOn {key : Value} (knows : Knows work number resource key)
    (placed : resource.table.place = resource.key) (operation : String) (relations : List (String × List WriteResult)) :
    ∃ attributes, (resultOf resource number operation relations).runOn work =
      (.ok (.mk resource.name operation key attributes relations), work) := by
  obtain ⟨record, found, -, -, value⟩ := knows
  have is : record.value resource.key = key := by rw [Record.value, ← placed, value, Option.getD_some]
  exact ⟨record.inOrder, is ▸ Mutation.resultOf_runOn resource operation relations found⟩

/-- A record that is found, and may be used, has the key that it was looked for by. -/
theorem findFor_advances {action : Action} {key : Json} {withDeleted : Bool} (listed : target.table ∈ layout.tables)
    (placed : target.table.place = target.key)
    (ran : (findFor context action target key withDeleted).runOn work = (.ok number, after)) :
    work.Advances layout bound spares after ∧ ∃ value, Knows after number target value ∧ value.IsFor key ∧
      value ∈ after.database.numbers target.table := by
  obtain ⟨_, found, looked, ran⟩ := bind_eq_ok.1 ran
  obtain ⟨early, value, record, there, table, stored, held, asked, present⟩ :=
    find_advances numbered listed placed.symm looked
  rw [bind_runOn, keyOf_runOn target there] at ran
  dsimp only at ran
  obtain ⟨_, _, allowed, ran⟩ := bind_eq_ok.1 ran
  cases ran
  have alike := authorize_eq_ok allowed
  refine ⟨early.trans (alike_advances early.numbered alike), value, ⟨record, ?_, table, stored, held⟩, asked, ?_⟩
  · rw [alike.records, there]
  · rw [alike.database]
    exact present

/-- The record of a node without a key is a new one. -/
theorem takeNew_advances {key : Json} (listed : resource.table ∈ layout.tables) (null : key.isNull = true)
    (ran : (takeRecord context resource key).runOn work = (.ok number, after)) :
    work.Advances layout bound spares after ∧ number = work.next ∧ IsNew after number resource := by
  rw [takeRecord, if_pos null] at ran
  obtain ⟨_, middle, allowed, took⟩ := bind_eq_ok.1 ran
  have alike := authorize_eq_ok allowed
  have early : work.Advances layout bound spares middle := alike_advances numbered alike
  cases took
  refine ⟨early.trans (early.numbered.advances_take listed (Record.isNumbered_new _)), alike.next,
    Record.new resource.table, ?_, rfl, rfl⟩
  have absent : middle.records.lookup middle.next = none :=
    lookup_eq_none.2 fun entry before => Nat.ne_of_lt (early.numbered.fresh entry before)
  simp [List.lookup_append, absent]

/-- The record of a node with a key is the one of that key. -/
theorem takeOld_advances {key : Json} (listed : resource.table ∈ layout.tables) (placed : resource.table.place = resource.key)
    (keyed : ¬key.isNull = true) (ran : (takeRecord context resource key).runOn work = (.ok number, after)) :
    work.Advances layout bound spares after ∧ ∃ value, Knows after number resource value ∧ value.IsFor key ∧
      value ∈ after.database.numbers resource.table := by
  rw [takeRecord, if_neg keyed] at ran
  exact findFor_advances numbered listed placed ran

/-- The rows that no node asked for are removed from one table. -/
theorem dropStale_advances {rows : JoinRows} {stale : List Value} {start : Nat} (listed : target.table ∈ layout.tables)
    (placed : target.table.place = target.key) (spared : ∀ table, spares table → table.name ≠ rows.link.table.name)
    (ran : (dropStale context target rows stale start).runOn work = (.ok (), after)) :
    work.Advances layout start spares after := by
  rw [dropStale] at ran
  split at ran
  · cases ran
    exact .refl numbered
  obtain ⟨_, middle, looked, ran⟩ := bind_eq_ok.1 ran
  have early : work.Advances layout start spares middle := by
    refine (ComesTo.forIn (fun _ _ state => work.Advances layout start spares state)
      (.refl numbered) ?_ : ComesTo _ work (fun _ state => _) fun _ _ => True).1 _ _ looked
    rintro - key - last before - so
    refine ⟨fun step state ran => ?_, fun _ _ _ => trivial⟩
    obtain ⟨number, found, searched, ran⟩ := bind_eq_ok.1 ran
    obtain ⟨one, value, record, there, table, stored, held, -, -⟩ := find_advances so.numbered listed placed.symm searched
    obtain ⟨_, left, replaced, ran⟩ := bind_eq_ok.1 ran
    obtain ⟨two, knows⟩ := replace_advances one.numbered ⟨record, there, table, stored, held⟩ replaced
    obtain ⟨kept, inHand, -⟩ := knows
    rw [bind_runOn, keyOf_runOn target inHand] at ran
    dsimp only at ran
    obtain ⟨_, _, allowed, ran⟩ := bind_eq_ok.1 ran
    cases ran
    exact ⟨_, rfl, so.trans (one.trans (two.trans (alike_advances two.numbered (authorize_eq_ok allowed))))⟩
  exact early.trans (JoinRows.remove_advances early.numbered spared ran)

end Steps

end Mutation

end ResourceApi
