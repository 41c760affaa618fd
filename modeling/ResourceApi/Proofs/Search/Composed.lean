import Mathlib.Data.Multiset.Bind
import ResourceApi.Proofs.Query.Unordered
import ResourceApi.Proofs.Search.Measured
import ResourceApi.Proofs.Search.Precedence

/-!
Relations through a table. A relation through a table leads to the same records as the path of two relations, to a resource
on that table and on from it, as long as that resource marks none of the rows in between as deleted; and measures over the
one are those over the other.
-/

namespace ResourceApi

open Outcome Query

/-! ## Results that agree -/

/-- Results that are both there and related, or both missing for one reason. -/
def Outcome.Parallel {α β : Type} (r : α → β → Prop) : Except Failure α → Except Failure β → Prop
  | .ok a, .ok b => r a b
  | .error failure, .error other => failure = other
  | _, _ => False

namespace Outcome.Parallel

variable {α β γ δ : Type} {r : α → β → Prop} {s : γ → δ → Prop} {first : Except Failure α} {second : Except Failure β}

theorem bind {f : α → Except Failure γ} {g : β → Except Failure δ} (parallel : Parallel r first second)
    (next : ∀ a b, r a b → Parallel s (f a) (g b)) : Parallel s (first >>= f) (second >>= g) := by
  cases first <;> cases second
  · exact parallel
  · exact parallel.elim
  · exact parallel.elim
  · exact next _ _ parallel

/-- What is so of two results whenever both are there. -/
theorem of_ok {t : α → β → Prop} (parallel : Parallel r first second)
    (both : ∀ a b, first = .ok a → second = .ok b → t a b) : Parallel t first second := by
  cases first <;> cases second
  · exact parallel
  · exact parallel.elim
  · exact parallel.elim
  · exact both _ _ rfl rfl

theorem same (result : Except Failure α) : Parallel Eq result result := by
  cases result <;> exact rfl

theorem mapM {f : α → Except Failure γ} {g : α → Except Failure δ} {items : List α}
    (each : ∀ item, Parallel (fun _ _ => True) (f item) (g item)) :
    Parallel (fun _ _ => True) (items.mapM f) (items.mapM g) := by
  induction items with
  | nil => trivial
  | cons item rest ih =>
    rw [List.mapM_cons, List.mapM_cons]
    exact (each item).bind fun _ _ _ => ih.bind fun _ _ _ => trivial

end Outcome.Parallel

/-! ## Places in queries

Whether a part of a query can be made does not depend on the places at which its tables stand. -/

theorem Cond.ofComparison_parallel (comparison : Comparison) (column other : ColumnRef) (value : Json) :
    Parallel (fun _ _ => True) (ofComparison comparison column value) (ofComparison comparison other value) := by
  cases comparison <;> cases value <;> trivial

namespace RelatedPath

variable {graph : Graph}

private theorem extend_parallel {path other : RelatedPath} (same : path.last = other.last) (width : Nat)
    (hops : List (Resource × Relation)) :
    Parallel (fun joined joinedToo => joined.last = joinedToo.last) (extend graph path width hops)
      (extend graph other width hops) := by
  induction hops generalizing path other width with
  | nil => exact same
  | cons hop rest ih =>
    refine (Parallel.same (Related.single graph hop.1 hop.2 width)).bind ?_
    rintro next _ rfl
    refine ih ?_ _
    rfl

theorem ofHops_parallel (table : Table) (slot other : Nat) (hops : List (Resource × Relation)) :
    Parallel (fun joined joinedToo => joined.last = joinedToo.last) (ofHops graph table slot hops)
      (ofHops graph table other hops) := by
  cases hops with
  | nil => rfl
  | cons hop rest =>
    refine (Parallel.same (Related.single graph hop.1 hop.2 0)).bind ?_
    rintro first _ rfl
    have linked : Parallel (fun _ _ => True) (first.correlated table 1 slot) (first.correlated table 1 other) :=
      (Parallel.mapM fun _ => Cond.ofComparison_parallel _ _ _ _).bind fun _ _ _ => trivial
    refine linked.bind fun _ _ _ => extend_parallel ?_ _ _
    rfl

end RelatedPath

namespace Plan

variable {graph : Graph} {resource : Resource}

theorem ownColumn_parallel (slot other : Nat) (name : String) :
    Parallel (fun _ _ => True) (ownColumn resource slot name) (ownColumn resource other name) := by
  unfold ownColumn
  split <;> trivial

private theorem leafCondition_parallel (slot other : Nat) (field : Option String) (operator : String) (value : Json) :
    Parallel (fun _ _ => True) (leafCondition graph resource slot field operator value)
      (leafCondition graph resource other field operator value) := by
  unfold leafCondition
  split
  · split
    · exact (ownColumn_parallel slot other _).bind fun _ _ _ => Cond.ofComparison_parallel _ _ _ _
    · refine (Parallel.same (graph.hops resource _)).bind ?_
      rintro hops _ rfl
      refine (RelatedPath.ofHops_parallel _ slot other hops).bind fun joined joinedToo same => ?_
      rw [same]
      refine (Parallel.same _).bind ?_
      rintro column _ rfl
      exact (Parallel.same _).bind fun _ _ _ => trivial
  · rfl

mutual
private theorem filterCondition_parallel (slot other : Nat) : ∀ filter : Filter,
    Parallel (fun condition conditionToo => condition = none ↔ conditionToo = none)
      (filterCondition graph resource slot filter) (filterCondition graph resource other filter)
  | ⟨_, _, _, _, some filters⟩ => by
    rw [filterCondition, filterCondition]
    refine (filterConditions_parallel slot other filters).bind fun conditions others same => ?_
    change combine conditions = none ↔ combine others = none
    rw [combine_eq_none_iff, combine_eq_none_iff, same]
  | ⟨field, operator, value, _, none⟩ => by
    rw [filterCondition, filterCondition]
    exact (leafCondition_parallel slot other field operator value).bind fun _ _ _ =>
      iff_of_false (Option.some_ne_none _) (Option.some_ne_none _)
termination_by structural filter => filter

private theorem filterConditions_parallel (slot other : Nat) : ∀ filters : List Filter,
    Parallel (fun conditions others => conditions = [] ↔ others = []) (filterConditions graph resource slot filters)
      (filterConditions graph resource other filters)
  | [] => Iff.rfl
  | filter :: rest => by
    rw [filterConditions, filterConditions]
    refine (filterCondition_parallel slot other filter).bind fun condition conditionToo same => ?_
    have further := filterConditions_parallel slot other rest
    cases condition with
    | none =>
      obtain rfl := same.1 rfl
      exact further
    | some condition =>
      cases conditionToo with
      | none => exact absurd (same.2 rfl) (Option.some_ne_none _)
      | some conditionToo =>
        exact further.bind fun _ _ _ => iff_of_false (List.cons_ne_nil _ _) (List.cons_ne_nil _ _)
termination_by structural filters => filters
end

theorem filtersCondition_parallel (slot other : Nat) (filters : List Filter) :
    Parallel (fun _ _ => True) (filtersCondition graph resource slot filters)
      (filtersCondition graph resource other filters) :=
  (filterConditions_parallel slot other filters).bind fun _ _ _ => trivial

theorem argument_parallel {related other : Related} (same : related.target = other.target) (measure : Measure)
    (field : Option String) : Parallel (fun _ _ => True) (argument related measure field) (argument other measure field) := by
  cases measure with
  | presence | count => trivial
  | min | max | avg | sum =>
    cases field with
    | none => rfl
    | some name =>
      have found : Parallel (fun _ _ => True) (ownColumn related.target related.slot name)
          (ownColumn other.target other.slot name) := same ▸ ownColumn_parallel related.slot other.slot name
      exact found.bind fun _ _ _ => trivial

end Plan

/-! ## Records through a table -/

private theorem flatMap_swap {α β γ : Type} (firsts : List α) (seconds : List β) (f : α → β → List γ) :
    (firsts.flatMap fun a => seconds.flatMap fun b => f a b).Perm
      (seconds.flatMap fun b => firsts.flatMap fun a => f a b) := by
  have swapped := Multiset.bind_bind (f := fun a b => (f a b : Multiset γ)) (firsts : Multiset α) (seconds : Multiset β)
  simp only [Multiset.coe_bind] at swapped
  exact Multiset.coe_eq_coe.1 swapped

/-- A relation through a table, and two others that lead the same way: to a resource on that table by the first keys, and on
from it to the target by the second keys. -/
structure Graph.Composes (graph : Graph) (owner middle target : Resource) (link : ThroughLink)
    (through first second : Relation) : Prop where
  owner_mem : owner ∈ graph.resources
  middle_mem : middle ∈ graph.resources
  through_mem : through ∈ owner.relations
  first_mem : first ∈ owner.relations
  second_mem : second ∈ middle.relations
  through_target : graph.target through = .ok target
  first_target : graph.target first = .ok middle
  second_target : graph.target second = .ok target
  table : middle.table = link.table
  through_link : through.link = .through link
  first_link : first.link = .child { foreignKey := link.firstKey, localKey := link.localKey }
  second_link : second.link = .child { foreignKey := link.secondKey, localKey := link.secondLocalKey }

namespace Graph.Composes

variable {graph : Graph} {owner middle target : Resource} {link : ThroughLink} {through first second : Relation}
  {rows : String → List Row} {record : Row}

/-- The rows in between that belong to a record. -/
def between (link : ThroughLink) (rows : String → List Row) (owner : Resource) (record : Row) : List Row :=
  (rows link.table.name).filter fun row => link.table.agrees row link.firstKey owner.table record link.localKey

/-- The records of the target that belong to a row in between. -/
def behind (link : ThroughLink) (rows : String → List Row) (target : Resource) (row : Row) : List Row :=
  (rows target.table.name).filter fun found =>
    target.table.agrees found link.secondKey link.table row link.secondLocalKey && target.isLive found

variable (composes : graph.Composes owner middle target link through first second)
include composes

/-- The path leads to the records behind those rows in between that are not marked as deleted. -/
theorem reached_path : graph.reached rows [(owner, first), (middle, second)] record =
    ((between link rows owner record).filter middle.isLive).flatMap (behind link rows target) := by
  have last (row : Row) : graph.reached rows [(middle, second)] row = behind link rows target row := by
    simp only [reached, composes.second_target, composes.second_link, Link.related, Link.frames, Link.ties, Link.leadsTo,
      Link.accepts, Link.isOfType, Link.picks, behind, composes.table]
    simp [List.filter_map, Function.comp_def, List.flatMap_map]
  rw [reached, composes.first_target]
  simp only [last, composes.first_link, Link.related, Link.frames, Link.ties, Link.leadsTo,
    Link.accepts, Link.isOfType, Link.picks, between, composes.table]
  simp [List.filter_map, Function.comp_def, List.flatMap_map, List.filter_filter, Bool.and_comm]

/-- The relation leads to the records behind all rows in between, in an order of its own. -/
theorem reached_through : (graph.reached rows [(owner, through)] record).Perm
    ((between link rows owner record).flatMap (behind link rows target)) := by
  have found : graph.reached rows [(owner, through)] record = (rows target.table.name).flatMap fun found =>
      (rows link.table.name).flatMap fun row =>
        if link.table.agrees row link.firstKey owner.table record link.localKey &&
          (target.table.agrees found link.secondKey link.table row link.secondLocalKey && target.isLive found)
        then [found] else [] := by
    simp only [reached, composes.through_target, composes.through_link, Link.related, Link.frames, flatMap_filter,
      List.flatMap_assoc, List.flatMap_map]
    refine List.flatMap_congr fun found _ => List.flatMap_congr fun row _ => ?_
    by_cases tied : target.table.agrees found link.secondKey link.table row link.secondLocalKey <;>
      simp [Link.ties, Link.leadsTo, Link.accepts, Link.isOfType, Link.picks, tied]
  have behindAll : (between link rows owner record).flatMap (behind link rows target) =
      (rows link.table.name).flatMap fun row => (rows target.table.name).flatMap fun found =>
        if link.table.agrees row link.firstKey owner.table record link.localKey &&
          (target.table.agrees found link.secondKey link.table row link.secondLocalKey && target.isLive found)
        then [found] else [] := by
    rw [between, flatMap_filter]
    refine List.flatMap_congr fun row _ => ?_
    rw [behind, ← List.flatMap_singleton' (List.filter _ _), flatMap_filter]
    cases link.table.agrees row link.firstKey owner.table record link.localKey <;> simp
  rw [found, behindAll]
  exact flatMap_swap _ _ _

/-- The records of the target behind rows in between that are marked as deleted. -/
def missed (link : ThroughLink) (rows : String → List Row) (owner middle target : Resource) (record : Row) : List Row :=
  ((between link rows owner record).filter (!middle.isLive ·)).flatMap (behind link rows target)

/-- The relation leads to the records that the path leads to, and to those behind deleted rows in between. -/
theorem reached_perm : (graph.reached rows [(owner, through)] record).Perm
    (graph.reached rows [(owner, first), (middle, second)] record ++ missed link rows owner middle target record) := by
  rw [composes.reached_path, missed, ← List.flatMap_append]
  exact composes.reached_through.trans ((List.filter_append_perm _ _).symm.flatMap_right _)

end Graph.Composes

/-- A steady measure is the same for the records in another order. -/
theorem Measure.taken_perm {measure : Measure} {table : Table} {field : Option String} {records others : List Row}
    (steady : measure.IsSteady (records.map (·.cell (field.getD "")))) (same : records.Perm others) :
    measure.taken table field records = measure.taken table field others := by
  have cells := measured_perm steady (same.map (·.cell (field.getD "")))
  cases measure with
  | count => simp only [taken, same.length_eq]
  | presence => simp only [taken, same.isEmpty_eq]
  | min | max | avg | sum => simp only [taken, cells]

/-! ## Measures through a table -/

namespace Plan

section Composed

variable {schema : Schema} {declarations : List ResourceDeclaration} {graph : Graph} {owner middle target : Resource}
  {link : ThroughLink} {through first second : Relation}

/-- A relation whose link is not kept by the record itself has one target. -/
private theorem nestable_of_place {relation : Relation} (sound : relation.Sound graph owner)
    (apart : relation.link.place ≠ .parent) : relation.isNestable := by
  rw [sound.placed] at apart
  cases same : relation.kind <;> simp_all [Relation.isNestable, Kind.isNestable, Kind.linkPlace]

variable (sound : graph.Sound) (composes : graph.Composes owner middle target link through first second)
include sound composes

private theorem nestable_all : through.isNestable ∧ first.isNestable ∧ second.isNestable := by
  refine ⟨nestable_of_place ((sound _ composes.owner_mem).relations _ composes.through_mem) ?_,
    nestable_of_place ((sound _ composes.owner_mem).relations _ composes.first_mem) ?_,
    nestable_of_place ((sound _ composes.middle_mem).relations _ composes.second_mem) ?_⟩
  · simp [composes.through_link, Link.place]
  · simp [composes.first_link, Link.place]
  · simp [composes.second_link, Link.place]

private theorem ofHops_through (table : Table) (slot : Nat) :
    ∃ joined, RelatedPath.ofHops graph table slot [(owner, through)] = .ok joined ∧ joined.last.target = target := by
  obtain ⟨nestable, -, -⟩ := nestable_all sound composes
  simp only [RelatedPath.ofHops, Related.single_eq nestable, composes.through_target, ok_bind, Related.ofTarget,
    composes.through_link]
  exact ⟨_, rfl, rfl⟩

private theorem ofHops_path (table : Table) (slot : Nat) :
    ∃ joined, RelatedPath.ofHops graph table slot [(owner, first), (middle, second)] = .ok joined ∧
      joined.last.target = target := by
  obtain ⟨-, nestable, nestableToo⟩ := nestable_all sound composes
  simp only [RelatedPath.ofHops, RelatedPath.extend, Related.single_eq nestable, Related.single_eq nestableToo,
    composes.first_target, composes.second_target, ok_bind, Related.ofTarget, composes.first_link, composes.second_link]
  exact ⟨_, rfl, rfl⟩

variable (plain : Path.IsPlain through.name) (plainFirst : Path.IsPlain first.name) (plainSecond : Path.IsPlain second.name)
include plain in
private theorem hops_through : graph.hops owner through.name = .ok [(owner, through)] :=
  Graph.hops_name (sound _ composes.owner_mem) composes.through_mem (nestable_all sound composes).1 composes.through_target
    plain

include plainFirst plainSecond in
private theorem hops_path :
    graph.hops owner (first.name ++ "." ++ second.name) = .ok [(owner, first), (middle, second)] := by
  obtain ⟨-, nestable, nestableToo⟩ := nestable_all sound composes
  rw [Graph.hops, Path.names_append, Path.names_of_isPlain plainFirst, Path.names_of_isPlain plainSecond,
    List.singleton_append, Graph.walk_cons (sound _ composes.owner_mem) composes.first_mem nestable composes.first_target,
    Graph.walk_cons (sound _ composes.middle_mem) composes.second_mem nestableToo composes.second_target]
  rfl

include plain plainFirst plainSecond

/-- Aggregates over the relation and over the path can be computed alike. -/
private theorem aggregate_parallel (slot : Nat) (measure : Measure) (field : Option String) (filters : List Filter) :
    Parallel (fun _ _ => True) (aggregate graph owner slot ⟨through.name, measure, field, filters⟩)
      (aggregate graph owner slot ⟨first.name ++ "." ++ second.name, measure, field, filters⟩) := by
  obtain ⟨direct, joined, same⟩ := ofHops_through sound composes owner.table slot
  obtain ⟨along, joinedToo, sameToo⟩ := ofHops_path sound composes owner.table slot
  simp only [aggregate, hops_through sound composes plain, hops_path sound composes plainFirst plainSecond, joined, joinedToo,
    ok_bind, same, sameToo]
  refine (filtersCondition_parallel _ _ filters).bind fun _ _ _ => ?_
  exact (argument_parallel (same.trans sameToo.symm) measure field).bind fun _ _ _ => trivial

end Composed

/-- Aggregates over a relation through a table, and over the path of two relations that leads the same way, can be computed
alike, whatever the filters. Over the relation they measure the records that they measure over the path, and those behind
rows in between that the resource in between marks as deleted; where there are none, the values are the same, unless they
depend on the order in which the values of a field are taken. -/
theorem aggregate_through {schema : Schema} {declarations : List ResourceDeclaration} {graph : Graph}
    (built : Graph.build schema declarations = .ok graph) {owner middle target : Resource} {link : ThroughLink}
    {through first second : Relation} (composes : graph.Composes owner middle target link through first second)
    (plain : Path.IsPlain through.name) (plainFirst : Path.IsPlain first.name) (plainSecond : Path.IsPlain second.name)
    (slot : Nat) (measure : Measure) (field : Option String) (filters : List Filter) :
    Parallel
      (fun direct along => ∀ ground frame,
        let record := frame.getD slot []
        (graph.reachedBy ground.rows [(owner, through)] target filters record).Perm
          (graph.reachedBy ground.rows [(owner, first), (middle, second)] target filters record ++
            (Graph.Composes.missed link ground.rows owner middle target record).filter
              (graph.admits ground.rows target filters)) ∧
        ((∀ row ∈ Graph.Composes.between link ground.rows owner record, middle.isLive row) →
          measure.IsSteady ((graph.reachedBy ground.rows [(owner, through)] target filters record).map
            (·.cell (field.getD ""))) →
          outputValue ground frame direct = outputValue ground frame along))
      (aggregate graph owner slot ⟨through.name, measure, field, filters⟩)
      (aggregate graph owner slot ⟨first.name ++ "." ++ second.name, measure, field, filters⟩) := by
  have sound := Graph.sound_of_build built
  refine (aggregate_parallel sound composes plain plainFirst plainSecond slot measure field filters).of_ok ?_
  intro direct along made madeToo ground frame
  obtain ⟨hops, hop, _, walked, ends, leadsTo, -, value⟩ := outputValue_aggregate sound composes.owner_mem made
  obtain rfl := Except.ok.inj ((hops_through sound composes plain).symm.trans walked)
  obtain rfl := Option.some.inj ends
  obtain rfl := Except.ok.inj (composes.through_target.symm.trans leadsTo)
  obtain ⟨_, _, _, walkedToo, endsToo, leadsToToo, -, valueToo⟩ := outputValue_aggregate sound composes.owner_mem madeToo
  obtain rfl := Except.ok.inj ((hops_path sound composes plainFirst plainSecond).symm.trans walkedToo)
  obtain rfl := Option.some.inj endsToo
  obtain rfl := Except.ok.inj (composes.second_target.symm.trans leadsToToo)
  have reached : (graph.reached ground.rows [(owner, through)] (frame.getD slot [])).Perm _ := composes.reached_perm
  have records := reached.filter (graph.admits ground.rows target filters)
  rw [List.filter_append] at records
  refine ⟨records, fun live steady => ?_⟩
  have none : Graph.Composes.missed link ground.rows owner middle target (frame.getD slot []) = [] := by
    have kept : (Graph.Composes.between link ground.rows owner (frame.getD slot [])).filter (!middle.isLive ·) = [] :=
      List.filter_eq_nil_iff.2 fun row inside => by simpa using live row inside
    rw [Graph.Composes.missed, kept, List.flatMap_nil]
  rw [none, List.filter_nil, List.append_nil] at records
  rw [value, valueToo]
  exact Measure.taken_perm steady records

namespace Countries

def countries : Table where
  name := "countries"
  columns := [⟨"id", .integer, true, false, .null⟩]

def users : Table where
  name := "users"
  columns := [⟨"id", .integer, true, false, .null⟩, ⟨"country_id", .integer, false, true, .null⟩,
    ⟨"deleted_at", .datetime, false, true, .null⟩]

def posts : Table where
  name := "posts"
  columns := [⟨"id", .integer, true, false, .null⟩, ⟨"user_id", .integer, false, true, .null⟩,
    ⟨"size", .integer, false, true, .null⟩]

def schema : Schema := { tables := [countries, users, posts] }

/-- Countries with the users in them, and users with their posts; to posts, countries also lead through the table of users. -/
def declarations : List ResourceDeclaration := [
  { name := "Country", table := countries, options := [("fields", .list [.text "id"])], scopes := []
    relations := [
      { name := "posts", kind := .hasManyThrough, targets := [.text "Post"], throughTable := .text "users",
        firstKey := .text "country_id", secondKey := .text "user_id" },
      { name := "users", kind := .hasMany, targets := [.text "User"], foreignKey := .text "country_id" }] },
  { name := "User", table := users, options := [("fields", .list [.text "id"]), ("soft_deletes", .bool true)], scopes := []
    relations := [{ name := "posts", kind := .hasMany, targets := [.text "Post"], foreignKey := .text "user_id" }] },
  { name := "Post", table := posts, options := [("fields", .list [.text "id", .text "size"])], scopes := []
    relations := [] }]

def resource (name : String) (table : Table) (fields : List String) (softDeletes : Bool) (relations : List Relation) :
    Resource where
  name := name
  table := table
  key := "id"
  fields := fields
  scopes := []
  limits := [.int 10, .int 25, .int 50]
  defaultLimit := .int 50
  defaultOrder := [("id", .desc)]
  relations := relations
  fillable := fields.filter (· != "id")
  softDeletes := .bool softDeletes
  deletedAt := if softDeletes then some "deleted_at" else none
  morphAlias := .text table.name
  gates := true

def link : ThroughLink := ⟨users, "country_id", "user_id", "id", "id"⟩

def ofCountry : Relation := ⟨"posts", .hasManyThrough, ["Post"], .through link⟩

def residents : Relation := ⟨"users", .hasMany, ["User"], .child { foreignKey := "country_id", localKey := "id" }⟩

def ofUser : Relation := ⟨"posts", .hasMany, ["Post"], .child { foreignKey := "user_id", localKey := "id" }⟩

def country : Resource := resource "Country" countries ["id"] false [ofCountry, residents]

def user : Resource := resource "User" users ["id"] true [ofUser]

def post : Resource := resource "Post" posts ["id", "size"] false []

def graph : Graph := ⟨[country, user, post]⟩

theorem graph_of_declarations : Graph.build schema declarations = .ok graph := rfl

theorem composes : graph.Composes country user post link ofCountry residents ofUser where
  owner_mem := List.mem_cons_self
  middle_mem := List.mem_cons_of_mem _ List.mem_cons_self
  through_mem := List.mem_cons_self
  first_mem := List.mem_cons_of_mem _ List.mem_cons_self
  second_mem := List.mem_cons_self
  through_target := rfl
  first_target := rfl
  second_target := rfl
  table := rfl
  through_link := rfl
  first_link := rfl
  second_link := rfl

/-- One country with two users: the first has two posts and the second one, of the given sizes, and the second was deleted
at some time or never. -/
def ground (sizes : Int × Int × Int) (deletedAt : Cell) : Ground where
  rows := fun name =>
    if name = "countries" then [[("id", .int 1)]]
    else if name = "users" then [
      [("id", .int 1), ("country_id", .int 1), ("deleted_at", .null)],
      [("id", .int 2), ("country_id", .int 1), ("deleted_at", deletedAt)]]
    else if name = "posts" then [
      [("id", .int 1), ("user_id", .int 1), ("size", .int sizes.1)],
      [("id", .int 2), ("user_id", .int 2), ("size", .int sizes.2.1)],
      [("id", .int 3), ("user_id", .int 1), ("size", .int sizes.2.2)]]
    else []

/-- The country. -/
def frame : Frame := [[("id", .int 1)]]

/-- The posts of a country are as large through the table of users as by way of its users. -/
theorem sizes_of_posts :
    ∃ direct along, aggregate graph country 0 ⟨"posts", .sum, some "size", []⟩ = .ok direct ∧
      aggregate graph country 0 ⟨"users.posts", .sum, some "size", []⟩ = .ok along ∧
      outputValue (ground (1, 2, 3) .null) frame direct = outputValue (ground (1, 2, 3) .null) frame along := by
  have parallel := aggregate_through graph_of_declarations composes (by decide) (by decide) (by decide) 0 .sum (some "size") []
  obtain ⟨direct, made⟩ : ∃ output, aggregate graph country 0 ⟨"posts", .sum, some "size", []⟩ = .ok output := ⟨_, rfl⟩
  obtain ⟨along, madeToo⟩ : ∃ output, aggregate graph country 0 ⟨"users.posts", .sum, some "size", []⟩ = .ok output :=
    ⟨_, rfl⟩
  have names : residents.name ++ "." ++ ofUser.name = "users.posts" := by decide
  rw [names, show ofCountry.name = "posts" from rfl, made, madeToo] at parallel
  refine ⟨direct, along, made, madeToo, (parallel (ground (1, 2, 3) .null) frame).2 ?_ ?_⟩
  · decide
  · have sizes : ((graph.reachedBy (ground (1, 2, 3) .null).rows [(country, ofCountry)] post [] (frame.getD 0 [])).map
        (·.cell "size")) = [.int 1, .int 2, .int 3] := by cbv
    refine sizes.symm ▸ (?_ : Cell.SumBelow (2 ^ 63) [.int 1, .int 2, .int 3])
    simp [Cell.SumBelow, Cell.whole]

/-- Posts of a deleted user count through the table of users but not by way of the users; and sizes that add up within the
word in one order of the posts do not in the other. -/
theorem posts_of_deleted_and_large_sizes :
    Graph.build schema declarations = .ok graph ∧ graph.Composes country user post link ofCountry residents ofUser ∧
    ∃ direct along sum sumAlong,
      aggregate graph country 0 ⟨"posts", .count, none, []⟩ = .ok direct ∧
      aggregate graph country 0 ⟨"users.posts", .count, none, []⟩ = .ok along ∧
      outputValue (ground (1, 2, 3) (.text "2024-01-01 00:00:00.000000")) frame direct = .ok (.int 3) ∧
      outputValue (ground (1, 2, 3) (.text "2024-01-01 00:00:00.000000")) frame along = .ok (.int 2) ∧
      aggregate graph country 0 ⟨"posts", .sum, some "size", []⟩ = .ok sum ∧
      aggregate graph country 0 ⟨"users.posts", .sum, some "size", []⟩ = .ok sumAlong ∧
      outputValue (ground (9223372036854775807, 1, -1) .null) frame sum = .error (.storage .statement) ∧
      outputValue (ground (9223372036854775807, 1, -1) .null) frame sumAlong = .ok (.int 9223372036854775807) := by
  refine ⟨graph_of_declarations, composes, _, _, _, _, rfl, rfl, ?_, ?_, rfl, rfl, ?_, ?_⟩
  · rfl
  · rfl
  · rfl
  · rfl

end Countries

end Plan

end ResourceApi
