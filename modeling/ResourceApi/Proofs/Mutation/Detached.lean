import ResourceApi.Proofs.Mutation.Performed
import ResourceApi.Proofs.Mutation.Single
import ResourceApi.Proofs.Session.Cleared
import ResourceApi.Proofs.Session.Joined

/-!
Detaching one record from another. The link between the two is undone where it is kept: in the related record, in the
record itself, or in the rows of a join table. Rows of a join table are looked for on both sides, while a link that a
record keeps is undone without a look at where it leads, so that it has to lead to the other record for no other link to
be undone.
-/

namespace ResourceApi

open Outcome

namespace Link

/-- The table whose rows keep the link. -/
def carrier (owner target : Resource) : Link → Table
  | .child _ => target.table
  | .parent _ => owner.table
  | .pivot link => link.table
  | .through link => link.table

/-- The columns by which a record keeps the link. -/
def keepers : Link → List String
  | .child link => link.foreignKey :: link.morphType.toList
  | .parent link => link.foreignKey :: link.morphType.toList
  | .pivot _ | .through _ => []

/-- Whether a row of the carrier says that two records are linked. -/
def joins (owner target : Resource) (parent record row : Row) : Link → Bool
  | .child link => row == record && ties owner target parent [record] (.child link) &&
      isOfType owner target [record] (.child link)
  | .parent link => row == parent && ties owner target parent [record] (.parent link) &&
      leadsTo owner target parent (.parent link)
  | .pivot link => link.belongs owner target parent row && link.reaches target record row
  | .through _ => false

/-- What a row of the carrier becomes when its link is undone. -/
def undone : Link → Row → Option Row
  | .pivot _, _ | .through _, _ => none
  | link, row => some (row.cleared link.keepers)

/-- Whether the link of two records is all that there is to undo: a link that a record keeps leads from the one to the
other or nowhere, and the columns of a join table are of the types of the keys that they refer to. -/
def Concerns (owner target : Resource) (parent record : Row) (link : Link) : Prop :=
  match link with
  | .child _ => link.joins owner target parent record record ∨ ∀ column ∈ link.keepers, record.cell column = .null
  | .parent _ => link.joins owner target parent record parent ∨ ∀ column ∈ link.keepers, parent.cell column = .null
  | .pivot between => between.Typed owner target ∧ parent.cell between.localKey ≠ .null
  | .through _ => True

/-- How a database changes when the links between two records are undone, and nothing else. -/
structure Undoes (owner target : Resource) (parent record : Row) (before after : Database) (link : Link) : Prop where
  others : ∀ name, name ≠ (link.carrier owner target).name → after.rows name = before.rows name
  carrier : (after.rows (link.carrier owner target).name).Perm
    ((before.rows (link.carrier owner target).name).filterMap fun row =>
      if link.joins owner target parent record row then link.undone row else some row)

end Link

namespace Row

theorem cleared_of_null {table : Table} {row : Row} {names : List String} (nodup : table.columnNames.Nodup)
    (full : table.fullRow row = row) (null : ∀ name ∈ names, row.cell name = .null) : row.cleared names = row := by
  have columns : row.map Prod.fst = table.columnNames := by
    rw [← full, Table.columns_fullRow]
  refine Row.ext ?_ ?_ fun name _ => ?_
  · rw [Row.cleared, columns_update]
  · rw [Row.cleared, columns_update, columns]
    exact nodup
  · rw [cell_cleared]
    by_cases taken : name ∈ names
    · rw [if_pos taken, null name taken]
    · rw [if_neg taken]

end Row

namespace Mutation

open Job

section Requests

variable {context : Context} {work after : Work} {number : Nat} {record : Record} {owner target : Resource}
  {relation : Relation} {linked : Node} {results : List WriteResult}

/-- Undoing the link that a record keeps, by taking out the columns in which it keeps it. -/
private theorem undoes_of_cleared {link : Link} {parent record holder : Row} {before after : Database}
    (keeps : before.Keeps (link.carrier owner target)) (inside : holder ∈ before.rows (link.carrier owner target).name)
    (keepsLink : ∀ row, link.undone row = some (row.cleared link.keepers))
    (only : ∀ row, link.joins owner target parent record row = true → row = holder)
    (concerns : link.joins owner target parent record holder ∨ ∀ column ∈ link.keepers, holder.cell column = .null)
    (touched : before.Touches after (link.carrier owner target).name)
    (cleared : (after.rows (link.carrier owner target).name).Perm
      ((before.rows (link.carrier owner target).name).map fun row =>
        if row = holder then row.cleared link.keepers else row)) :
    link.Undoes owner target parent record before after := by
  refine ⟨fun name other => touched.rows_other other, cleared.trans ?_⟩
  rw [← List.filterMap_eq_map, List.filterMap_congr]
  intro row there
  by_cases joined : link.joins owner target parent record row = true
  · obtain rfl := only row joined
    simp [joined, keepsLink]
  · rw [if_neg joined]
    by_cases same : row = holder
    · subst same
      have null := concerns.resolve_left joined
      simp [Row.cleared_of_null keeps.nodup (keeps.full row there) null]
    · simp [same]

/-- Where all records are in step, nothing was set in the others than one that is replaced. -/
private theorem others_unchanged (inStep : work.InStep) (number : Nat) (record : Record) :
    ∀ entry ∈ work.records.map fun entry => if entry.1 == number then (number, record) else entry,
      entry.1 ≠ number → entry.2.IsWritten := by
  intro entry listed other
  obtain ⟨⟨place, held⟩, before, rfl⟩ := List.mem_map.1 listed
  by_cases same : place = number
  · subst same
    simp at other
  · have apart : (place == number) = false := by simpa using same
    obtain ⟨keeps, -, row, inside, shows⟩ := inStep.shows _ before
    simp only [apart, Bool.false_eq_true, if_false]
    exact ⟨shows.kept, shows.changes_eq_nil keeps inside⟩

/-- A record whose own link is undone is found and the columns of the link are taken out of it, to be written later. -/
private theorem writeEntry_parent {link : ParentLink} (own : relation.link = .parent link) (inStep : work.InStep)
    (kept : Kept context.graph work.database) (there : work.records.lookup number = some record)
    (ran : (writeEntry context owner number relation (.mk .detach [linked])).runOn work = (.ok results, after)) :
    ∃ target row middle, targetOf context.graph relation linked.resource = .ok target ∧
      (work.database.rows target.table.name).filter
        (target.isFor ((Members.get? linked.attributes target.key).getD .null) false) = [row] ∧
      middle.InStep ∧ work.Grown middle ∧
      after = { middle with records := (middle.records.map fun entry =>
        if entry.1 == number then (number, record.cleared relation.link.keepers) else entry).filter (·.1 < work.next) } := by
  rw [writeEntry, own] at ran
  dsimp only at ran
  split at ran
  · cases ran
  rw [bind_runOn, get_runOn] at ran
  dsimp only at ran
  obtain ⟨_, last, wrote, ended⟩ := bind_eq_ok.1 ran
  cases ended
  rw [writeParents] at wrote
  obtain ⟨target, leads, wrote⟩ := of_bind_eq_ok.1 wrote
  rw [if_neg (by decide)] at wrote
  obtain ⟨found, middle, looked, wrote⟩ := bind_eq_ok.1 wrote
  have declared := mem_of_targetOf leads
  obtain ⟨row, alone, stepped, grown, -, other, held, -, -⟩ :=
    findLinked_eq_ok inStep (kept.keeps target declared) (kept.keyed target declared) looked
  have still := grown.records number record there
  obtain ⟨_, _, replaced, wrote⟩ := bind_eq_ok.1 wrote
  cases replaced
  rw [bind_runOn, record_runOn held] at wrote
  dsimp only at wrote
  rw [bind_runOn, resultOf_runOn _ _ _ held] at wrote
  dsimp only at wrote
  rw [if_pos rfl, bind_runOn, setValues_runOn still, writeParents] at wrote
  cases wrote
  refine ⟨target, row, middle, leads, alone, stepped, grown, ?_⟩
  rw [own]
  rfl

/-- A related record whose link is undone is found, and written without the columns of the link. -/
private theorem writeEntry_child {link : ChildLink} (own : relation.link = .child link)
    (below : relation.kind.linkPlace ≠ .parent) (inStep : work.InStep)
    (kept : Kept context.graph work.database) (there : work.records.lookup number = some record)
    (ran : (writeEntry context owner number relation (.mk .detach [linked])).runOn work = (.ok results, after)) :
    ∃ target row, targetOf context.graph relation linked.resource = .ok target ∧
      (work.database.rows target.table.name).filter
        (target.isFor ((Members.get? linked.attributes target.key).getD .null) false) = [row] ∧
      work.database.Touches after.database target.table.name ∧
      (after.database.rows target.table.name).Perm ((work.database.rows target.table.name).map fun other =>
        if other = row then other.cleared relation.link.keepers else other) := by
  rw [writeEntry, own] at ran
  dsimp only at ran
  split at ran
  · cases ran
  rw [bind_runOn, get_runOn] at ran
  dsimp only at ran
  obtain ⟨target, leads, ran⟩ := of_bind_eq_ok.1 ran
  rw [bind_runOn, record_runOn there] at ran
  dsimp only at ran
  obtain ⟨_, last, wrote, ended⟩ := bind_eq_ok.1 ran
  cases ended
  rw [writeChildren, if_neg (by decide)] at wrote
  obtain ⟨found, middle, looked, wrote⟩ := bind_eq_ok.1 wrote
  have declared := Graph.mem_of_target leads
  obtain ⟨row, alone, stepped, grown, -, other, held, same, shows⟩ :=
    findLinked_eq_ok inStep (kept.keeps target declared) (kept.keyed target declared) looked
  obtain ⟨_, _, replaced, wrote⟩ := bind_eq_ok.1 wrote
  cases replaced
  rw [if_pos rfl, bind_runOn, setValues_runOn held] at wrote
  dsimp only at wrote
  obtain ⟨_, flushed, flush, rest⟩ := bind_eq_ok.1 wrote
  obtain ⟨_, shown, read, rest⟩ := bind_eq_ok.1 rest
  cases read
  rw [writeChildren] at rest
  cases rest
  have keeps := kept.keeps target declared
  have inside := List.mem_of_mem_filter (alone ▸ List.mem_singleton_self row)
  rw [← grown.database, ← same] at keeps inside
  have columns : (childLink owner link record).map (fun entry => (entry.1, Value.null)) =
      relation.link.keepers.map fun name => (name, Value.null) := by
    rw [own]
    simp [childLink, Link.keepers]
  rw [columns] at flush
  obtain ⟨touched, perm⟩ := flush_cleared flush (by rw [map_replace_numbers]; exact stepped.nodup)
    (others_unchanged stepped found _) (lookup_replace_same held (other.cleared relation.link.keepers)) shows keeps
    (same ▸ kept.keyed target declared) inside
  rw [same] at touched perm
  dsimp only at touched perm
  rw [grown.database] at touched perm
  exact ⟨target, row, targetOf_of_target leads below, alone, touched, perm⟩

/-- The rows of a join table that lead from a record to a related one are removed. -/
private theorem writeEntry_pivot {link : PivotLink} (own : relation.link = .pivot link)
    (below : relation.kind.linkPlace ≠ .parent) (inStep : work.InStep)
    (kept : Kept context.graph work.database) (stores : work.database.Stores link.table)
    (there : work.records.lookup number = some record)
    (ran : (writeEntry context owner number relation (.mk .detach [linked])).runOn work = (.ok results, after)) :
    ∃ (target : Resource) (row : Row) (other : Record), targetOf context.graph relation linked.resource = .ok target ∧
      (work.database.rows target.table.name).filter
        (target.isFor ((Members.get? linked.attributes target.key).getD .null) false) = [row] ∧
      other.table = target.table ∧ other.Shows row ∧ work.database.Touches after.database link.table.name ∧
      after.database.rows link.table.name = (work.database.rows link.table.name).filter fun between =>
        !((JoinRows.ofRecord owner target link record).owns between &&
          (JoinRows.ofRecord owner target link record).leads [other.value link.targetKey] between) := by
  rw [writeEntry, own] at ran
  dsimp only at ran
  split at ran
  · cases ran
  rw [bind_runOn, get_runOn] at ran
  dsimp only at ran
  obtain ⟨target, leads, ran⟩ := of_bind_eq_ok.1 ran
  rw [bind_runOn, record_runOn there] at ran
  dsimp only at ran
  rw [if_neg (by decide)] at ran
  obtain ⟨_, last, wrote, ended⟩ := bind_eq_ok.1 ran
  cases ended
  rw [writeJoined, if_neg (by decide)] at wrote
  obtain ⟨found, middle, looked, wrote⟩ := bind_eq_ok.1 wrote
  have declared := Graph.mem_of_target leads
  obtain ⟨row, alone, stepped, grown, -, other, held, same, shows⟩ :=
    findLinked_eq_ok inStep (kept.keeps target declared) (kept.keyed target declared) looked
  obtain ⟨_, _, replaced, wrote⟩ := bind_eq_ok.1 wrote
  cases replaced
  rw [bind_runOn, record_runOn held] at wrote
  dsimp only at wrote
  rw [bind_runOn, resultOf_runOn _ _ _ held] at wrote
  dsimp only at wrote
  rw [if_pos rfl] at wrote
  obtain ⟨_, removed, remove, rest⟩ := bind_eq_ok.1 wrote
  rw [writeJoined] at rest
  cases rest
  have table : (JoinRows.ofRecord owner target link record).link = link := JoinRows.link_ofRecord
  rw [table] at remove
  obtain ⟨database, rfl, touched, left⟩ := JoinRows.remove_eq_ok (by rw [table, grown.database]; exact stores) remove
  rw [table, grown.database] at touched left
  refine ⟨target, row, other, targetOf_of_target leads below, alone, same, shows, touched, ?_⟩
  exact left

variable {schema : Schema} {declarations : List ResourceDeclaration} {node : Node} {key : Json} {written : WriteResult}

section Undone

variable (kept : Kept context.graph work.database) (declared : owner ∈ context.graph.resources)
  (through : Through owner relation (.mk .detach [linked]) key node) (inStep : work.InStep)
  (ran : (writeNode context owner [] node).runOn work = (.ok written, after))
include kept declared through inStep ran

/-- The records that a detachment is about, and what it undoes. -/
def Detaches (context : Context) (owner : Resource) (relation : Relation) (linked : Node) (key : Json)
    (before after : Database) : Prop :=
  ∃ target parent row, targetOf context.graph relation linked.resource = .ok target ∧
    (before.rows owner.table.name).filter (owner.isFor key false) = [parent] ∧
    (before.rows target.table.name).filter
      (target.isFor ((Members.get? linked.attributes target.key).getD .null) false) = [row] ∧
    (relation.link.Concerns owner target parent row → relation.link.Undoes owner target parent row before after)

private theorem detaches_child {link : ChildLink} (own : relation.link = .child link)
    (below : relation.kind.linkPlace ≠ .parent) :
    Detaches context owner relation linked key work.database after.database := by
  obtain ⟨parent, number, found, record, alone, stepped, grown, -, there, same, shows, results, ended, entry, left, -⟩ :=
    writeNode_eq_ok_of_below through below inStep (kept.keeps owner declared) (kept.keyed owner declared) ran
  have keptThen : Kept context.graph found.database := by
    rw [grown.database]
    exact kept
  obtain ⟨target, row, leads, only, touched, perm⟩ := writeEntry_child own below stepped keptThen there entry
  rw [grown.database, ← left] at touched perm
  rw [grown.database] at only
  refine ⟨target, parent, row, leads, alone, only, fun concerns => ?_⟩
  rw [own] at perm concerns ⊢
  have inside := List.mem_of_mem_filter (only ▸ List.mem_singleton_self row)
  apply undoes_of_cleared (kept.keeps target (mem_of_targetOf leads)) inside (fun _ => rfl) _ concerns touched perm
  intro other joins
  simp only [Link.joins, Bool.and_eq_true, beq_iff_eq] at joins
  exact joins.1.1

private theorem detaches_parent {link : ParentLink} (own : relation.link = .parent link)
    (above : relation.kind.linkPlace = .parent) :
    Detaches context owner relation linked key work.database after.database := by
  obtain ⟨parent, number, found, record, alone, stepped, grown, -, there, same, shows, _, _, before, set, flushed, last,
    entries, setNone, flush, further, left, -⟩ :=
    writeNode_eq_ok through inStep (kept.keeps owner declared) (kept.keyed owner declared) ran
  have here : (relation.kind.linkPlace == .parent) = true := by simpa using above
  have entries := writeEntries_single through.known entries
  have further := writeEntries_single through.known further
  rw [here, if_pos rfl] at entries
  rw [here, if_neg (by simp)] at further
  obtain ⟨results, entry, -⟩ := entries
  replace further := further.1
  have keptThen : Kept context.graph found.database := by
    rw [grown.database]
    exact kept
  obtain ⟨target, row, middle, leads, only, inStepThen, grew, rfl⟩ := writeEntry_parent own stepped keptThen there entry
  rw [grown.database] at only
  have numbers : number < found.next := stepped.fresh _ (mem_of_lookup there)
  have cleared : ((middle.records.map fun entry =>
      if entry.1 == number then (number, record.cleared relation.link.keepers) else entry).filter
        (·.1 < found.next)).lookup number = some (record.cleared relation.link.keepers) := by
    apply lookup_of_mem
    · exact (map_replace_numbers middle.records _ _ ▸ inStepThen.nodup).sublist (List.filter_sublist.map _)
    · refine List.mem_filter.2 ⟨mem_of_lookup (lookup_replace_same (grew.records _ _ there) _), by simpa using numbers⟩
  have nodup : (((middle.records.map fun entry =>
      if entry.1 == number then (number, record.cleared relation.link.keepers) else entry).filter
        (·.1 < found.next)).map (·.1)).Nodup :=
    (map_replace_numbers middle.records _ _ ▸ inStepThen.nodup).sublist (List.filter_sublist.map _)
  rw [setValues_nil nodup cleared] at setNone
  cases setNone
  have database : middle.database = work.database := grew.database.trans grown.database
  have keeps := kept.keeps owner declared
  have inside := List.mem_of_mem_filter (alone ▸ List.mem_singleton_self parent)
  obtain ⟨touched, perm⟩ := flush_cleared flush nodup
    (fun entry listed => others_unchanged inStepThen number _ entry (List.mem_of_mem_filter listed)) cleared shows
    (by rw [same]; exact database ▸ keeps) (same ▸ kept.keyed owner declared) (by rw [same]; exact database ▸ inside)
  dsimp only at touched perm
  rw [same, database, ← further, ← left] at touched perm
  refine ⟨target, parent, row, leads, alone, only, fun concerns => ?_⟩
  rw [own] at perm concerns ⊢
  apply undoes_of_cleared keeps inside (fun _ => rfl) _ concerns touched perm
  intro other joins
  simp only [Link.joins, Bool.and_eq_true, beq_iff_eq] at joins
  exact joins.1.1

private theorem detaches_pivot {link : PivotLink} (own : relation.link = .pivot link)
    (below : relation.kind.linkPlace ≠ .parent) (joined : work.database.Keeps link.table) :
    Detaches context owner relation linked key work.database after.database := by
  obtain ⟨parent, number, found, record, alone, stepped, grown, -, there, same, shows, results, ended, entry, left, -⟩ :=
    writeNode_eq_ok_of_below through below inStep (kept.keeps owner declared) (kept.keyed owner declared) ran
  have keptThen : Kept context.graph found.database := by
    rw [grown.database]
    exact kept
  obtain ⟨target, row, other, leads, only, sameToo, showsToo, touched, rows⟩ :=
    writeEntry_pivot own below stepped keptThen (grown.database ▸ joined.stores) there entry
  rw [grown.database] at only
  rw [grown.database, ← left] at touched rows
  refine ⟨target, parent, row, leads, alone, only, fun concerns => ?_⟩
  rw [own] at concerns ⊢
  refine ⟨fun name other => touched.rows_other other, ?_⟩
  have inside := List.mem_of_mem_filter (alone ▸ List.mem_singleton_self parent)
  have insideToo := List.mem_of_mem_filter (only ▸ List.mem_singleton_self row)
  have keeps := kept.keeps owner declared
  have keepsToo := kept.keeps target (mem_of_targetOf leads)
  rw [← same] at inside keeps
  rw [← sameToo] at insideToo keepsToo
  change (after.database.rows link.table.name).Perm _
  rw [rows, ← List.filterMap_eq_filter]
  apply List.Perm.of_eq
  apply List.filterMap_congr
  intro between listed
  have full := joined.full between listed
  have joins : (Link.pivot link).joins owner target parent row between =
      ((JoinRows.ofRecord owner target link record).owns between &&
        (JoinRows.ofRecord owner target link record).leads [other.value link.targetKey] between) := by
    rw [JoinRows.owns_ofRecord shows keeps inside same joined.nodup full concerns.1 concerns.2,
      JoinRows.leads_ofRecord showsToo keepsToo insideToo sameToo joined.nodup full concerns.1]
    rfl
  simp only [Option.guard, ← joins]
  cases (Link.pivot link).joins owner target parent row between <;> rfl

end Undone

/-- Detaching one record from another through a relation, in a graph and a database of any form, undoes the link between
the two and no other, provided that it asks for no more than that. -/
theorem detaches_of_execute {result : MutationResult} (built : Graph.build schema declarations = .ok context.graph)
    (declared : owner ∈ context.graph.resources) (kept : Kept context.graph work.database)
    (joined : ∀ link, relation.link = .pivot link → work.database.Keeps link.table) (none : work.records = [])
    (through : Through owner relation (.mk .detach [linked]) key node)
    (ran : (execute context owner [node]).runOn work = (.ok result, after)) :
    Detaches context owner relation linked key work.database after.database := by
  obtain ⟨written, last, wrote, database, -⟩ := execute_single_eq_ok ran
  have inStep : work.InStep := ⟨by simp [none], by simp [none], by simp [none]⟩
  have sound := Graph.sound_of_build built owner declared
  have placed := (sound.relations relation (Resource.mem_of_relation? through.known).1).placed
  rw [database]
  cases own : relation.link with
  | child link =>
    have below : relation.kind.linkPlace ≠ .parent := by simp [← placed, own, Link.place]
    exact detaches_child kept declared through inStep wrote own below
  | parent link =>
    have above : relation.kind.linkPlace = .parent := by simp [← placed, own, Link.place]
    exact detaches_parent kept declared through inStep wrote own above
  | pivot link =>
    have below : relation.kind.linkPlace ≠ .parent := by simp [← placed, own, Link.place]
    exact detaches_pivot kept declared through inStep wrote own below (joined link own)
  | through link =>
    have below : relation.kind.linkPlace ≠ .parent := by simp [← placed, own, Link.place]
    obtain ⟨_, number, found, _, -, -, -, -, -, -, -, results, ended, entry, -⟩ :=
      writeNode_eq_ok_of_below through below inStep (kept.keeps owner declared) (kept.keyed owner declared) wrote
    rw [writeEntry, own] at entry
    dsimp only at entry
    split at entry <;> cases entry

end Requests

/-! ## Records that are linked, and records that are not -/

namespace Comments

def posts : Table := ⟨"posts", [{ name := "slug", type := .string, isKey := true, isNullable := false }]⟩

def comments : Table := ⟨"comments",
  [{ name := "slug", type := .string, isKey := true, isNullable := false }, { name := "post", type := .string }]⟩

def schema : Schema := { tables := [posts, comments] }

def below : Relation := ⟨"comments", .hasMany, ["Comment"], .child ⟨"post", "slug", none, none⟩⟩

def declarations : List ResourceDeclaration := [
  { name := "Post", table := posts, options := [("fields", .list [.text "slug"])], scopes := []
    relations := [{ name := "comments", kind := .hasMany, targets := [.text "Comment"], foreignKey := .text "post"
                    localKey := .text "slug" }] },
  { name := "Comment", table := comments, options := [("fields", .list [.text "slug"])], scopes := [], relations := [] }]

def post : Resource where
  name := "Post"
  table := posts
  key := "slug"
  fields := ["slug"]
  scopes := []
  limits := [.int 10, .int 25, .int 50]
  defaultLimit := .int 50
  defaultOrder := [("slug", .desc)]
  relations := [below]
  fillable := []
  softDeletes := .bool false
  deletedAt := none
  morphAlias := .text "posts"
  gates := true

def comment : Resource := { post with name := "Comment", table := comments, relations := [], morphAlias := .text "comments" }

theorem comments_of_declarations : Graph.build schema declarations = .ok ⟨[post, comment]⟩ := rfl

def commented (post : Cell) : Row := [("slug", .text "x"), ("post", post)]

/-- Two posts, and a comment on one of them. -/
def database (post : Cell) : Database :=
  ⟨[⟨posts, [[("slug", .text "a")], [("slug", .text "b")]]⟩, ⟨comments, [commented post]⟩]⟩

def linked : Node := .mk [("slug", .text "x")] [] none []

/-- Takes the comment from the first post. -/
def request : Node := .mk [("slug", .text "a")] [] none [("comments", .mk .detach [linked])]

theorem kept : Kept ⟨[post, comment]⟩ (database (.text "a")) := by
  have texts (table : Table) (rows : List Row) (strings : ∀ column ∈ table.columns, column.type = .string)
      (held : ∀ row ∈ rows, ∀ column ∈ table.columns, ∃ s, row.cell column.name = .text s) :
      ∀ row ∈ rows, ∀ column ∈ table.columns, column.Returns (row.cell column.name) := by
    intro row listed column there
    obtain ⟨s, text⟩ := held row listed column there
    rw [text]
    exact .text (strings column there) s
  constructor
  · intro resource listed
    rcases List.mem_cons.1 listed with rfl | listed
    · refine ⟨⟨_, rfl⟩, by decide, by decide, texts _ _ (by decide) ?_, by decide⟩
      simp [post, posts, Database.rows, Database.table?, database, Row.cell]
    · obtain rfl := List.mem_singleton.1 listed
      refine ⟨⟨_, rfl⟩, by decide, by decide, texts _ _ (by decide) ?_, by decide⟩
      simp [comment, comments, Database.rows, Database.table?, database, Row.cell, commented, posts, List.lookup_cons]
  · decide

private theorem through : Through post below (.mk .detach [linked]) (.text "a") request :=
  ⟨rfl, rfl, rfl, by simp [post], rfl⟩

/-- Taking a comment from the post that it is on undoes that link. -/
theorem undoes_of_linked : ∃ result after, (execute { graph := ⟨[post, comment]⟩ } post [request]).runOn
      { database := database (.text "a") } = (.ok result, after) ∧
    below.link.Undoes post comment [("slug", .text "a")] (commented (.text "a")) (database (.text "a")) after.database := by
  obtain ⟨result, after, ran⟩ : ∃ result after, (execute { graph := ⟨[post, comment]⟩ } post [request]).runOn
      { database := database (.text "a") } = (.ok result, after) := ⟨_, _, rfl⟩
  refine ⟨result, after, ran, ?_⟩
  obtain ⟨target, parent, row, leads, first, second, undoes⟩ := detaches_of_execute comments_of_declarations
    List.mem_cons_self kept (fun _ pivot => by cases pivot) rfl through ran
  cases leads
  have parents : ((database (.text "a")).rows posts.name).filter (post.isFor (.text "a") false) =
      [[("slug", .text "a")]] := by decide
  have rows : ((database (.text "a")).rows comments.name).filter (comment.isFor (.text "x") false) =
      [commented (.text "a")] := by decide
  cases parents.symm.trans first
  cases rows.symm.trans second
  exact undoes (.inl (by decide))

/-- A comment that is on another post is taken from that one. -/
theorem undone_though_not_linked : ∃ result after, (execute { graph := ⟨[post, comment]⟩ } post [request]).runOn
      { database := database (.text "b") } = (.ok result, after) ∧
    below.link.joins post comment [("slug", .text "a")] (commented (.text "b")) (commented (.text "b")) = false ∧
    (database (.text "b")).rows "comments" = [commented (.text "b")] ∧
    after.database.rows "comments" = [commented .null] := by
  refine ⟨_, _, rfl, ?_⟩
  decide

end Comments

end Mutation

end ResourceApi
