import Mathlib
import ResourceApi.Proofs.Mutation.Syncing

/-!
Syncing the rows of a join table with the records that a request names, node by node; in the end the rows go whose keys
nobody asked for, once it was allowed for each of their records.
-/

namespace ResourceApi

open Outcome

namespace Mutation

open Job

section Runs

variable {context : Context} {owner target : Resource} {link : PivotLink} {parent : Row} {first : Database}
  {work after : Work} {rows : JoinRows}

/-- Records that were found by keys, deleted ones included, and that it was allowed to unlink one after the other. -/
structure Freed (context : Context) (target : Resource) (database : Database) (keys : List Value) (gone : List Row)
    (before after : List PolicyCall) : Prop where
  found : List.Forall₂ (fun key record =>
    (database.rows target.table.name).filter (target.isFor key.compared true) = [record]) keys gone
  allowed : ∀ record ∈ gone, context.allows .detach target (some (target.keyOf record)) = true
  asked : after = before ++ gone.flatMap fun record => context.questions .detach target (some (target.keyOf record))

namespace Freed

variable {keys : List Value} {gone : List Row} {before later : List PolicyCall} {key : Value} {record : Row}

theorem nil (context : Context) (target : Resource) (database : Database) (calls : List PolicyCall) :
    Freed context target database [] [] calls calls := ⟨.nil, by simp, by simp⟩

theorem concat (freed : Freed context target first keys gone before later)
    (alone : (first.rows target.table.name).filter (target.isFor key.compared true) = [record])
    (allowed : context.allows .detach target (some (target.keyOf record)) = true) :
    Freed context target first (keys ++ [key]) (gone ++ [record]) before
      (later ++ context.questions .detach target (some (target.keyOf record))) where
  found := List.rel_append freed.found (.cons alone .nil)
  allowed := List.forall_mem_append.2 ⟨freed.allowed, by simpa using allowed⟩
  asked := by rw [List.flatMap_append, List.flatMap_singleton, ← List.append_assoc, ← freed.asked]

end Freed

section Stale

variable (own : rows.link = link) (beside : work.Beside link.table.name first) (keeps : first.Keeps target.table)
  (keyed : target.table.keyColumns ≠ []) (other : target.table.name ≠ link.table.name)
  (stores : first.Stores link.table)
include own beside keeps keyed other stores

/-- The rows that lead to some records go, once it was allowed for each of these; work ends there if one of them is not
found. -/
theorem dropStale_comesTo (stale : List Value) (start : Nat) :
    (dropStale context target rows stale start).ComesTo work
      (fun _ after => first.Touches after.database link.table.name ∧
        after.database.rows link.table.name =
          (work.database.rows link.table.name).filter (fun row => !(rows.owns row && rows.leads stale row)) ∧
        ∃ gone, Freed context target first (sortedKeys stale) gone work.calls after.calls)
      fun failure _ => failure.IsNotFound →
        ∃ key ∈ stale, (first.rows target.table.name).filter (target.isFor key.compared true) = [] := by
  rw [dropStale]
  refine .ite (fun none => .pure ?_) fun _ => ?_
  · obtain rfl := List.isEmpty_iff.1 none
    refine ⟨beside.touched, (List.filter_eq_self.2 fun row _ => ?_).symm, [], ?_⟩
    · simp [JoinRows.leads, Comparison.outcome, Comparison.candidates, Query.among, Truth.holds_any]
    · rw [sortedKeys, List.mergeSort_nil]
      exact .nil _ _ _ _
  · dsimp only
    refine .bind ((Job.ComesTo.forIn (fun done _ state => state.Beside link.table.name first ∧
      state.database = work.database ∧ ∃ gone, Freed context target first done gone work.calls state.calls)
      ⟨beside, rfl, [], .nil _ _ _ _⟩ ?_).mono ?_ fun _ _ => id)
    · rintro done key rest last before split ⟨besideThen, same, gone, freed⟩
      have rowsThen := besideThen.touched.rows_other other
      have keepsThen := keeps.of_touches besideThen.touched other
      have stale : key ∈ stale := by
        rw [← (List.mergeSort_perm stale _).mem_iff]
        exact split ▸ (by simp : key ∈ done ++ key :: rest)
      refine .bind ⟨fun number found looked => ?_, fun failure _ failed notFound =>
        ⟨key, stale, rowsThen ▸ find_eq_notFound besideThen.inStep failed notFound⟩⟩
      obtain ⟨row, alone, stepped, grown, adds, record, there, sameToo, shows⟩ :=
        find_eq_ok besideThen.inStep keepsThen keyed looked
      rw [rowsThen] at alone
      have besideFound := besideThen.grow stepped grown adds other
      obtain ⟨records, replaced⟩ := replace_runOn start last number found
      obtain ⟨besideLeft, kept, held⟩ := besideFound.replace there replaced
      refine .bind_of_ok replaced (.bind_of_ok (keyOf_runOn target held) (.bind ?_))
      rw [shows.keyOf_eq (sameToo ▸ keeps.nodup) sameToo (hasColumn_of_find looked)]
      refine (authorize_comesTo _ _ _ _ _).mono ?_ fun _ _ => id
      rintro _ state ⟨may, rfl⟩
      refine .pure ⟨_, rfl, besideLeft.alike ⟨_, _, rfl⟩, grown.database.trans same, gone ++ [row], ?_⟩
      rw [find_calls besideThen.inStep looked]
      exact freed.concat alone may
    · rintro _ looked ⟨still, database, gone, freed⟩
      subst own
      refine ⟨fun u state removed => ?_, fun failure _ failed notFound =>
        (JoinRows.remove_never Failure.isNotFound_ofStorage rows stale _ _ _ failed notFound).elim⟩
      obtain ⟨changed, rfl, touched, left⟩ := JoinRows.remove_eq_ok (still.touched.stores stores) removed
      rw [database] at touched left
      exact ⟨beside.touched.trans touched, left, gone, freed⟩

end Stale

/-- Whether a node asks for the row of a record, with its values for rows of the join table. -/
def Names (target : Resource) (database : Database) (node : Node) (entry : Row × Members) : Prop :=
  (database.rows target.table.name).filter
    (target.isFor ((Members.get? node.attributes target.key).getD .null) false) = [entry.1] ∧ entry.2 = node.pivot

/-- Nodes name records once and for all as long as the records stay. -/
theorem eq_of_names {nodes : List Node} {last : Database} {asked second : List (Row × Members)}
    (same : last.rows target.table.name = first.rows target.table.name)
    (one : List.Forall₂ (Names target first) nodes asked) (other : List.Forall₂ (Names target last) nodes second) :
    asked = second := by
  induction one generalizing second with
  | nil =>
    cases other
    rfl
  | @cons node entry rest further here _ ih =>
    cases other with
    | @cons _ found _ others there later =>
      rw [Names, same, here.1] at there
      rw [ih later, Prod.ext (List.singleton_inj.1 there.1) (here.2.trans there.2.symm)]

/-- Whether what was asked about unlinking records, and allowed, was about just those whose rows went, where records are
linked by the key that they are found by. -/
def Unlinks (context : Context) (owner target : Resource) (link : PivotLink) (parent : Row) (first last : Database)
    (calls later : List PolicyCall) : Prop :=
  ∃ gone : List Row, (∀ record ∈ gone, context.allows .detach target (some (target.keyOf record)) = true) ∧
    PolicyCall.about .detach later = PolicyCall.about .detach calls ++
      gone.flatMap (fun record => context.questions .detach target (some (target.keyOf record))) ∧
    (link.targetKey = target.key → gone.Perm (link.unlinked owner target parent (first.rows target.table.name)
      (first.rows link.table.name) (last.rows link.table.name)))

/-- Whether a record is missing that a sync looks for: one that a node names, or one that a row of the record leads to,
where records are linked by the key that they are found by. -/
def Lacks (owner target : Resource) (link : PivotLink) (parent : Row) (nodes : List Node) (database : Database) : Prop :=
  (∃ node ∈ nodes, (database.rows target.table.name).filter
    (target.isFor ((Members.get? node.attributes target.key).getD .null) false) = []) ∨
  (link.targetKey = target.key → ∃ row ∈ database.rows link.table.name, link.belongs owner target parent row = true ∧
    ∀ record ∈ database.rows target.table.name, link.reaches target record row = false)

/-- The keys that are known when one more is. -/
def learn (existing : List Value) (key : Value) : List Value :=
  if existing.any key.same then existing else existing ++ [key]

/-- What is done for one node: its record, the key by which that is linked, and the result. -/
def syncNode (context : Context) (target : Resource) (rows : JoinRows) (start : Nat) (existing : List Value) (node : Node)
    (last : Option Nat) : Job (Nat × Value × WriteResult) := do
  let number ← findLinked context target node .sync
  replace start last number
  let key := (← Job.record number).value rows.link.targetKey
  if existing.any key.same then
    if !node.pivot.isEmpty then rows.change key node.pivot
  else rows.add key node.pivot
  let result ← resultOf target number "sync" []
  return (number, key, result)

theorem syncNodes_cons (context : Context) (target : Resource) (rows : JoinRows) (start : Nat) (existing : List Value)
    (node : Node) (rest : List Node) (desired : List Value) (last : Option Nat) :
    syncNodes context target rows start existing (node :: rest) desired last = (do
      let done ← syncNode context target rows start existing node last
      return done.2.2 :: (← syncNodes context target rows start (learn existing done.2.1) rest (desired ++ [done.2.1])
        (some done.1))) := by
  rw [syncNodes]
  unfold syncNode learn
  simp only [bind_assoc]
  congr 1
  funext number
  congr 1
  funext _
  congr 1
  funext record
  by_cases known : existing.any (record.value rows.link.targetKey).same = true
  · by_cases empty : node.pivot.isEmpty = true <;>
      simp only [known, empty, Bool.not_true, Bool.not_false, Bool.false_eq_true, if_true, if_false, pure_bind, bind_assoc]
  · simp only [known, Bool.false_eq_true, if_false, pure_bind, bind_assoc]

section Nodes

variable {record : Record} {nodes : List Node} {node : Node} {start : Nat} {asked : List (Row × Members)}
  {existing desired : List Value} {last : Option Nat}
  (matched : link.Matched owner target first) (keepsOwner : first.Keeps owner.table)
  (keeps : first.Keeps target.table) (keyed : target.table.keyColumns ≠ []) (shows : record.Shows parent)
  (same : record.table = owner.table) (inside : parent ∈ first.rows owner.table.name)
  (known : parent.cell link.localKey ≠ .null)
  (linked : link.Linked owner target parent (first.rows link.table.name))
include matched keepsOwner keeps keyed shows same inside known linked

/-- Asking for the record of one node: its rows take the values of the node, or there is a row for it now. Work ends there
if there is no such record. -/
theorem syncNode_comesTo (free : link.Free node.pivot)
    (syncing : link.Syncing owner target parent first asked existing desired work) :
    (syncNode context target (JoinRows.ofRecord owner target link record) start existing node last).ComesTo work
      (fun done after => ∃ row, Names target first node (row, node.pivot) ∧
        link.Syncing owner target parent first (asked ++ [(row, node.pivot)]) (learn existing done.2.1)
          (desired ++ [done.2.1]) after ∧
        after.calls = work.calls ++ context.questions .attach target (some (target.keyOf row)))
      fun failure _ => failure.IsNotFound → (first.rows target.table.name).filter
        (target.isFor ((Members.get? node.attributes target.key).getD .null) false) = [] := by
  have table : (JoinRows.ofRecord owner target link record).link = link := JoinRows.link_ofRecord
  have foreign := Failure.isNotFound_ofStorage
  have keepsThen := keeps.of_touches syncing.beside.touched matched.besideTarget
  unfold syncNode
  rw [findLinked_eq]
  refine .bind ((findFor_comesTo syncing.beside.inStep keepsThen keyed).mono ?_ fun failure _ none notFound =>
    (syncing.beside.touched.rows_other matched.besideTarget) ▸ none notFound)
  rintro number found ⟨row, alone, stepped, grown, adds, ⟨other, there, sameToo, showsToo⟩, -, calls⟩
  rw [syncing.beside.touched.rows_other matched.besideTarget] at alone
  have insideToo := List.mem_of_mem_filter (alone ▸ List.mem_singleton_self row)
  obtain ⟨records, replaced⟩ := replace_runOn start last number found
  obtain ⟨besideLeft, database, held⟩ :=
    (syncing.beside.grow stepped grown adds matched.besideTarget).replace there replaced
  refine .bind_of_ok replaced (.bind_of_ok (record_runOn held) ?_)
  rw [table]
  have is := showsToo.isKey (sameToo ▸ keeps) (sameToo ▸ insideToo) (by rw [sameToo, ← matched.typed.related]; rfl)
    (matched.keyed row insideToo)
  have left : link.Syncing owner target parent first asked existing desired
      { found with records := records } := by
    have same := database.trans grown.database
    exact ⟨besideLeft, same ▸ syncing.progress, same ▸ syncing.known, syncing.asks, syncing.keys, syncing.valued⟩
  have storesThen :
      { found with records := records }.database.Stores (JoinRows.ofRecord owner target link record).link.table := by
    rw [table]
    exact left.beside.touched.stores matched.stores
  -- the result is read of the record in hand, whatever was done with the rows
  have finish {state : Work} (calls : state.calls = work.calls ++ context.questions .attach target (some (target.keyOf row)))
      (now : link.Syncing owner target parent first (asked ++ [(row, node.pivot)]) (learn existing (other.value link.targetKey))
        (desired ++ [other.value link.targetKey]) state) :
      (do
        let result ← resultOf target number "sync" []
        return (number, other.value link.targetKey, result) : Job (Nat × Value × WriteResult)).ComesTo state
        (fun done after => ∃ row, Names target first node (row, node.pivot) ∧
          link.Syncing owner target parent first (asked ++ [(row, node.pivot)]) (learn existing done.2.1)
            (desired ++ [done.2.1]) after ∧
          after.calls = work.calls ++ context.questions .attach target (some (target.keyOf row)))
        fun failure _ => failure.IsNotFound → (first.rows target.table.name).filter
          (target.isFor ((Members.get? node.attributes target.key).getD .null) false) = [] :=
    .bind_of_ok rfl (.pure ⟨row, ⟨alone, rfl⟩, now, calls⟩)
  refine .ite (fun any => ?_) fun none => ?_
  · have settled : learn existing (other.value link.targetKey) = existing := if_pos any
    refine .ite (fun _ => .bind ⟨fun _ state change => ?_, fun failure _ failed notFound =>
      (JoinRows.change_never foreign _ _ _ _ _ _ failed notFound).elim⟩) fun none => ?_
    · have now := left.change linked matched.nodup matched.stores matched.typed shows (same ▸ keepsOwner) (same ▸ inside) same
        known showsToo (sameToo ▸ keeps) (sameToo ▸ insideToo) sameToo is free any change
      exact finish ((JoinRows.change_calls storesThen change).trans calls) (settled.symm ▸ now)
    · have empty : node.pivot = [] := by simpa using none
      exact finish calls (settled.symm ▸ empty ▸ left.leave linked matched.nodup matched.typed is any)
  · rw [Bool.not_eq_true] at none
    have one : learn existing (other.value link.targetKey) = existing ++ [other.value link.targetKey] :=
      if_neg (Bool.not_eq_true _ ▸ none)
    refine .bind ⟨fun _ state add => ?_, fun failure _ failed notFound =>
      (JoinRows.add_never foreign _ _ _ _ _ _ failed notFound).elim⟩
    have now := left.add linked matched.nodup matched.stores matched.typed shows (same ▸ keepsOwner) (same ▸ inside) same known
      is free matched.tagged none add
    exact finish ((JoinRows.add_calls storesThen (by rw [table]; exact matched.nodup) add).trans calls) (one.symm ▸ now)

/-- Asking for the records of nodes one after the other, and letting go of what nobody asked for. -/
theorem syncNodes_comesTo (free : ∀ node ∈ nodes, link.Free node.pivot)
    (syncing : link.Syncing owner target parent first asked existing desired work) :
    (syncNodes context target (JoinRows.ofRecord owner target link record) start existing nodes desired last).ComesTo work
      (fun _ after => ∃ further, List.Forall₂ (Names target first) nodes further ∧
        link.Ended owner target parent first (asked ++ further) after.database ∧
        Unlinks context owner target link parent first after.database work.calls after.calls)
      fun failure _ => failure.IsNotFound → Lacks owner target link parent nodes first := by
  have table : (JoinRows.ofRecord owner target link record).link = link := JoinRows.link_ofRecord
  induction nodes generalizing work asked existing desired last with
  | nil =>
    rw [syncNodes]
    refine .bind_of_ok (get_runOn work) (.bind ((dropStale_comesTo table syncing.beside keeps keyed matched.besideTarget
      matched.stores _ _).mono ?_ ?_))
    · rintro _ after ⟨touched, left, gone, freed⟩
      have filtered : after.database.rows link.table.name =
          (work.database.rows link.table.name).filter (link.wanted owner target parent asked) := by
        rw [left]
        refine List.filter_congr fun row there => ?_
        have full := (syncing.progress.linked matched.nodup linked syncing.asks).full row there
        rw [JoinRows.owns_ofRecord shows (same ▸ keepsOwner) (same ▸ inside) same matched.nodup full matched.typed known]
        unfold PivotLink.wanted
        cases mine : link.belongs owner target parent row with
        | false => rfl
        | true =>
          have stale := syncing.known.leads_stale table syncing.progress matched.nodup linked matched.typed syncing.asks
            syncing.keys there mine
          rw [Bool.true_and, Bool.not_true, Bool.false_or, Bool.eq_iff_iff, Bool.not_eq_true', ← Bool.not_eq_true, stale]
          simp
      refine .pure ⟨[], .nil, ?_, gone, freed.allowed, ?_, fun named => ?_⟩
      · rw [List.append_nil]
        exact ⟨syncing.asks, syncing.valued, touched, work.database.rows link.table.name, syncing.progress, filtered⟩
      · rw [freed.asked, PolicyCall.about_append]
        congr 1
        refine List.filter_eq_self.2 fun call listed => ?_
        obtain ⟨row, -, asked⟩ := List.mem_flatMap.1 listed
        exact decide_eq_true (Context.action_of_questions asked)
      · exact syncing.gone_perm matched.typed named keeps linked matched.nodup (List.mergeSort_perm _ _) keyed freed.found
          filtered
    · rintro failure _ none notFound
      obtain ⟨key, listed, none⟩ := none notFound
      refine .inr fun named => ?_
      obtain ⟨row, there, mine, unasked, leads⟩ :=
        syncing.row_of_stale matched.typed named keeps linked matched.nodup (.refl _) listed
      have unreached (record : Row) (inside : record ∈ first.rows target.table.name) :
          link.reaches target record row = false := by
        rw [← leads record inside, ← Bool.not_eq_true]
        exact fun met => List.not_mem_nil (none ▸ List.mem_filter.2 ⟨inside, met⟩)
      obtain ⟨old, before, mineToo, marks⟩ :=
        syncing.progress.old_of_unasked matched.nodup linked syncing.asks there mine unasked
      exact ⟨old, before, mineToo, fun record inside =>
        (PivotLink.reaches_congr marks).symm.trans (unreached record inside)⟩
  | cons node rest ih =>
    rw [syncNodes_cons]
    refine .bind ((syncNode_comesTo matched keepsOwner keeps keyed shows same inside known linked
      (free node List.mem_cons_self) syncing).mono ?_ fun failure _ none notFound =>
        .inl ⟨node, List.mem_cons_self, none notFound⟩)
    rintro done state ⟨row, named, now, calls⟩
    refine .bind ((ih (fun node listed => free node (List.mem_cons_of_mem _ listed)) now).mono ?_ ?_)
    · rintro results after ⟨further, others, ended, gone, allowed, asked, perm⟩
      rw [List.append_assoc, List.singleton_append] at ended
      refine .pure ⟨(row, node.pivot) :: further, .cons named others, ended, gone, allowed, ?_, perm⟩
      rw [asked, calls, PolicyCall.about_append, PolicyCall.about_other (by decide), List.append_nil]
    · rintro failure _ fails notFound
      rcases fails notFound with ⟨other, listed, absent⟩ | lacks
      · exact .inl ⟨other, List.mem_cons_of_mem _ listed, absent⟩
      · exact .inr lacks

end Nodes

section Entries

variable {record : Record} {relation : Relation} {number start : Nat} {nodes : List Node} {results : List WriteResult}
  (matched : link.Matched owner target work.database) (keepsOwner : work.database.Keeps owner.table)
  (shows : record.Shows parent) (same : record.table = owner.table)
  (inside : parent ∈ work.database.rows owner.table.name) (known : parent.cell link.localKey ≠ .null)
  (readable : link.Readable owner target parent (work.database.rows link.table.name))
include matched keepsOwner shows same inside known readable

/-- The keys that a record is linked to at first are those of its rows. -/
theorem relatedKeys_known {keys : List Value}
    (ran : (JoinRows.ofRecord owner target link record).relatedKeys.runOn work = (.ok keys, after)) :
    after = work ∧ link.Linked owner target parent (work.database.rows link.table.name) ∧
      link.Known owner target parent keys (work.database.rows link.table.name) := by
  have table : (JoinRows.ofRecord owner target link record).link = link := JoinRows.link_ofRecord
  obtain ⟨rfl, read, all, once⟩ := JoinRows.relatedKeys_eq_ok ran
  simp only [JoinRows.column, table] at read all
  have owns (row : Row) (there : row ∈ after.database.rows link.table.name) :
      (JoinRows.ofRecord owner target link record).owns row = link.belongs owner target parent row :=
    JoinRows.owns_ofRecord shows (same ▸ keepsOwner) (same ▸ inside) same matched.nodup (readable.full row there)
      matched.typed known
  have own (key : Value) (listed : key ∈ keys) : ∃ row ∈ after.database.rows link.table.name,
      link.belongs owner target parent row = true ∧ key.IsKey link.keyType (row.cell link.relatedKey) := by
    obtain ⟨row, there, mine, is⟩ := read key listed
    rw [owns row there] at mine
    exact ⟨row, there, mine, readable.keyed row there mine key is⟩
  refine ⟨rfl, ⟨readable.full, fun row there mine => ?_⟩, fun key listed => ?_, fun row there mine => ?_, once⟩
  · obtain ⟨key, is, -⟩ := all row there ((owns row there).trans mine)
    exact ⟨key, readable.keyed row there mine key is⟩
  · obtain ⟨row, there, mine, is⟩ := own key listed
    exact ⟨row, there, mine, _, is, rfl⟩
  · obtain ⟨key, is, found⟩ := all row there ((owns row there).trans mine)
    have keyed := readable.keyed row there mine key is
    obtain ⟨other, listed, met⟩ := List.any_eq_true.1 (found ((keyed.same_iff keyed).2 (Cell.order_self _)))
    obtain ⟨row', -, -, also⟩ := own other listed
    exact ⟨other, listed, _, also, Cell.order_eq_iff.1 ((keyed.same_iff also).1 met)⟩

/-- Writing a relation of a join table to be synced. -/
theorem writeEntry_sync (own : relation.link = .pivot link) (leads : context.graph.target relation = .ok target)
    (keeps : work.database.Keeps target.table) (keyed : target.table.keyColumns ≠ []) (inStep : work.InStep)
    (apart : ∀ entry ∈ work.records, entry.2.table.name ≠ link.table.name)
    (there : work.records.lookup number = some record) (free : ∀ node ∈ nodes, link.Free node.pivot) :
    (writeEntry context owner number relation (.mk .sync nodes)).ComesTo work
      (fun _ after => link.Linked owner target parent (work.database.rows link.table.name) ∧
        ∃ asked, List.Forall₂ (Names target work.database) nodes asked ∧
          link.Ended owner target parent work.database asked after.database ∧
          Unlinks context owner target link parent work.database after.database work.calls after.calls)
      fun failure _ => failure.IsNotFound → Lacks owner target link parent nodes work.database := by
  rw [writeEntry, own]
  dsimp only
  refine .ite (fun _ => .bind (.fail ?_)) fun _ => .bind_of_ok (get_runOn work) ?_
  · rintro ⟨_, _, other⟩
    cases other
  rw [leads]
  refine .bind_of_ok (of_runOn _ work) (.bind_of_ok (record_runOn there) ?_)
  rw [if_pos rfl]
  refine .bind ⟨fun existing state read => ?_, fun failure _ failed notFound =>
    (JoinRows.relatedKeys_never Failure.isNotFound_ofStorage _ _ _ _ failed notFound).elim⟩
  obtain ⟨rfl, linked, known'⟩ := relatedKeys_known matched keepsOwner shows same inside known readable read
  refine .bind ((syncNodes_comesTo matched keepsOwner keeps keyed shows same inside known linked free
    ⟨⟨inStep, apart, .refl _ _⟩, .start link owner target parent _, known', ⟨by simp, by simp⟩, .nil, by simp⟩).mono ?_
    fun _ _ => id)
  rintro results last ⟨asked, named, ended, unlinks⟩
  exact .bind_of_ok rfl (.pure ⟨linked, asked, named, ended, unlinks⟩)

end Entries

section Requests

variable {relation : Relation} {nodes : List Node} {node : Node} {key : Json}

/-- What a request to sync is about: the record that is synced, and the records that its nodes name. -/
structure Requested (owner target : Resource) (link : PivotLink) (nodes : List Node) (key : Json) (parent : Row)
    (asked : List (Row × Members)) (database : Database) : Prop where
  alone : (database.rows owner.table.name).filter (owner.isFor key false) = [parent]
  named : List.Forall₂ (Names target database) nodes asked

/-- What a sync of one record leaves, and what it lacks if it ends for a record that is not found. -/
theorem execute_sync (own : relation.link = .pivot link)
    (leads : context.graph.target relation = .ok target) (below : relation.kind.linkPlace ≠ .parent)
    (matched : link.Matched owner target work.database)
    (keepsOwner : work.database.Keeps owner.table) (keyedOwner : owner.table.keyColumns ≠ [])
    (keeps : work.database.Keeps target.table) (keyed : target.table.keyColumns ≠ []) (none : work.records = [])
    (known : ∀ row ∈ work.database.rows owner.table.name, owner.isFor key false row = true →
      row.cell link.localKey ≠ .null)
    (readable : ∀ row ∈ work.database.rows owner.table.name, owner.isFor key false row = true →
      link.Readable owner target row (work.database.rows link.table.name))
    (through : Through owner relation (.mk .sync nodes) key node) (free : ∀ node ∈ nodes, link.Free node.pivot) :
    (execute context owner [node]).ComesTo work
      (fun _ after => ∃ parent asked, Requested owner target link nodes key parent asked work.database ∧
        link.Linked owner target parent (work.database.rows link.table.name) ∧
        link.Ended owner target parent work.database asked after.database ∧
        Unlinks context owner target link parent work.database after.database work.calls after.calls)
      fun failure _ => failure.IsNotFound →
        (work.database.rows owner.table.name).filter (owner.isFor key false) = [] ∨
          ∃ parent, (work.database.rows owner.table.name).filter (owner.isFor key false) = [parent] ∧
            Lacks owner target link parent nodes work.database := by
  have inStep : work.InStep := ⟨by simp [none], by simp [none], by simp [none]⟩
  let good (last : Database) (calls : List PolicyCall) : Prop := ∃ parent asked,
    Requested owner target link nodes key parent asked work.database ∧
      link.Linked owner target parent (work.database.rows link.table.name) ∧
      link.Ended owner target parent work.database asked last ∧
      Unlinks context owner target link parent work.database last work.calls calls
  refine execute_single_comesTo good (writeNode_comesTo through below inStep keepsOwner keyedOwner good _ ?_)
  intro parent number found record alone stepped grown adds there same shows calls
  have inside := List.mem_filter.1 (alone ▸ List.mem_singleton_self parent)
  have apart : ∀ entry ∈ found.records, entry.2.table.name ≠ link.table.name := by
    intro entry listed
    rcases adds entry listed with before | new
    · rw [none] at before
      cases before
    · rw [new]
      exact matched.besideOwner
  have knownHere := known parent inside.1 inside.2
  have readableHere := readable parent inside.1 inside.2
  rw [← grown.database] at matched keepsOwner keeps inside readableHere
  refine (writeEntry_sync matched keepsOwner shows same inside.1 knownHere readableHere own leads keeps keyed stepped apart
    there free).mono ?_ ?_ <;> rw [grown.database]
  · rintro _ last ⟨linked, asked, named, ended, gone, allowed, about, perm⟩
    refine ⟨parent, asked, ⟨alone, named⟩, linked, ended, gone, allowed, ?_, perm⟩
    rw [about, calls, PolicyCall.about_append, PolicyCall.about_other (by decide), List.append_nil]
  · exact fun _ _ lacks notFound => ⟨parent, alone, lacks notFound⟩

/-- Syncing the records of one record through a relation, in a graph and a database of any form: the rows of the join
table that belong to it lead to what the nodes name and to nothing else, those that are kept take the values of their
nodes and those that are added carry them, no other row changes, and doing the same again changes nothing. -/
theorem syncs_of_execute {schema : Schema} {declarations : List ResourceDeclaration} {result : MutationResult}
    (built : Graph.build schema declarations = .ok context.graph) (declared : owner ∈ context.graph.resources)
    (own : relation.link = .pivot link) (leads : context.graph.target relation = .ok target)
    (kept : Kept context.graph work.database) (joined : work.database.Keeps link.table)
    (matched : link.Matched owner target work.database)
    (related : ∀ row ∈ work.database.rows link.table.name, link.keyType.Holds (row.cell link.relatedKey))
    (known : ∀ row ∈ work.database.rows owner.table.name, owner.isFor key false row = true →
      row.cell link.localKey ≠ .null)
    (none : work.records = []) (through : Through owner relation (.mk .sync nodes) key node)
    (free : ∀ node ∈ nodes, link.Free node.pivot)
    (ran : (execute context owner [node]).runOn work = (.ok result, after)) :
    ∃ parent asked, Requested owner target link nodes key parent asked work.database ∧
      (∀ entry ∈ asked, ∃ cells, link.cells entry.2 = .ok cells) ∧
      (∀ name, name ≠ link.table.name → after.database.rows name = work.database.rows name) ∧
      link.Syncs owner target parent asked (work.database.rows link.table.name)
        (after.database.rows link.table.name) ∧
      ∀ again : Work, again.database = after.database → again.records = [] → ∀ name,
        (((execute context owner [node]).runOn again).2.database.rows name).Perm (after.database.rows name) := by
  have sound := Graph.sound_of_build built owner declared
  have placed := (sound.relations relation (Resource.mem_of_relation? through.known).1).placed
  have below : relation.kind.linkPlace ≠ .parent := by simp [← placed, own, Link.place]
  have declaredToo := Graph.mem_of_target leads
  have readable (parent : Row) : link.Readable owner target parent (work.database.rows link.table.name) :=
    ⟨joined.full, fun row there _ _ read => Table.isKey_of_ofCell joined there rfl (related row there) read⟩
  obtain ⟨parent, asked, requested, linked, ended, -⟩ := (execute_sync own leads below matched (kept.keeps owner declared)
    (kept.keyed owner declared) (kept.keeps target declaredToo) (kept.keyed target declaredToo) none known
    (fun parent _ _ => readable parent) through free).1 _ _ ran
  obtain ⟨now, progress, left⟩ := ended.rows
  refine ⟨parent, asked, requested, ended.valued, fun name other => ended.touched.rows_other other,
    progress.syncs matched.nodup linked matched.typed ended.asks left, ?_⟩
  intro again database empty name
  rcases repeated : (execute context owner [node]).runOn again with ⟨failure | second, last⟩
  · rw [execute_single_eq_error repeated, database]
  · have owners := ended.touched.rows_other matched.besideOwner
    have targets := ended.touched.rows_other matched.besideTarget
    have only (row : Row) (there : row ∈ after.database.rows owner.table.name) (is : owner.isFor key false row = true) :
        row = parent := by
      rw [owners] at there
      exact List.mem_singleton.1 (requested.alone ▸ List.mem_filter.2 ⟨there, is⟩)
    have linkedThen : link.Linked owner target parent (after.database.rows link.table.name) := by
      have still := progress.linked matched.nodup linked ended.asks
      rw [left]
      exact ⟨fun row there => still.full row (List.mem_of_mem_filter there),
        fun row there => still.keyed row (List.mem_of_mem_filter there)⟩
    have matchedThen : link.Matched owner target after.database :=
      ⟨ended.touched.stores matched.stores, matched.nodup, matched.typed, matched.tagged, by rw [targets]; exact matched.keyed,
        matched.besideOwner, matched.besideTarget⟩
    rw [← database] at owners targets only linkedThen matchedThen
    have touched : work.database.Touches again.database link.table.name := database ▸ ended.touched
    obtain ⟨parent', asked', requested', linked', ended', -⟩ := (execute_sync own leads below matchedThen
      ((kept.keeps owner declared).of_touches touched matched.besideOwner) (kept.keyed owner declared)
      ((kept.keeps target declaredToo).of_touches touched matched.besideTarget) (kept.keyed target declaredToo) empty
      (by rw [owners]; exact known) (fun row there is => only row there is ▸ linkedThen.readable) through free).1 _ _
      repeated
    obtain rfl : parent = parent' := by
      have one := requested'.alone
      rw [owners, requested.alone] at one
      exact List.singleton_inj.1 one
    obtain rfl := eq_of_names targets requested.named requested'.named
    have settled := progress.settled matched.nodup linked matched.typed ended.asks left
    rw [← database] at settled ⊢
    by_cases joinTable : name = link.table.name
    · obtain ⟨now', progress', left'⟩ := ended'.rows
      rw [joinTable]
      exact progress'.perm_of_settled matched.nodup linked' matched.typed ended.asks left' settled
    · rw [ended'.touched.rows_other joinTable]

end Requests

end Runs

/-! ## Keys that rows are found by, and keys that they are not -/

namespace Tags

def posts : Table := ⟨"posts", [{ name := "slug", type := .string, isKey := true, isNullable := false }]⟩

def tags : Table := ⟨"tags",
  [{ name := "slug", type := .string, isKey := true, isNullable := false }, { name := "code", type := .string }]⟩

def tagged : Table := ⟨"post_tag",
  [{ name := "post", type := .string }, { name := "tag", type := .string }, { name := "note", type := .string }]⟩

def schema : Schema := { tables := [posts, tags, tagged] }

/-- Posts have tags by a column of the tags. -/
def link (key : String) : PivotLink := ⟨tagged, "post", "tag", "slug", key, none, ["note"]⟩

def through (key : String) : Relation := ⟨"tags", .belongsToMany, ["Tag"], .pivot (link key)⟩

def declarations (key : String) : List ResourceDeclaration := [
  { name := "Post", table := posts, options := [("fields", .list [.text "slug"])], scopes := []
    relations := [{ name := "tags", kind := .belongsToMany, targets := [.text "Tag"], pivotTable := .text "post_tag"
                    foreignPivotKey := .text "post", relatedPivotKey := .text "tag", localKey := .text "slug"
                    relatedKey := .text key, pivotFields := [.text "note"] }] },
  { name := "Tag", table := tags, options := [("fields", .list [.text "slug"])], scopes := [], relations := [] }]

def post (key : String) : Resource where
  name := "Post"
  table := posts
  key := "slug"
  fields := ["slug"]
  scopes := []
  limits := [.int 10, .int 25, .int 50]
  defaultLimit := .int 50
  defaultOrder := [("slug", .desc)]
  relations := [through key]
  fillable := []
  softDeletes := .bool false
  deletedAt := none
  morphAlias := .text "posts"
  gates := true

def tag : Resource := { post "slug" with name := "Tag", table := tags, relations := [], morphAlias := .text "tags" }

def graph (key : String) : Graph := ⟨[post key, tag]⟩

theorem graph_of_declarations : Graph.build schema (declarations "slug") = .ok (graph "slug") := rfl

def coded (slug : String) (code : Cell) : Row := [("slug", .text slug), ("code", code)]

def noted (post tag note : String) : Row := [("post", .text post), ("tag", .text tag), ("note", .text note)]

/-- Two posts and three tags, two of which the first post has; the second post has one of them too. -/
def database : Database :=
  ⟨[⟨posts, [[("slug", .text "a")], [("slug", .text "b")]]⟩,
    ⟨tags, [coded "x" .null, coded "y" .null, coded "z" .null]⟩,
    ⟨tagged, [noted "a" "x" "old", noted "b" "x" "other", noted "a" "y" "gone"]⟩]⟩

def named (slug note : String) : Node := .mk [("slug", .text slug)] [("note", .text note)] none []

/-- The nodes ask for the first tag once, and for one that the post does not have twice. -/
def nodes : List Node := [named "x" "new", named "z" "first", named "z" "last"]

def request (nodes : List Node) : Node := .mk [("slug", .text "a")] [] none [("tags", .mk .sync nodes)]

theorem returns {table : Table} {rows : List Row} (strings : ∀ column ∈ table.columns, column.type = .string)
    (held : ∀ row ∈ rows, ∀ column ∈ table.columns, row.cell column.name = .null ∨ ∃ s, row.cell column.name = .text s) :
    ∀ row ∈ rows, ∀ column ∈ table.columns, column.Returns (row.cell column.name) := by
  intro row listed column there
  rcases held row listed column there with null | ⟨s, text⟩
  · rw [null]
    exact .null column
  · rw [text]
    exact .text (strings column there) s

theorem kept : Kept (graph "slug") database := by
  constructor
  · intro resource listed
    rcases List.mem_cons.1 listed with rfl | listed
    · refine ⟨⟨_, rfl⟩, by decide, by decide, returns (by decide) ?_, by decide⟩
      simp [post, posts, Database.rows, Database.table?, database, Row.cell]
    · obtain rfl := List.mem_singleton.1 listed
      refine ⟨⟨_, rfl⟩, by decide, by decide, returns (by decide) ?_, by decide⟩
      simp [tag, tags, Database.rows, Database.table?, database, Row.cell, coded, posts, List.lookup]
  · decide

theorem joined : database.Keeps (link "slug").table := by
  refine ⟨⟨_, rfl⟩, by decide, by decide, returns (by decide) ?_, by decide⟩
  simp [link, tagged, tags, posts, Database.rows, Database.table?, database, Row.cell, noted, List.lookup]

theorem matched : (link "slug").Matched (post "slug") tag database := by
  refine ⟨⟨_, rfl⟩, by decide, ⟨rfl, rfl, by simp [link]⟩, (fun _ _ same => by cases same), ?_, by decide, by decide⟩
  simp [link, tag, tags, posts, Database.rows, Database.table?, database, Row.cell, coded, PivotLink.keyType, Table.ref,
    Table.column?, tagged, ColumnType.Holds]

theorem related : ∀ row ∈ database.rows (link "slug").table.name,
    (link "slug").keyType.Holds (row.cell (link "slug").relatedKey) := by
  simp [link, tagged, tags, posts, Database.rows, Database.table?, database, Row.cell, noted, List.lookup,
    PivotLink.keyType, Table.ref, Table.column?, ColumnType.Holds]

theorem through_request : Through (post "slug") (through "slug") (.mk .sync nodes) (.text "a") (request nodes) :=
  ⟨rfl, rfl, rfl, by simp [post], rfl⟩

theorem free : ∀ node ∈ nodes, (link "slug").Free node.pivot := by
  have marks : ("note" : String) ∉ (link "slug").marks := by decide
  have alone (note : String) : (link "slug").Free [("note", .text note)] := by
    refine ⟨by simpa [PivotLink.Spares] using marks, fun entry listed column found placed => ?_⟩
    cases placed
  simpa [nodes, named, Node.pivot] using ⟨alone "new", alone "first", alone "last"⟩

theorem named_nodes : List.Forall₂ (Names tag database) nodes
    [(coded "x" .null, [("note", .text "new")]), (coded "z" .null, [("note", .text "first")]),
      (coded "z" .null, [("note", .text "last")])] :=
  .cons ⟨by decide, rfl⟩ (.cons ⟨by decide, rfl⟩ (.cons ⟨by decide, rfl⟩ .nil))

/-- The tags of a post become those that are named. -/
theorem syncs_of_named : ∃ result after,
    (execute { graph := graph "slug" } (post "slug") [request nodes]).runOn { database := database } = (.ok result, after) ∧
      (link "slug").Syncs (post "slug") tag [("slug", .text "a")]
        [(coded "x" .null, [("note", .text "new")]), (coded "z" .null, [("note", .text "first")]),
          (coded "z" .null, [("note", .text "last")])]
        (database.rows "post_tag") (after.database.rows "post_tag") := by
  rcases ran : (execute { graph := graph "slug" } (post "slug") [request nodes]).runOn { database := database } with
    ⟨failure | result, after⟩
  · have succeeds : ((execute { graph := graph "slug" } (post "slug") [request nodes]).runOn
        { database := database }).1.toBool = true := by
      set_option maxRecDepth 8000 in cbv
    rw [ran] at succeeds
    cases succeeds
  · refine ⟨result, after, rfl, ?_⟩
    obtain ⟨parent, asked, requested, -, -, syncs, -⟩ := syncs_of_execute graph_of_declarations List.mem_cons_self rfl rfl
      kept joined matched related (by decide) rfl through_request free ran
    obtain rfl : [("slug", .text "a")] = parent := List.singleton_inj.1 requested.alone
    obtain rfl := eq_of_names rfl named_nodes requested.named
    exact syncs

/-- A tag without a code. -/
def uncoded : Database :=
  ⟨[⟨posts, [[("slug", .text "a")]]⟩, ⟨tags, [coded "x" .null]⟩, ⟨tagged, []⟩]⟩

/-- A row that leads to no code does not take the last value that is asked for its tag. -/
theorem last_value_lost : ∃ result after,
    (execute { graph := graph "code" } (post "code") [request [named "x" "first", named "x" "last"]]).runOn
      { database := uncoded } = (.ok result, after) ∧
    after.database.rows "post_tag" = [[("post", .text "a"), ("tag", .null), ("note", .text "first")]] := by
  refine ⟨_, _, rfl, ?_⟩
  decide

end Tags

end Mutation

end ResourceApi
