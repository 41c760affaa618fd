import ResourceApi.Proofs.Session.Taken

/-!
Rows of a join table brought to what is asked of them. The records that are asked for come one after the other, each with
values for the rows that lead to it: where there are such rows they take the values, and where there is none one is added.
What is reached after some of them is an invariant: the rows that were there, with all values they were given so far, and
new rows for what had none.
-/

namespace ResourceApi

open Outcome

namespace PivotLink

variable {link : PivotLink} {owner target : Resource} {parent row other : Row}

/-! ## What is asked -/

/-- The values that are asked for a row, in the order in which its record is asked for. -/
def pivotsFor (link : PivotLink) (target : Resource) (asked : List (Row × Members)) (row : Row) : List Members :=
  (asked.filter fun entry => link.reaches target entry.1 row).map (·.2)

/-- A row of a record after it took all values that are asked for it. -/
def brought (link : PivotLink) (owner target : Resource) (parent : Row) (asked : List (Row × Members)) (row : Row) : Row :=
  if link.belongs owner target parent row then link.take (link.pivotsFor target asked row) row else row

/-- A row of a record after it took the values that are asked with a related record. -/
def changed (link : PivotLink) (owner target : Resource) (parent : Row) (entry : Row × Members) (row : Row) : Row :=
  if link.belongs owner target parent row && link.reaches target entry.1 row then link.assign entry.2 row else row

/-- Whether related records are asked for by keys, with values that leave alone what a row links. -/
structure Asks (link : PivotLink) (asked : List (Row × Members)) : Prop where
  keyed : ∀ entry ∈ asked, ∃ key, Value.IsKey link.keyType key (entry.1.cell link.targetKey)
  spares : ∀ entry ∈ asked, link.Spares entry.2

/-- Whether rows are as the columns keep them, and those of a record lead on by keys. -/
structure Linked (link : PivotLink) (owner target : Resource) (parent : Row) (rows : List Row) : Prop where
  full : ∀ row ∈ rows, link.table.fullRow row = row
  keyed : ∀ row ∈ rows, link.belongs owner target parent row = true →
    ∃ key, Value.IsKey link.keyType key (row.cell link.relatedKey)

theorem pivotsFor_concat (asked : List (Row × Members)) (entry : Row × Members) (row : Row) :
    link.pivotsFor target (asked ++ [entry]) row =
      link.pivotsFor target asked row ++ if link.reaches target entry.1 row then [entry.2] else [] := by
  unfold pivotsFor
  rw [List.filter_append, List.map_append, List.filter_cons, List.filter_nil]
  split <;> rfl

theorem pivotsFor_congr (asked : List (Row × Members)) (same : ∀ name ∈ link.marks, other.cell name = row.cell name) :
    link.pivotsFor target asked other = link.pivotsFor target asked row := by
  unfold pivotsFor
  congr 2
  funext entry
  exact reaches_congr same

theorem Asks.pivotsFor {asked : List (Row × Members)} (asks : link.Asks asked) (row : Row) :
    ∀ pivot ∈ link.pivotsFor target asked row, link.Spares pivot := by
  intro pivot listed
  obtain ⟨entry, present, rfl⟩ := List.mem_map.1 listed
  exact asks.spares entry (List.mem_of_mem_filter present)

theorem Asks.init {asked : List (Row × Members)} {entry : Row × Members} (asks : link.Asks (asked ++ [entry])) :
    link.Asks asked :=
  ⟨fun other listed => asks.keyed other (List.mem_append_left _ listed),
    fun other listed => asks.spares other (List.mem_append_left _ listed)⟩

section Brought

variable {asked : List (Row × Members)} {entry : Row × Members} (nodup : link.table.columnNames.Nodup)
  (full : link.table.fullRow row = row)
include nodup full

theorem full_brought (asked : List (Row × Members)) :
    link.table.fullRow (link.brought owner target parent asked row) = link.brought owner target parent asked row := by
  unfold brought
  split
  · exact full_take nodup full _
  · exact full

theorem full_changed (entry : Row × Members) :
    link.table.fullRow (link.changed owner target parent entry row) = link.changed owner target parent entry row := by
  unfold changed
  split
  · exact full_assign nodup full _
  · exact full

theorem cell_brought (owner target : Resource) (parent : Row) (asks : link.Asks asked) :
    ∀ name ∈ link.marks, (link.brought owner target parent asked row).cell name = row.cell name := by
  intro name marked
  unfold brought
  split
  · exact cell_take_of_spares nodup full (asks.pivotsFor row) marked
  · rfl

theorem cell_changed (owner target : Resource) (parent : Row) (spares : link.Spares entry.2) :
    ∀ name ∈ link.marks, (link.changed owner target parent entry row).cell name = row.cell name := by
  intro name marked
  unfold changed
  split
  · exact cell_assign_of_spares nodup full spares marked
  · rfl

/-- What is asked with one more record is taken last. -/
theorem changed_brought (asks : link.Asks asked) :
    link.changed owner target parent entry (link.brought owner target parent asked row) =
      link.brought owner target parent (asked ++ [entry]) row := by
  have marks := cell_brought nodup full owner target parent asks
  have mine : link.belongs owner target parent (link.brought owner target parent asked row) =
      link.belongs owner target parent row := belongs_congr marks
  unfold changed
  rw [mine, reaches_congr marks]
  unfold brought
  rw [pivotsFor_concat]
  cases link.belongs owner target parent row with
  | false => simp
  | true => cases link.reaches target entry.1 row <;> simp

end Brought

/-! ## Record by record -/

/-- Rows that are added for what was asked and had none. -/
structure Fills (link : PivotLink) (owner target : Resource) (parent : Row) (before : List Row)
    (asked : List (Row × Members)) (added : List Row) : Prop where
  linked : link.Linked owner target parent added
  belongs : ∀ row ∈ added, link.belongs owner target parent row = true
  carried : ∀ row ∈ added, link.take (link.pivotsFor target asked row) row = row
  asked : ∀ row ∈ added, ∃ entry ∈ asked, link.reaches target entry.1 row = true
  new : ∀ row ∈ added, ∀ old ∈ before, link.belongs owner target parent old = true →
    (old.cell link.relatedKey).place ≠ (row.cell link.relatedKey).place
  once : added.Pairwise fun first second => (first.cell link.relatedKey).place ≠ (second.cell link.relatedKey).place

/-- The rows of a table after some records were asked for: those that were there, with the values they were given, and new
ones for what had none. -/
structure Progress (link : PivotLink) (owner target : Resource) (parent : Row) (before : List Row)
    (asked : List (Row × Members)) (now : List Row) : Prop where
  rows : ∃ added, now.Perm (before.map (link.brought owner target parent asked) ++ added) ∧
    link.Fills owner target parent before asked added
  covered : ∀ entry ∈ asked, ∃ row ∈ now, link.belongs owner target parent row = true ∧
    link.reaches target entry.1 row = true

namespace Fills

variable {before added : List Row} {asked : List (Row × Members)} {entry : Row × Members}
  (fills : link.Fills owner target parent before asked added)
include fills

/-- Rows that were added take further values. -/
theorem change (nodup : link.table.columnNames.Nodup) (spares : link.Spares entry.2) :
    link.Fills owner target parent before (asked ++ [entry]) (added.map (link.changed owner target parent entry)) := by
  have marks (row : Row) (new : row ∈ added) := cell_changed nodup (fills.linked.full row new) owner target parent spares
  have related (row : Row) (new : row ∈ added) := marks row new link.relatedKey (by simp [PivotLink.marks])
  refine ⟨⟨List.forall_mem_map.2 fun row new => full_changed nodup (fills.linked.full row new) entry,
    List.forall_mem_map.2 fun row new _ => ?_⟩, List.forall_mem_map.2 fun row new => ?_,
    List.forall_mem_map.2 fun row new => ?_, List.forall_mem_map.2 fun row new => ?_,
    List.forall_mem_map.2 fun row new old there mine => ?_, ?_⟩
  · rw [related row new]
    exact fills.linked.keyed row new (fills.belongs row new)
  · rw [belongs_congr (marks row new)]
    exact fills.belongs row new
  · rw [pivotsFor_congr _ (marks row new), pivotsFor_concat, changed, fills.belongs row new, Bool.true_and]
    cases link.reaches target entry.1 row with
    | true => exact take_concat_assign nodup (fills.linked.full row new) (fills.carried row new) entry.2
    | false => simpa using fills.carried row new
  · obtain ⟨other, present, reached⟩ := fills.asked row new
    exact ⟨other, List.mem_append_left _ present, by rw [reaches_congr (marks row new), reached]⟩
  · rw [related row new]
    exact fills.new row new old there mine
  · rw [List.pairwise_map]
    refine fills.once.imp_of_mem fun {one two} new newToo apart => ?_
    rw [related one new, related two newToo]
    exact apart

/-- One more row is added, which stands at no place where a row of the record stands. -/
theorem cons {new : Row} {key : Value} (full : link.table.fullRow new = new)
    (mine : link.belongs owner target parent new = true) (linked : key.IsKey link.keyType (new.cell link.relatedKey))
    (reached : link.reaches target entry.1 new = true) (carried : link.assign entry.2 new = new)
    (none : link.pivotsFor target asked new = [])
    (unreached : ∀ row ∈ added, link.reaches target entry.1 row = false)
    (old : ∀ row ∈ before, link.belongs owner target parent row = true →
      (row.cell link.relatedKey).place ≠ (new.cell link.relatedKey).place)
    (others : ∀ row ∈ added, (new.cell link.relatedKey).place ≠ (row.cell link.relatedKey).place) :
    link.Fills owner target parent before (asked ++ [entry]) (new :: added) where
  linked := ⟨List.forall_mem_cons.2 ⟨full, fills.linked.full⟩,
    List.forall_mem_cons.2 ⟨fun _ => ⟨key, linked⟩, fills.linked.keyed⟩⟩
  belongs := List.forall_mem_cons.2 ⟨mine, fills.belongs⟩
  carried := by
    refine List.forall_mem_cons.2 ⟨?_, fun row there => ?_⟩
    · rw [pivotsFor_concat, none, if_pos reached]
      exact carried
    · rw [pivotsFor_concat, unreached row there]
      simpa using fills.carried row there
  asked := by
    refine List.forall_mem_cons.2 ⟨⟨entry, by simp, reached⟩, fun row there => ?_⟩
    obtain ⟨other, listed, met⟩ := fills.asked row there
    exact ⟨other, List.mem_append_left _ listed, met⟩
  new := List.forall_mem_cons.2 ⟨old, fills.new⟩
  once := List.pairwise_cons.2 ⟨others, fills.once⟩

end Fills

namespace Progress

variable {before now later : List Row} {asked : List (Row × Members)} {entry : Row × Members}

theorem start (link : PivotLink) (owner target : Resource) (parent : Row) (before : List Row) :
    link.Progress owner target parent before [] before where
  rows := by
    refine ⟨[], ?_, ⟨⟨by simp, by simp⟩, by simp, by simp, by simp, by simp, .nil⟩⟩
    have same : link.brought owner target parent [] = id := by
      funext row
      simp [brought, pivotsFor]
    rw [same, List.map_id, List.append_nil]
  covered := by simp

/-- A row that was there is still there, with what it was given. -/
theorem brought_mem (progress : link.Progress owner target parent before asked now) (there : row ∈ before) :
    link.brought owner target parent asked row ∈ now := by
  obtain ⟨added, perm, -⟩ := progress.rows
  exact perm.mem_iff.2 (List.mem_append_left _ (List.mem_map_of_mem there))

variable (progress : link.Progress owner target parent before asked now) (nodup : link.table.columnNames.Nodup)
  (first : link.Linked owner target parent before)
include progress nodup first

/-- The rows are as the columns keep them all the time, and those of the record lead on by keys. -/
theorem linked (asks : link.Asks asked) : link.Linked owner target parent now := by
  obtain ⟨added, perm, fills⟩ := progress.rows
  constructor
  · intro row listed
    rcases List.mem_append.1 (perm.mem_iff.1 listed) with old | new
    · obtain ⟨row, there, rfl⟩ := List.mem_map.1 old
      exact full_brought nodup (first.full row there) asked
    · exact fills.linked.full row new
  · intro row listed mine
    rcases List.mem_append.1 (perm.mem_iff.1 listed) with old | new
    · obtain ⟨row, there, rfl⟩ := List.mem_map.1 old
      have marks := cell_brought nodup (first.full row there) owner target parent asks
      rw [belongs_congr marks] at mine
      rw [marks link.relatedKey (by simp [PivotLink.marks])]
      exact first.keyed row there mine
    · exact fills.linked.keyed row new mine

/-- A row of the record that leads to nothing that is asked is one that was there, but for its values. -/
theorem old_of_unasked (asks : link.Asks asked) (there : row ∈ now) (mine : link.belongs owner target parent row = true)
    (unasked : ∀ entry ∈ asked, link.reaches target entry.1 row = false) :
    ∃ old ∈ before, link.belongs owner target parent old = true ∧ ∀ name ∈ link.marks, row.cell name = old.cell name := by
  obtain ⟨added, perm, fills⟩ := progress.rows
  rcases List.mem_append.1 (perm.mem_iff.1 there) with kept | new
  · obtain ⟨old, before, rfl⟩ := List.mem_map.1 kept
    have marks := cell_brought nodup (first.full old before) owner target parent asks
    exact ⟨old, before, (belongs_congr marks).symm.trans mine, marks⟩
  · obtain ⟨entry, present, met⟩ := fills.asked row new
    rw [unasked entry present] at met
    cases met

/-- Two related records that a row leads to have one key. -/
theorem place_eq (typed : link.Typed owner target) (asks : link.Asks asked) (there : row ∈ now)
    (mine : link.belongs owner target parent row = true) (listed : entry ∈ asked) :
    link.reaches target entry.1 row = true ↔
      (row.cell link.relatedKey).place = (entry.1.cell link.targetKey).place := by
  obtain ⟨key, linked⟩ := (progress.linked nodup first asks).keyed row there mine
  obtain ⟨value, keyed⟩ := asks.keyed entry listed
  exact reaches_iff typed linked keyed

/-- A related record that some row leads to: all such rows take the values. -/
theorem change (asks : link.Asks (asked ++ [entry]))
    (there : ∃ row ∈ now, link.belongs owner target parent row = true ∧ link.reaches target entry.1 row = true)
    (perm : later.Perm (now.map (link.changed owner target parent entry))) :
    link.Progress owner target parent before (asked ++ [entry]) later := by
  have spares : link.Spares entry.2 := asks.spares entry (by simp)
  have still := progress.linked nodup first asks.init
  obtain ⟨added, earlier, fills⟩ := progress.rows
  refine ⟨⟨added.map (link.changed owner target parent entry), ?_, fills.change nodup spares⟩, ?_⟩
  · refine perm.trans ((earlier.map _).trans (List.Perm.of_eq ?_))
    rw [List.map_append, List.map_map]
    congr 1
    exact List.map_congr_left fun row there => changed_brought nodup (first.full row there) asks.init
  · intro other listed
    obtain ⟨row, present, mine, reached⟩ : ∃ row ∈ now, link.belongs owner target parent row = true ∧
        link.reaches target other.1 row = true := by
      rcases List.mem_append.1 listed with before | same
      · exact progress.covered other before
      · obtain rfl := List.mem_singleton.1 same
        exact there
    have kept := cell_changed nodup (still.full row present) owner target parent spares
    exact ⟨_, perm.mem_iff.2 (List.mem_map_of_mem present), by rw [belongs_congr kept, mine],
      by rw [reaches_congr kept, reached]⟩

section Free

variable {new : Row} {key : Value} (typed : link.Typed owner target) (asks : link.Asks (asked ++ [entry]))
  (linked : key.IsKey link.keyType (new.cell link.relatedKey)) (reached : link.reaches target entry.1 new = true)
  (absent : ∀ row ∈ now, link.belongs owner target parent row = true → link.reaches target entry.1 row = false)
include typed asks linked reached absent

/-- Where no row leads to what is asked, no row of the record stands at the place of one that does. -/
private theorem place_ne {row : Row} (there : row ∈ now) (own : link.belongs owner target parent row = true) :
    (row.cell link.relatedKey).place ≠ (new.cell link.relatedKey).place := by
  intro same
  obtain ⟨value, keyed⟩ := asks.keyed entry (by simp)
  obtain ⟨other, known⟩ := (progress.linked nodup first asks.init).keyed row there own
  have reaches := (reaches_iff typed known keyed).2 (same.trans ((reaches_iff typed linked keyed).1 reached))
  rw [absent row there own] at reaches
  cases reaches

/-- Nothing was asked before for a row that leads to what no row led to. -/
private theorem pivotsFor_eq_nil : link.pivotsFor target asked new = [] := by
  rw [pivotsFor, List.map_eq_nil_iff, List.filter_eq_nil_iff]
  intro other listed leads
  obtain ⟨row, there, own, met⟩ := progress.covered other listed
  obtain ⟨value, keyed⟩ := asks.init.keyed other listed
  refine progress.place_ne nodup first typed asks linked reached absent there own
    (((progress.place_eq nodup first typed asks.init there own listed).1 met).trans ?_)
  exact ((reaches_iff typed linked keyed).1 leads).symm

/-- A related record that no row leads to: a row that carries the values is added. -/
theorem add (full : link.table.fullRow new = new) (mine : link.belongs owner target parent new = true)
    (carried : link.assign entry.2 new = new) (perm : later.Perm (new :: now)) :
    link.Progress owner target parent before (asked ++ [entry]) later := by
  have none := progress.pivotsFor_eq_nil nodup first typed asks linked reached absent
  have free {row : Row} (there : row ∈ now) (own : link.belongs owner target parent row = true) :=
    progress.place_ne nodup first typed asks linked reached absent there own
  have aside (row : Row) (there : row ∈ before) (own : link.belongs owner target parent row = true) :
      link.reaches target entry.1 row = false ∧
        (row.cell link.relatedKey).place ≠ (new.cell link.relatedKey).place := by
    have still := progress.brought_mem there
    have marks := cell_brought nodup (first.full row there) owner target parent asks.init
    rw [← belongs_congr marks] at own
    rw [← reaches_congr marks, ← marks link.relatedKey (by simp [PivotLink.marks])]
    exact ⟨absent _ still own, free still own⟩
  obtain ⟨added, earlier, fills⟩ := progress.rows
  have inside (row : Row) (there : row ∈ added) : row ∈ now := earlier.mem_iff.2 (List.mem_append_right _ there)
  refine ⟨⟨new :: added, ?_, fills.cons full mine linked reached carried none
    (fun row there => absent row (inside row there) (fills.belongs row there))
    (fun row there own => (aside row there own).2)
    fun row there => (free (inside row there) (fills.belongs row there)).symm⟩, ?_⟩
  · have same : before.map (link.brought owner target parent (asked ++ [entry])) =
        before.map (link.brought owner target parent asked) := by
      refine List.map_congr_left fun row there => ?_
      unfold brought
      cases own : link.belongs owner target parent row with
      | false => rfl
      | true => rw [pivotsFor_concat, (aside row there own).1]; simp
    rw [same]
    exact perm.trans ((earlier.cons new).trans List.perm_middle.symm)
  · intro other listed
    rcases List.mem_append.1 listed with before | same
    · obtain ⟨row, there, met⟩ := progress.covered other before
      exact ⟨row, perm.mem_iff.2 (List.mem_cons_of_mem new there), met⟩
    · obtain rfl := List.mem_singleton.1 same
      exact ⟨new, perm.mem_iff.2 List.mem_cons_self, mine, reached⟩

end Free

end Progress

/-! ## The rows in the end -/

/-- Whether a row of a record leads to one that is asked for; all rows of others are left alone. -/
def wanted (link : PivotLink) (owner target : Resource) (parent : Row) (asked : List (Row × Members)) (row : Row) : Bool :=
  !link.belongs owner target parent row || asked.any fun entry => link.reaches target entry.1 row

/-- The rows that lead from a record to a related one. -/
def between (link : PivotLink) (owner target : Resource) (parent record : Row) (rows : List Row) : List Row :=
  rows.filter fun row => link.belongs owner target parent row && link.reaches target record row

theorem mem_between_iff {record : Row} {rows : List Row} :
    row ∈ link.between owner target parent record rows ↔
      row ∈ rows ∧ link.belongs owner target parent row = true ∧ link.reaches target record row = true := by
  simp [between]

/-- The records that rows of a record lead to before, and none after. -/
def unlinked (link : PivotLink) (owner target : Resource) (parent : Row) (records before after : List Row) : List Row :=
  records.filter fun record =>
    !(link.between owner target parent record before).isEmpty && (link.between owner target parent record after).isEmpty

/-- How the rows of a table change when a record is linked to what is asked, and to nothing else. The rows of others stay;
those of the record lead to what is asked for, and to all of it; where there were rows they take the values that are asked
for them, and where there was none there is one, which carries these values. -/
structure Syncs (link : PivotLink) (owner target : Resource) (parent : Row) (asked : List (Row × Members))
    (before after : List Row) : Prop where
  others : (after.filter (!link.belongs owner target parent ·)).Perm (before.filter (!link.belongs owner target parent ·))
  reached : ∀ row ∈ after, link.belongs owner target parent row = true →
    ∃ entry ∈ asked, link.reaches target entry.1 row = true
  found : ∀ entry ∈ asked, link.between owner target parent entry.1 after ≠ []
  kept : ∀ entry ∈ asked, link.between owner target parent entry.1 before ≠ [] →
    (link.between owner target parent entry.1 after).Perm
      ((link.between owner target parent entry.1 before).map fun row => link.take (link.pivotsFor target asked row) row)
  added : ∀ entry ∈ asked, link.between owner target parent entry.1 before = [] →
    ∃ row, link.between owner target parent entry.1 after = [row] ∧
      link.take (link.pivotsFor target asked row) row = row

/-- Whether the rows of a record are as they are asked for: nothing more can come of asking again. -/
structure Settled (link : PivotLink) (owner target : Resource) (parent : Row) (asked : List (Row × Members))
    (rows : List Row) : Prop where
  reached : ∀ row ∈ rows, link.belongs owner target parent row = true →
    ∃ entry ∈ asked, link.reaches target entry.1 row = true
  found : ∀ entry ∈ asked, ∃ row ∈ rows, link.belongs owner target parent row = true ∧
    link.reaches target entry.1 row = true
  carried : ∀ row ∈ rows, link.belongs owner target parent row = true →
    link.take (link.pivotsFor target asked row) row = row

namespace Progress

variable {before now after : List Row} {asked : List (Row × Members)} {entry : Row × Members}
  (progress : link.Progress owner target parent before asked now) (nodup : link.table.columnNames.Nodup)
  (first : link.Linked owner target parent before) (typed : link.Typed owner target) (asks : link.Asks asked)
  (left : after = now.filter (link.wanted owner target parent asked))
include progress nodup first typed asks left

omit nodup first typed asks in
/-- Something leads to all that is asked for, also when the rows are gone that nobody asked for. -/
private theorem between_ne_nil (listed : entry ∈ asked) : link.between owner target parent entry.1 after ≠ [] := by
  obtain ⟨row, there, mine, reached⟩ := progress.covered entry listed
  refine List.ne_nil_of_mem (List.mem_filter.2 ⟨?_, by rw [mine, reached]; rfl⟩)
  rw [left]
  refine List.mem_filter.2 ⟨there, ?_⟩
  simp only [wanted, mine, Bool.not_true, Bool.false_or, List.any_eq_true]
  exact ⟨entry, listed, reached⟩

omit progress typed in
/-- The rows that lead to what is asked for: those that did before, with their values, and those that were added. -/
private theorem between_perm {added : List Row}
    (perm : now.Perm (before.map (link.brought owner target parent asked) ++ added)) (listed : entry ∈ asked) :
    (link.between owner target parent entry.1 after).Perm
      (((link.between owner target parent entry.1 before).map fun row => link.take (link.pivotsFor target asked row) row) ++
        link.between owner target parent entry.1 added) := by
  have all : link.between owner target parent entry.1 after = link.between owner target parent entry.1 now := by
    unfold between
    rw [left, List.filter_filter]
    refine List.filter_congr fun row _ => ?_
    have any : link.reaches target entry.1 row = true →
        (asked.any fun entry => link.reaches target entry.1 row) = true :=
      fun reached => List.any_eq_true.2 ⟨entry, listed, reached⟩
    unfold wanted
    cases link.belongs owner target parent row with
    | false => rfl
    | true => cases reached : link.reaches target entry.1 row <;> simp_all
  rw [all]
  refine (perm.filter _).trans (List.Perm.of_eq ?_)
  unfold between
  rw [List.filter_append, List.filter_map]
  congr 1
  have filtered : before.filter ((fun row => link.belongs owner target parent row && link.reaches target entry.1 row) ∘
      link.brought owner target parent asked) =
      before.filter fun row => link.belongs owner target parent row && link.reaches target entry.1 row := by
    refine List.filter_congr fun row there => ?_
    have marks := cell_brought nodup (first.full row there) owner target parent asks
    rw [Function.comp_apply, belongs_congr marks, reaches_congr marks]
  rw [filtered]
  refine List.map_congr_left fun row there => ?_
  have mine := (List.mem_filter.1 there).2
  rw [Bool.and_eq_true] at mine
  rw [brought, if_pos mine.1]

omit left in
/-- A row that was added stands at the place of what it leads to. -/
private theorem place_added {added : List Row} {row : Row}
    (perm : now.Perm (before.map (link.brought owner target parent asked) ++ added)) (listed : entry ∈ asked)
    (there : row ∈ link.between owner target parent entry.1 added) :
    row ∈ added ∧ (row.cell link.relatedKey).place = (entry.1.cell link.targetKey).place := by
  obtain ⟨inside, met⟩ := List.mem_filter.1 there
  rw [Bool.and_eq_true] at met
  exact ⟨inside, (progress.place_eq nodup first typed asks (perm.mem_iff.2 (List.mem_append_right _ inside)) met.1
    listed).1 met.2⟩

omit typed in
/-- The rows of others are those that they were. -/
private theorem others_perm : (after.filter (!link.belongs owner target parent ·)).Perm
    (before.filter (!link.belongs owner target parent ·)) := by
  obtain ⟨added, perm, fills⟩ := progress.rows
  have alone : (now.filter fun row => !link.belongs owner target parent row && link.wanted owner target parent asked row) =
      now.filter (!link.belongs owner target parent ·) := by
    refine List.filter_congr fun row _ => ?_
    unfold wanted
    cases link.belongs owner target parent row <;> rfl
  rw [left, List.filter_filter, alone]
  refine (perm.filter _).trans (List.Perm.of_eq ?_)
  have none : added.filter (!link.belongs owner target parent ·) = [] :=
    List.filter_eq_nil_iff.2 fun row there => by simp [fills.belongs row there]
  rw [List.filter_append, none, List.append_nil, List.filter_map]
  have filtered : before.filter ((!link.belongs owner target parent ·) ∘ link.brought owner target parent asked) =
      before.filter (!link.belongs owner target parent ·) := by
    refine List.filter_congr fun row there => ?_
    rw [Function.comp_apply, belongs_congr (cell_brought nodup (first.full row there) owner target parent asks)]
  rw [filtered]
  conv_rhs => rw [← List.map_id (before.filter (!link.belongs owner target parent ·))]
  refine List.map_congr_left fun row there => ?_
  have other := (List.mem_filter.1 there).2
  rw [Bool.not_eq_true'] at other
  simp [brought, other]

/-- What is left when the rows go that nobody asked for. -/
theorem syncs : link.Syncs owner target parent asked before after := by
  obtain ⟨added, perm, fills⟩ := progress.rows
  refine ⟨progress.others_perm nodup first asks left, fun row listed mine => ?_,
    fun entry listed => progress.between_ne_nil left listed, fun entry listed some => ?_,
    fun entry listed none => ?_⟩
  · rw [left] at listed
    have kept := (List.mem_filter.1 listed).2
    simpa [wanted, mine] using kept
  · have none : link.between owner target parent entry.1 added = [] := by
      refine List.eq_nil_iff_forall_not_mem.2 fun row there => ?_
      obtain ⟨inside, place⟩ := progress.place_added nodup first typed asks perm listed there
      obtain ⟨old, present⟩ := List.exists_mem_of_ne_nil _ some
      obtain ⟨present, reached⟩ := List.mem_filter.1 present
      rw [Bool.and_eq_true] at reached
      obtain ⟨value, keyed⟩ := asks.keyed entry listed
      obtain ⟨key, linked⟩ := first.keyed old present reached.1
      exact fills.new row inside old present reached.1 (((reaches_iff typed linked keyed).1 reached.2).trans place.symm)
    have rows := between_perm nodup first asks left perm listed
    rwa [none, List.append_nil] at rows
  · have rows := between_perm nodup first asks left perm listed
    rw [none, List.map_nil, List.nil_append] at rows
    cases only : link.between owner target parent entry.1 added with
    | nil =>
      rw [only] at rows
      exact absurd rows.eq_nil (progress.between_ne_nil left listed)
    | cons row further =>
      have placed (other : Row) (there : other ∈ row :: further) :=
        progress.place_added nodup first typed asks perm listed (only.symm ▸ there)
      have once : (row :: further).Pairwise fun first second =>
          (first.cell link.relatedKey).place ≠ (second.cell link.relatedKey).place := by
        rw [← only]
        exact fills.once.sublist List.filter_sublist
      have single : further = [] := List.eq_nil_iff_forall_not_mem.2 fun other there =>
        (List.pairwise_cons.1 once).1 other there
          ((placed row List.mem_cons_self).2.trans (placed other (List.mem_cons_of_mem row there)).2.symm)
      subst single
      rw [only, List.perm_singleton] at rows
      exact ⟨row, rows, fills.carried row (placed row List.mem_cons_self).1⟩

/-- The records that lose their rows are those that some row leads to which leads to nothing that is asked. -/
theorem mem_unlinked_iff {records : List Row} {record : Row} (inside : record ∈ records)
    (stored : Cell.IsStored link.keyType.affinity (record.cell link.targetKey)) :
    record ∈ link.unlinked owner target parent records before after ↔
      ∃ row ∈ now, link.belongs owner target parent row = true ∧ link.reaches target record row = true ∧
        ∀ entry ∈ asked, link.reaches target entry.1 row = false := by
  have still := progress.linked nodup first asks
  unfold unlinked
  rw [List.mem_filter, Bool.and_eq_true, Bool.not_eq_true', ← Bool.not_eq_true, List.isEmpty_iff, List.isEmpty_iff]
  constructor
  · rintro ⟨-, some, none⟩
    obtain ⟨old, listed⟩ := List.exists_mem_of_ne_nil _ some
    obtain ⟨there, mine, reached⟩ := mem_between_iff.1 listed
    have marks := cell_brought nodup (first.full old there) owner target parent asks
    have mineToo := (belongs_congr marks).trans mine
    have reachedToo : link.reaches target record _ = true := (reaches_congr marks).trans reached
    refine ⟨_, progress.brought_mem there, mineToo, reachedToo, fun entry present => ?_⟩
    by_contra wanted
    rw [Bool.not_eq_false] at wanted
    have kept : link.brought owner target parent asked old ∈ after := by
      rw [left]
      refine List.mem_filter.2 ⟨progress.brought_mem there, ?_⟩
      rw [PivotLink.wanted, List.any_eq_true.2 ⟨entry, present, wanted⟩, Bool.or_true]
    exact List.not_mem_nil (none ▸ mem_between_iff.2 ⟨kept, mineToo, reachedToo⟩)
  · rintro ⟨row, there, mine, reached, unasked⟩
    refine ⟨inside, ?_, ?_⟩
    · obtain ⟨old, present, own, marks⟩ := progress.old_of_unasked nodup first asks there mine unasked
      exact List.ne_nil_of_mem (mem_between_iff.2 ⟨present, own, (reaches_congr marks).symm.trans reached⟩)
    · refine List.eq_nil_iff_forall_not_mem.2 fun other listed => ?_
      obtain ⟨kept, own, also⟩ := mem_between_iff.1 listed
      rw [left] at kept
      obtain ⟨here, wanted⟩ := List.mem_filter.1 kept
      unfold PivotLink.wanted at wanted
      rw [own, Bool.not_true, Bool.false_or, List.any_eq_true] at wanted
      obtain ⟨entry, present, met⟩ := wanted
      obtain ⟨key, linked⟩ := still.keyed row there mine
      obtain ⟨value, linkedToo⟩ := still.keyed other here own
      -- both rows stand at the place of the record, so that what the one leads to the other leads to
      have one := ((reaches_iff_of_isStored typed linked stored).1 reached).2
      have two := ((reaches_iff_of_isStored typed linkedToo stored).1 also).2
      have place := (progress.place_eq nodup first typed asks here own present).1 met
      have same := (progress.place_eq nodup first typed asks there mine present).2 (one.trans (two.symm.trans place))
      rw [unasked entry present] at same
      cases same

/-- A record that some row still leads to has lost none of its rows. -/
theorem length_between_le {record : Row} (stored : Cell.IsStored link.keyType.affinity (record.cell link.targetKey))
    (still : link.between owner target parent record after ≠ []) :
    (link.between owner target parent record before).length ≤ (link.between owner target parent record after).length := by
  have linkedNow := progress.linked nodup first asks
  obtain ⟨kept, listed⟩ := List.exists_mem_of_ne_nil _ still
  obtain ⟨there, mine, reached⟩ := mem_between_iff.1 listed
  rw [left] at there
  obtain ⟨there, asksFor⟩ := List.mem_filter.1 there
  unfold wanted at asksFor
  rw [mine, Bool.not_true, Bool.false_or, List.any_eq_true] at asksFor
  obtain ⟨entry, present, met⟩ := asksFor
  have place := (progress.place_eq nodup first typed asks there mine present).1 met
  obtain ⟨key, linked⟩ := linkedNow.keyed kept there mine
  have one := ((reaches_iff_of_isStored typed linked stored).1 reached).2
  -- all rows that lead to the record lead to what is asked
  have all : link.between owner target parent record after = link.between owner target parent record now := by
    unfold between
    rw [left, List.filter_filter]
    refine List.filter_congr fun row inside => ?_
    cases own : link.belongs owner target parent row with
    | false => rfl
    | true =>
      cases met : link.reaches target record row with
      | false => rfl
      | true =>
        obtain ⟨value, linkedToo⟩ := linkedNow.keyed row inside own
        have two := ((reaches_iff_of_isStored typed linkedToo stored).1 met).2
        have led := (progress.place_eq nodup first typed asks inside own present).2 (two.trans (one.symm.trans place))
        have asksFor : (asked.any fun entry => link.reaches target entry.1 row) = true :=
          List.any_eq_true.2 ⟨entry, present, led⟩
        simp [PivotLink.wanted, asksFor]
  obtain ⟨added, perm, -⟩ := progress.rows
  rw [all]
  unfold between
  rw [(perm.filter _).length_eq, List.filter_append, List.length_append, List.filter_map, List.length_map]
  refine le_trans (le_of_eq (congrArg List.length (List.filter_congr fun row inside => ?_))) (Nat.le_add_right _ _)
  have marks := cell_brought nodup (first.full row inside) owner target parent asks
  rw [Function.comp_apply, belongs_congr marks, reaches_congr marks]

/-- What was asked for once is settled. -/
theorem settled : link.Settled owner target parent asked after := by
  have syncs := progress.syncs nodup first typed asks left
  refine ⟨syncs.reached, fun entry listed => ?_, fun row there mine => ?_⟩
  · obtain ⟨row, there⟩ := List.exists_mem_of_ne_nil _ (syncs.found entry listed)
    obtain ⟨there, met⟩ := List.mem_filter.1 there
    rw [Bool.and_eq_true] at met
    exact ⟨row, there, met⟩
  · obtain ⟨added, perm, fills⟩ := progress.rows
    rw [left] at there
    rcases List.mem_append.1 (perm.mem_iff.1 (List.mem_of_mem_filter there)) with old | new
    · obtain ⟨row, present, rfl⟩ := List.mem_map.1 old
      have full := first.full row present
      have marks := cell_brought nodup full owner target parent asks
      rw [belongs_congr marks] at mine
      rw [pivotsFor_congr asked marks, brought, if_pos mine]
      exact take_take nodup full _
    · exact fills.carried row new

/-- Asking again for what is settled changes nothing. -/
theorem perm_of_settled (settled : link.Settled owner target parent asked before) : after.Perm before := by
  have still := progress.linked nodup first asks
  obtain ⟨added, perm, fills⟩ := progress.rows
  have none : added = [] := by
    refine List.eq_nil_iff_forall_not_mem.2 fun row new => ?_
    obtain ⟨entry, listed, reached⟩ := fills.asked row new
    obtain ⟨old, there, mine, met⟩ := settled.found entry listed
    obtain ⟨value, keyed⟩ := asks.keyed entry listed
    obtain ⟨key, linked⟩ := first.keyed old there mine
    refine fills.new row new old there mine (((reaches_iff typed linked keyed).1 met).trans ?_)
    obtain ⟨other, linkedToo⟩ := fills.linked.keyed row new (fills.belongs row new)
    exact ((reaches_iff typed linkedToo keyed).1 reached).symm
  have same : before.map (link.brought owner target parent asked) = before := by
    conv_rhs => rw [← List.map_id before]
    refine List.map_congr_left fun row there => ?_
    unfold brought
    split
    · next mine => exact settled.carried row there mine
    · rfl
  rw [none, same, List.append_nil] at perm
  have all : now.filter (link.wanted owner target parent asked) = now := by
    refine List.filter_eq_self.2 fun row there => ?_
    unfold wanted
    cases mine : link.belongs owner target parent row with
    | false => rfl
    | true =>
      obtain ⟨entry, listed, met⟩ := settled.reached row (perm.mem_iff.1 there) mine
      exact List.any_eq_true.2 ⟨entry, listed, met⟩
  rw [left, all]
  exact perm

end Progress

end PivotLink

end ResourceApi
