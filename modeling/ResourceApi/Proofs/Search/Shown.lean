import Mathlib.Data.List.Nodup
import ResourceApi.Proofs.Query.Sorting
import ResourceApi.Proofs.Search.Filtered
import ResourceApi.Search.Execution

/-!
What the rows of a result show. A row has the columns asked for, each under its name, with the values of one record.
-/

namespace ResourceApi

open Outcome

/-- A row of a result shows some columns of a record. -/
def Table.Shows (table : Table) (fields : List String) (record : Row) (shown : Members) : Prop :=
  ∀ name ∈ fields, ∃ value, (record.cell name).shown (table.ref 0 0 name).type = .ok value ∧
    shown.get? name = some value

namespace Query

variable {query : Query} {ground : Ground}

/-- The members of a row are the values of the outputs. -/
def Gives (ground : Ground) (outputs : List Output) (frame : Frame) (row : Members) : Prop :=
  List.Forall₂ (fun output entry => entry.1 = output.key ∧ outputValue ground frame output = .ok entry.2) outputs row

/-- No name is repeated where none is found that is. -/
private theorem nodup_of_repeatedKey? {outputs : List Output} (none : repeatedKey? outputs = none) :
    (outputs.map Output.key).Nodup := by
  refine List.nodup_iff_count_le_one.2 fun key => ?_
  by_cases listed : key ∈ outputs.map Output.key
  · have once := List.find?_eq_none.1 none key listed
    simpa using once
  · rw [List.count_eq_zero.2 listed]
    exact Nat.zero_le 1

/-- The rows of a result are those of the frames, and no name stands twice in them. -/
theorem gives_of_results {rows : List Members} (success : query.results ground = .ok rows) :
    List.Forall₂ (Gives ground query.outputs) (query.frames ground) rows ∧
      (rows ≠ [] → (query.outputs.map Output.key).Nodup) := by
  obtain ⟨found, made, after⟩ := bind_eq_ok.1 success
  have given : List.Forall₂ (Gives ground query.outputs) (query.frames ground) found := by
    refine (mapM_eq_ok.1 made).imp fun frame row outputs => ?_
    refine (mapM_eq_ok.1 outputs).imp fun output entry shown => ?_
    simp only [bind_eq_ok, pure_eq_ok] at shown
    obtain ⟨value, shown, rfl⟩ := shown
    exact ⟨rfl, shown⟩
  split at after
  · cases after
  · next several =>
    cases after
    refine ⟨given, fun nonempty => nodup_of_repeatedKey? ?_⟩
    obtain ⟨first, rest, rfl⟩ := List.exists_cons_of_ne_nil nonempty
    cases repeated : repeatedKey? query.outputs with
    | none => rfl
    | some key => exact absurd repeated (several _ _ _ rfl)

/-- In a row in which no name stands twice, every output is found under its name. -/
theorem Gives.get?_eq {outputs : List Output} {frame : Frame} {row : Members} (given : Gives ground outputs frame row)
    (nodup : (outputs.map Output.key).Nodup) {output : Output} (member : output ∈ outputs) :
    ∃ value, outputValue ground frame output = .ok value ∧ row.get? output.key = some value := by
  induction given with
  | nil => cases member
  | @cons first entry rest others here later ih =>
    obtain ⟨key, held⟩ := entry
    obtain ⟨rfl, shown⟩ := here
    obtain ⟨fresh, distinct⟩ := List.nodup_cons.1 nodup
    rcases List.mem_cons.1 member with rfl | further
    · exact ⟨held, shown, by simp [Members.get?]⟩
    · obtain ⟨value, found, got⟩ := ih distinct further
      refine ⟨value, found, ?_⟩
      have other : (output.key == first.key) = false := by
        rw [beq_eq_false_iff_ne]
        rintro same
        exact fresh (same ▸ List.mem_map_of_mem further)
      rwa [Members.get?, List.lookup_cons, other]

end Query

namespace Plan

variable {resource : Resource} {slot : Nat}

/-- The first time that a name comes, it is its own label. -/
private theorem mem_labelled_first {before names : List String} {name : String} (fresh : name ∉ before)
    (listed : name ∈ names) : (name, none) ∈ labelled before names := by
  induction names generalizing before with
  | nil => cases listed
  | cons first rest ih =>
    rw [labelled]
    by_cases same : name = first
    · subst same
      simp [List.count_eq_zero.2 fresh]
    · refine List.mem_cons_of_mem _ (ih ?_ ?_)
      · simpa [same] using fresh
      · simpa [same] using listed

/-- The columns asked for and those that are needed are shown under their own names. -/
theorem mem_columns {selects required : List String} {outputs : List Output}
    (made : columns resource slot selects required = .ok outputs) {name : String}
    (listed : name ∈ askedFields resource selects ∨ name ∈ required) :
    .column (resource.table.ref 0 slot name) none ∈ outputs := by
  have first := mem_labelled_first List.not_mem_nil (mem_foldl_new.2 listed)
  obtain ⟨output, inside, shown⟩ := mapM_image made first
  simp only [bind_eq_ok, pure_eq_ok] at shown
  obtain ⟨ref, found, rfl⟩ := shown
  rwa [ownColumn_eq_ok found] at inside

/-- Nothing else is shown. -/
theorem exists_of_mem_columns {selects required : List String} {outputs : List Output}
    (made : columns resource slot selects required = .ok outputs) {output : Output} (inside : output ∈ outputs) :
    ∃ name label, (name ∈ askedFields resource selects ∨ name ∈ required) ∧
      output = .column (resource.table.ref 0 slot name) label := by
  obtain ⟨⟨name, label⟩, listed, shown⟩ := mapM_mem made inside
  simp only [bind_eq_ok, pure_eq_ok] at shown
  obtain ⟨ref, found, rfl⟩ := shown
  obtain rfl := ownColumn_eq_ok found
  exact ⟨name, label, mem_foldl_new.1 (mem_labelled listed), rfl⟩

/-- The columns asked for and those that are needed are columns of the table. -/
theorem hasColumn_of_columns {selects required : List String} {outputs : List Output}
    (made : columns resource slot selects required = .ok outputs) {name : String}
    (listed : name ∈ askedFields resource selects ∨ name ∈ required) : resource.table.hasColumn name := by
  have first := mem_labelled_first List.not_mem_nil (mem_foldl_new.2 listed)
  obtain ⟨output, -, shown⟩ := mapM_image made first
  simp only [bind_eq_ok, pure_eq_ok] at shown
  obtain ⟨ref, found, -⟩ := shown
  unfold ownColumn at found
  unfold Table.hasColumn
  split at found
  · next column present =>
    rw [present]
    rfl
  · cases found

/-- A row of a result shows the columns that its query was made with. -/
theorem shows_of_gives {ground : Ground} {outputs : List Output} {fields : List String} {frame : Frame} {row : Members}
    (given : Query.Gives ground outputs frame row) (nodup : (outputs.map Output.key).Nodup)
    (inside : ∀ name ∈ fields, .column (resource.table.ref 0 0 name) none ∈ outputs) :
    resource.table.Shows fields (frame.getD 0 []) row := by
  intro name listed
  obtain ⟨value, shown, found⟩ := given.get?_eq nodup (inside name listed)
  exact ⟨value, shown, found⟩

end Plan

end ResourceApi
