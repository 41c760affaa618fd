import Mathlib.Data.List.Basic
import ResourceApi.Proofs.Text.Path
import ResourceApi.Search.Specification
import ResourceApi.Text.SnakeCase

/-!
Labels of aggregates: the path, the measure and the field, put together with underscores. Underscores stand in paths and
fields as well; a label still tells what it is made of where no word of a path is called like a measure.
-/

namespace ResourceApi

namespace Text

/-- A path with underscores for its points. -/
def flattened (path : String) : String :=
  String.ofList (path.toList.map fun c => if c == '.' then '_' else c)

/-- The words of a name, between underscores. -/
def words (name : String) : List (List Char) := cut '_' name.toList

/-- The pieces of a text make it again. -/
theorem intercalate_cut (separator : Char) (cs : List Char) : [separator].intercalate (cut separator cs) = cs := by
  induction cs with
  | nil => rfl
  | cons c rest ih =>
    obtain ⟨first, others, pieces⟩ := List.exists_cons_of_ne_nil (cut_ne_nil separator rest)
    rw [pieces] at ih
    rw [cut, pieces]
    by_cases here : c = separator
    · rw [if_pos here, List.intercalate_cons_cons, ih, here]
      rfl
    · rw [if_neg here]
      cases others with
      | nil => simpa using ih
      | cons second more =>
        rw [List.intercalate_cons_cons] at ih ⊢
        rw [← ih]
        rfl

theorem words_injective : Function.Injective words := by
  intro first second same
  have joined := congrArg ['_'].intercalate same
  rwa [words, words, intercalate_cut, intercalate_cut, String.toList_inj] at joined

theorem words_append (first second : String) : words (first ++ "_" ++ second) = words first ++ words second := by
  have joined : (first ++ "_" ++ second).toList = first.toList ++ '_' :: second.toList := by simp
  rw [words, joined, cut_append]
  rfl

/-- Two splits of a list are one if neither splits at an item that comes before in the other. -/
theorem split_unique {α : Type} {before beforeToo after afterToo : List α} {item itemToo : α} (first : itemToo ∉ before)
    (firstToo : item ∉ beforeToo) (same : before ++ item :: after = beforeToo ++ itemToo :: afterToo) :
    before = beforeToo ∧ item = itemToo ∧ after = afterToo := by
  induction before generalizing beforeToo with
  | nil =>
    cases beforeToo with
    | nil => exact ⟨rfl, List.cons.inj same⟩
    | cons other rest =>
      obtain ⟨rfl, -⟩ := List.cons.inj same
      exact absurd List.mem_cons_self firstToo
  | cons head rest ih =>
    cases beforeToo with
    | nil =>
      obtain ⟨rfl, -⟩ := List.cons.inj same
      exact absurd List.mem_cons_self first
    | cons other restToo =>
      obtain ⟨rfl, later⟩ := List.cons.inj same
      obtain ⟨rfl, both⟩ := ih (fun inside => first (List.mem_cons_of_mem _ inside))
        (fun inside => firstToo (List.mem_cons_of_mem _ inside)) later
      exact ⟨rfl, both⟩

end Text

theorem Measure.name_injective : Function.Injective Measure.name := by
  intro first second same
  have found (measure : Measure) : Measure.ofName? measure.name = some measure := by cases measure <;> rfl
  exact Option.some.inj ((found first).symm.trans (same ▸ found second))

namespace Aggregate

/-- The name under which an aggregate is shown. -/
def label (item : Aggregate) : String := Text.aggregateLabel item.relation item.measure.name item.field

/-- The path of an aggregate as labels have it. -/
def path (item : Aggregate) : String := Text.snakeCase (Text.flattened item.relation)

/-- The field of an aggregate as labels have it, if there is one. -/
def suffix (item : Aggregate) : Option String := (item.field.filter fun field => !field.isEmpty).map Text.snakeCase

theorem label_eq (item : Aggregate) :
    item.label = item.path ++ "_" ++ item.measure.name ++ (item.suffix.map ("_" ++ ·)).getD "" := by
  have measure : Text.snakeCase item.measure.name = item.measure.name := by
    cases item.measure <;> rfl
  have two (first second : String) : "_".intercalate [first, second] = first ++ "_" ++ second := rfl
  have three (first second third : String) :
      "_".intercalate [first, second, third] = first ++ "_" ++ second ++ "_" ++ third := rfl
  unfold label Text.aggregateLabel suffix path Text.flattened
  cases item.field with
  | none => simp [two, measure]
  | some field => by_cases empty : field.isEmpty <;> simp [two, three, measure, empty, Option.filter, String.append_assoc]

theorem words_label (item : Aggregate) :
    Text.words item.label =
      Text.words item.path ++ item.measure.name.toList :: (item.suffix.map Text.words).getD [] := by
  have measure : Text.words item.measure.name = [item.measure.name.toList] := by
    cases item.measure <;> rfl
  rw [label_eq]
  cases item.suffix with
  | none => simp [Text.words_append, measure]
  | some field =>
    rw [Option.map_some, Option.map_some, Option.getD_some, Option.getD_some, ← String.append_assoc, Text.words_append,
      Text.words_append, measure, List.append_assoc]
    rfl

/-- The words of a field tell whether there is one, and which. -/
private theorem words_suffix_injective {first second : Option String}
    (same : (first.map Text.words).getD [] = (second.map Text.words).getD []) : first = second := by
  cases first with
  | none =>
    cases second with
    | none => rfl
    | some other => exact absurd same.symm (Text.cut_ne_nil '_' other.toList)
  | some field =>
    cases second with
    | none => exact absurd same (Text.cut_ne_nil '_' field.toList)
    | some other => exact congrArg some (Text.words_injective same)

/-- Where no word of a path is called like the measure of the other one, aggregates have one label only if they have the
same path, measure and field in it. -/
theorem label_eq_iff {first second : Aggregate} (apart : first.measure.name.toList ∉ Text.words second.path)
    (apartToo : second.measure.name.toList ∉ Text.words first.path) :
    first.label = second.label ↔
      first.path = second.path ∧ first.measure = second.measure ∧ first.suffix = second.suffix := by
  constructor
  · intro same
    have words := congrArg Text.words same
    rw [words_label, words_label] at words
    obtain ⟨paths, measures, fields⟩ := Text.split_unique apartToo apart words
    refine ⟨Text.words_injective paths, Measure.name_injective (String.toList_inj.1 measures), ?_⟩
    exact words_suffix_injective fields
  · rintro ⟨paths, measures, fields⟩
    rw [label_eq, label_eq, paths, measures, fields]

end Aggregate

end ResourceApi
