import ResourceApi.Proofs.Search.Included

/-!
What aggregates measure: values over the records that a relation path leads to and filters admit. Over a single relation
these are the records that an include of the relation brings, and a filter on a field of related records asks whether
there are any.
-/

namespace ResourceApi

open Outcome Query

/-- The value of a measure over some records of a table, taken of a field unless they are only counted. -/
def Measure.taken (measure : Measure) (table : Table) (field : Option String) (records : List Row) : Except Failure Json :=
  match measure with
  | .count => .ok (.int records.length)
  | .presence => .ok (.bool !records.isEmpty)
  | measure => do
    let name := field.getD ""
    (← measured measure (records.map (·.cell name))).shown (measureType measure (some (table.ref 0 0 name)))

/-- The records at the end of some hops that filters on the resource there admit. -/
def Graph.reachedBy (graph : Graph) (rows : String → List Row) (hops : List (Resource × Relation)) (target : Resource)
    (filters : List Filter) (record : Row) : List Row :=
  (graph.reached rows hops record).filter (graph.admits rows target filters)

namespace Plan

variable {graph : Graph} {resource : Resource}

/-- What a measure is taken of: a field, unless the records are only counted. -/
theorem argument_eq_ok {related : Related} {measure : Measure} {field : Option String} {taken : Option ColumnRef}
    (made : argument related measure field = .ok taken) :
    measure = .presence ∨ measure = .count ∧ taken = none ∨
      measure ∈ Measure.ofField ∧ ∃ name, field = some name ∧
        taken = some (related.target.table.ref 0 related.slot name) := by
  cases measure with
  | presence => exact .inl rfl
  | count =>
    cases made
    exact .inr (.inl ⟨rfl, rfl⟩)
  | min | max | avg | sum =>
    cases field with
    | none => cases made
    | some name =>
      have made : (ownColumn related.target related.slot name).map some = .ok taken := made
      obtain ⟨ref, found, rfl⟩ := map_eq_ok.1 made
      exact .inr (.inr ⟨by decide, name, rfl, congrArg some (ownColumn_eq_ok found)⟩)

section Measured

variable (sound : graph.Sound) (member : resource ∈ graph.resources)
include sound member

/-- The value of an aggregate is that of its measure over the records that its path leads to and its filters admit. -/
theorem outputValue_aggregate {slot : Nat} {item : Aggregate} {output : Output}
    (made : aggregate graph resource slot item = .ok output) :
    ∃ hops hop target, graph.hops resource item.relation = .ok hops ∧ hops.getLast? = some hop ∧
      graph.target hop.2 = .ok target ∧
      output.key = Text.aggregateLabel item.relation item.measure.name item.field ∧
      ∀ ground frame, outputValue ground frame output =
        item.measure.taken target.table item.field
          (graph.reachedBy ground.rows hops target item.filters (frame.getD slot [])) := by
  simp only [aggregate, bind_eq_ok, pure_eq_ok] at made
  obtain ⟨hops, walked, path, joined, filtered, ofFilters, reference, ofField, rfl⟩ := made
  obtain ⟨hop, ends, leadsTo⟩ := RelatedPath.target_of_ofHops joined
  have chained := Graph.chained_of_walk walked
  have records (ground : Ground) (frame : Frame) :
      graph.reachedBy ground.rows hops path.last.target item.filters (frame.getD slot []) =
        (matching ground [frame] path.source (Cond.conjuncts (path.conditions ++ filtered))).map
          (·.getD path.last.slot []) := by
    have found : ((extend ground [frame] path.source []).filter fun inner =>
        path.conditions.all (holds ground (inner :: [frame]))).map (·.getD path.last.slot []) =
          graph.reached ground.rows hops (frame.getD slot []) :=
      RelatedPath.filter_ofHops sound member chained joined
    rw [Graph.reachedBy, ← found, List.filter_map, List.filter_filter, matching_eq_filter]
    refine congrArg (List.map _) (List.filter_congr fun inner _ => ?_)
    rw [all_conjuncts, List.all_append, holds_filtersCondition sound (Graph.mem_of_target leadsTo) ofFilters, Bool.and_comm]
    rfl
  refine ⟨hops, hop, path.last.target, walked, ends, leadsTo, by rw [Output.key], fun ground frame => ?_⟩
  rw [outputValue, records]
  rcases argument_eq_ok ofField with same | ⟨same, rfl⟩ | ⟨listed, name, named, rfl⟩
  · simp only [same, Measure.taken, measured, ok_bind, if_pos, List.isEmpty_map]
    cases matching ground [frame] path.source (Cond.conjuncts (path.conditions ++ filtered)) <;> rfl
  · simp [same, Measure.taken, measured, measureType, Cell.shown]
  · rw [named]
    generalize item.measure = measure at listed
    cases measure with
    | count | presence => exact absurd listed (by decide)
    | min | max | avg | sum =>
      rw [Measure.taken, List.map_map]
      · rfl
      · exact fun same => by cases same
      · exact fun same => by cases same

end Measured

/-- What the query of a plan shows: columns, and the values of the aggregates asked for. -/
theorem outputs_of_compile {spec : Specification} {plan : Plan} (made : compile graph resource spec = .ok plan) :
    ∃ hops shown aggregates, includeHops graph resource (includePaths spec.includes) = .ok hops ∧
      List.Forall₂ (fun hop step => loadHop graph spec.includes hops hop = .ok step) hops plan.includes ∧
      columns resource 0 spec.selects (requiredColumns hops none) = .ok shown ∧
      List.Forall₂ (fun item output => aggregate graph resource 0 item = .ok output) spec.aggregates aggregates ∧
      plan.page.outputs = shown ++ aggregates := by
  simp only [compile, bind_eq_ok, pure_eq_ok] at made
  obtain ⟨_, -, _, -, _, -, hops, walked, includes, loaded, shown, columns, _, -, aggregates, measured, _, -, rfl⟩ := made
  exact ⟨hops, shown, aggregates, walked, mapM_eq_ok.1 loaded, columns, mapM_eq_ok.1 measured, rfl⟩

end Plan

/-! ## Over a single relation -/

namespace Graph

variable {graph : Graph} {owner target : Resource} {relation : Relation} {rows : String → List Row} {record : Row}

theorem admits_leaf (field operator : String) (value : Json) (joining : Joining) :
    graph.admits rows owner [⟨some field, operator, value, joining, none⟩] record =
      graph.compares rows owner record (some field) operator value := by
  simp [admits, Filter.verdicts, Filter.verdict, Filter.joined, Filter.chain]

private theorem exists_getLast?_of_hops {path : String} {hops : List (Resource × Relation)}
    (walked : graph.hops owner path = .ok hops) : ∃ hop, hops.getLast? = some hop := by
  obtain ⟨name, rest, names⟩ := List.exists_cons_of_ne_nil (Path.names_ne_nil path)
  rw [Graph.hops, names, walk] at walked
  split at walked
  · cases walked
  · simp only [bind_eq_ok, pure_eq_ok] at walked
    obtain ⟨_, -, further, -, rfl⟩ := walked
    exact ⟨_, List.getLast?_cons⟩

section Single

variable (sound : owner.Sound graph) (declared : relation ∈ owner.relations) (nestable : relation.isNestable)
  (leadsTo : graph.target relation = .ok target)
include sound declared nestable leadsTo

theorem hops_name (plain : Path.IsPlain relation.name) : graph.hops owner relation.name = .ok [(owner, relation)] := by
  rw [Graph.hops, Path.names_of_isPlain plain, walk_cons sound declared nestable leadsTo]
  rfl

/-- As many records are reached by a relation as an include of it brings without a limit. -/
theorem length_linked (item : Include) :
    (graph.linked rows owner target relation.link item record).length =
      (graph.reachedBy rows [(owner, relation)] target item.filters record).length := by
  have single : relation.kind ≠ .morphTo := by simpa [Relation.isNestable, Kind.isNestable] using nestable
  have free := (sound.relations relation declared).leadsTo single target record
  have told : relation.link.shows owner target record := by
    cases same : relation.link with
    | parent link => simp [Link.shows, Link.toldType?, (sound.relations relation declared).untyped link same single]
    | child link | pivot link | through link => rfl
  simp only [reachedBy, reached, leadsTo, linked, firstInOrder, List.length_mergeSort, Link.related, ← List.map_eq_flatMap,
    List.filter_map, List.length_map, List.filter_filter]
  refine congrArg List.length (List.filter_congr fun frame _ => ?_)
  simp [free, told, Bool.and_comm]

/-- The records that have a field of their related records compare with a value have such related records. -/
theorem compares_under (plain : Path.IsPlain relation.name) (field operator : String) (value : Json) :
    graph.compares rows owner record (some (relation.name ++ "." ++ field)) operator value =
      (graph.reached rows [(owner, relation)] record).any fun reached =>
        graph.compares rows target reached (some field) operator value := by
  have pointed : Path.points (relation.name ++ "." ++ field) ≠ 0 := by
    rw [Path.points_append]
    omega
  cases known : Comparison.ofSymbol? operator with
  | none => simp [compares, known]
  | some comparison =>
    rcases Path.isPlain_or_append field with own | ⟨before, last, rfl, own⟩
    · have walked := hops_name sound declared nestable leadsTo plain
      simp only [compares, known, if_neg pointed, Path.splitLast_append _ own, walked, Path.points_of_isPlain own,
        if_true, List.getLast?_singleton, Option.map_some, leadsTo]
    · have within : Path.points (before ++ "." ++ last) ≠ 0 := by
        rw [Path.points_append]
        omega
      have walked : graph.hops owner (relation.name ++ "." ++ before) =
          (graph.hops target before).map ((owner, relation) :: ·) := by
        rw [hops, Path.names_append, Path.names_of_isPlain plain, List.singleton_append,
          walk_cons sound declared nestable leadsTo]
        rfl
      have whole : relation.name ++ "." ++ (before ++ "." ++ last) = relation.name ++ "." ++ before ++ "." ++ last := by
        simp only [String.append_assoc]
      rw [whole] at pointed ⊢
      simp only [compares, known, if_neg pointed, if_neg within, Path.splitLast_append _ own, walked]
      cases goesOn : graph.hops target before with
      | error failure => simp [Except.map]
      | ok hops =>
        obtain ⟨hop, ends⟩ := exists_getLast?_of_hops goesOn
        simp only [Except.map, List.getLast?_cons, ends, Option.getD_some, Option.map_some]
        cases graph.target hop.2 with
        | error failure => simp
        | ok last => simp only [reached, leadsTo, ← List.map_eq_flatMap, List.any_map, List.any_flatMap, Function.comp_def]

end Single

end Graph

end ResourceApi
