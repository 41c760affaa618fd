import Mathlib.Data.List.Forall2
import Mathlib.Data.List.Nodup
import ResourceApi.Proofs.Json.Keyed
import ResourceApi.Proofs.Rule.Placed

/-!
What a pattern reaches in a document, exactly: every address that matches it name by name and of which all steps but the
last exist, once each and in the order of the document.
-/

namespace ResourceApi

/-! ## Addresses -/

namespace Json

/-- The value one step below another one, if it exists. -/
def step? : Json → Step → Option Json
  | .list items, .index position => items[position]?
  | .object members, .member key => Members.get? members key
  | _, _ => none

/-- The value at an address of a document, if it exists. -/
def at? (data : Json) : List Step → Option Json
  | [] => some data
  | step :: rest => (data.step? step).bind fun inner => inner.at? rest

theorem at?_append {data : Json} (trail rest : List Step) :
    data.at? (trail ++ rest) = (data.at? trail).bind (·.at? rest) := by
  induction trail generalizing data with
  | nil => rfl
  | cons step trail ih =>
    rw [List.cons_append, at?, at?, Option.bind_assoc]
    exact congrArg _ (funext fun _ => ih)

theorem at?_append_singleton {data container : Json} {trail : List Step} (led : data.at? trail = some container)
    (step : Step) : data.at? (trail ++ [step]) = container.step? step := by
  rw [at?_append, led, Option.bind_some, at?]
  exact Option.bind_fun_some _

/-- The order of addresses in a document: where they part, that of the items of a list or the members of an object. -/
inductive Precedes : Json → List Step → List Step → Prop
  | here {data : Json} {first second : Step × Json} (inOrder : [first, second].Sublist data.children)
      (rest more : List Step) : Precedes data (first.1 :: rest) (second.1 :: more)
  | later {data inner : Json} {step : Step} {rest more : List Step} (child : (step, inner) ∈ data.children)
      (parting : Precedes inner rest more) : Precedes data (step :: rest) (step :: more)

variable {data inner : Json} {step : Step}

/-- What lies one step below a value is found by that step. -/
theorem mem_children (keyed : data.isKeyed) : (step, inner) ∈ data.children ↔ data.step? step = some inner := by
  cases data with
  | list items =>
    cases step with
    | index position => simp [children, step?, List.mem_zipIdx_iff_getElem?]
    | member key => simp [children, step?]
  | object members =>
    cases step with
    | index position => simp [children, step?]
    | member key =>
      have distinct := (isKeyed_object.1 keyed).1
      have child : (Step.member key, inner) ∈ children (.object members) ↔ (key, inner) ∈ members := by
        simp [children]
      rw [child]
      exact ⟨lookup_of_mem distinct, Members.mem_of_get?⟩
  | _ => simp [children, step?]

theorem isKeyed_of_child (keyed : data.isKeyed) (child : (step, inner) ∈ data.children) : inner.isKeyed := by
  cases data with
  | list items => exact isKeyed_list.1 keyed inner (mem_of_child child)
  | object members =>
    obtain ⟨member, listed, same⟩ := List.mem_map.1 child
    cases same
    exact (isKeyed_object.1 keyed).2 member listed
  | _ => cases child

theorem nodup_children (keyed : data.isKeyed) : (data.children.map (·.1)).Nodup := by
  cases data with
  | list items =>
    have positions : (children (.list items)).map (·.1) = (items.zipIdx.map (·.2)).map Step.index := by
      simp only [children, List.map_map, Function.comp_def]
    rw [positions, List.zipIdx_map_snd]
    exact List.Nodup.map (fun _ _ same => Step.index.inj same) List.nodup_range'
  | object members =>
    have keys : (children (.object members)).map (·.1) = (Members.keys members).map Step.member := by
      simp [children, Members.keys]
    rw [keys]
    exact List.Nodup.map (fun _ _ same => Step.member.inj same) (isKeyed_object.1 keyed).1
  | _ => exact List.nodup_nil

/-- An address does not come before itself. -/
theorem Precedes.ne {first second : List Step} (precedes : Precedes data first second) (keyed : data.isKeyed) :
    first ≠ second := by
  induction precedes with
  | here inOrder rest more =>
    have distinct := (nodup_children keyed).sublist (inOrder.map (·.1))
    intro same
    exact absurd (List.cons.inj same).1 (by simpa using distinct)
  | later child _ ih => exact fun same => ih (isKeyed_of_child keyed child) (List.cons.inj same).2

end Json

/-! ## Places -/

/-- Whether a name of a pattern fits a step: the wildcard fits all, another name the member of that key alone. -/
def Segment.fits : Segment → Step → Bool
  | .any, _ => true
  | .name text, .member key => key == text
  | .name _, .index _ => false

/-- Whether the names of a pattern fit the steps of an address, one by one. -/
def Segment.Fit (segments : List Segment) (steps : List Step) : Prop :=
  List.Forall₂ (fun segment step => segment.fits step) segments steps

/-- What a name of a pattern selects of a value: the wildcard what there is one step below it, another name the member of
that key of an object, whether it is there or not. -/
def Segment.Selects : Segment → Json → Step → Prop
  | .any, container, step => ∃ value, container.step? step = some value
  | .name key, container, step => container.isObject ∧ step = .member key

namespace Attribute

/-- What a pattern reaches in a document: the whole of it if the pattern is empty; else what a wildcard leads to from a
value at an address that fits the names before, or a member of an object at such an address, whether it is there or not. -/
inductive IsReached (data : Json) : List Segment → Attribute → Prop
  | whole : IsReached data [] ⟨[], none, some data⟩
  | child {before : List Segment} {trail : List Step} {container value : Json} {step : Step}
      (fits : Segment.Fit before trail) (led : data.at? trail = some container)
      (found : container.step? step = some value) :
      IsReached data (before ++ [.any]) ⟨trail ++ [step], none, some value⟩
  | member {before : List Segment} {trail : List Step} {members : Members}
      (fits : Segment.Fit before trail) (led : data.at? trail = some (.object members)) (key : String) :
      IsReached data (before ++ [.name key]) ⟨trail ++ [.member key], some members, members.get? key⟩

variable {data inner : Json} {segment : Segment} {segments : List Segment} {step : Step} {place : Attribute}

/-- The members of an object that a name fits. -/
theorem filter_children {members : Members} (distinct : (Members.keys members).Nodup) (key : String) :
    (Json.children (.object members)).filter (fun child => (Segment.name key).fits child.1) =
      (Members.get? members key).toList.map fun value => (.member key, value) := by
  induction members with
  | nil => rfl
  | cons member rest ih =>
    obtain ⟨name, value⟩ := member
    obtain ⟨fresh, distinct⟩ := List.nodup_cons.1 distinct
    have later := ih distinct
    simp only [Json.children, List.map_cons, List.filter_cons, Segment.fits, beq_iff_eq] at later ⊢
    by_cases same : name = key
    · subst same
      have absent : Members.get? rest name = none :=
        lookup_eq_none.2 fun entry inside same => fresh (List.mem_map.2 ⟨entry, inside, same⟩)
      rw [if_pos rfl, later, absent]
      simp [Members.get?]
    · have unlike : (key == name) = false := beq_eq_false_iff_ne.2 (Ne.symm same)
      rw [if_neg same, later]
      simp [Members.get?, List.lookup_cons, unlike]

/-- A name of a pattern picks the children that it fits, unless it is the last one and no wildcard. -/
theorem below_cons (keyed : data.isKeyed) (picks : segment = .any ∨ segments ≠ []) :
    below [] data (segment :: segments) = (data.children.filter fun child => segment.fits child.1).flatMap
      fun child => (below [] child.2 segments).map (behind [child.1]) := by
  cases segment with
  | any =>
    have all : data.children.filter (fun child => Segment.any.fits child.1) = data.children := by
      simp [Segment.fits]
    simp only [all, below_any, ← below_eq_map, List.nil_append]
  | name key =>
    obtain ⟨next, rest, rfl⟩ := List.exists_cons_of_ne_nil (picks.resolve_left nofun)
    cases data with
    | object members =>
      rw [filter_children (Json.isKeyed_object.1 keyed).1]
      cases found : Members.get? members key with
      | none => simp [below, Json.get?, found]
      | some value =>
        rw [below_member (show Json.get? (.object members) key = some value from found), below_eq_map]
        simp
    | list items =>
      have none : (Json.children (.list items)).filter (fun child => (Segment.name key).fits child.1) = [] := by
        refine List.filter_eq_nil_iff.2 fun child inside => ?_
        obtain ⟨item, -, rfl⟩ := List.mem_map.1 inside
        exact Bool.false_ne_true
      rw [none]
      rfl
    | _ => rfl

/-- What is reached in a part of a document is reached in the document behind the step to the part. -/
theorem IsReached.behind (reached : IsReached inner segments place) (picks : segment = .any ∨ segments ≠ [])
    (fits : segment.fits step) (found : data.step? step = some inner) :
    IsReached data (segment :: segments) (place.behind [step]) := by
  have led {trail : List Step} {value : Json} (led : inner.at? trail = some value) :
      data.at? (step :: trail) = some value := by
    rw [Json.at?, found]
    exact led
  cases reached with
  | whole =>
    obtain rfl := picks.resolve_right (by simp)
    exact .child .nil rfl found
  | child fitsToo ledToo last => exact .child (.cons fits fitsToo) (led ledToo) last
  | member fitsToo ledToo key => exact .member (.cons fits fitsToo) (led ledToo) key

/-- What is in the list of the places that a pattern reaches is reached. -/
theorem isReached_of_mem (keyed : data.isKeyed) (inside : place ∈ below [] data segments) :
    IsReached data segments place := by
  induction segments generalizing data place with
  | nil =>
    obtain rfl := List.mem_singleton.1 inside
    exact .whole
  | cons segment rest ih =>
    by_cases picks : segment = .any ∨ rest ≠ []
    · rw [below_cons keyed picks] at inside
      obtain ⟨⟨step, inner⟩, picked, within⟩ := List.mem_flatMap.1 inside
      obtain ⟨child, fits⟩ := List.mem_filter.1 picked
      obtain ⟨part, reached, rfl⟩ := List.mem_map.1 within
      exact (ih (Json.isKeyed_of_child keyed child) reached).behind picks fits
        ((Json.mem_children keyed).1 child)
    · obtain ⟨single, last⟩ := not_or.1 picks
      obtain rfl := not_not.1 last
      cases segment with
      | any => exact absurd rfl single
      | name key =>
        cases data with
        | object members =>
          obtain rfl := List.mem_singleton.1 inside
          exact .member .nil rfl key
        | _ => cases inside

/-- What the last name of a pattern reaches in a value at an address that fits the names before it. -/
theorem mem_below_of_at? {before : List Segment} {trail : List Step} (fits : Segment.Fit before trail)
    (keyed : data.isKeyed) {container : Json} (led : data.at? trail = some container)
    (inside : container.isKeyed → place ∈ below [] container [segment]) :
    place.behind trail ∈ below [] data (before ++ [segment]) := by
  induction fits generalizing data with
  | nil =>
    obtain rfl := Option.some.inj led
    exact inside keyed
  | @cons _ step _ _ here _ ih =>
    obtain ⟨inner, found, led⟩ := Option.bind_eq_some_iff.1 led
    have child := (Json.mem_children keyed).2 found
    rw [List.cons_append, below_cons keyed (.inr (by simp))]
    refine List.mem_flatMap.2 ⟨(step, inner), List.mem_filter.2 ⟨child, here⟩, ?_⟩
    exact List.mem_map.2 ⟨_, ih (Json.isKeyed_of_child keyed child) led, rfl⟩

theorem mem_below_iff (keyed : data.isKeyed) : place ∈ below [] data segments ↔ IsReached data segments place := by
  refine ⟨isReached_of_mem keyed, fun reached => ?_⟩
  cases reached with
  | whole => exact List.mem_singleton_self _
  | @child _ _ container value step fits led found =>
    have last (keyed : container.isKeyed) : ⟨[step], none, some value⟩ ∈ below [] container [.any] :=
      List.mem_map.2 ⟨_, (Json.mem_children keyed).2 found, rfl⟩
    exact mem_below_of_at? fits keyed led last
  | @member _ _ members fits led key =>
    have last : ⟨[.member key], some members, members.get? key⟩ ∈ below [] (.object members) [.name key] :=
      List.mem_singleton_self _
    exact mem_below_of_at? fits keyed led fun _ => last

/-- Places are reached in the order of the document. -/
theorem pairwise_below (keyed : data.isKeyed) (segments : List Segment) :
    (below [] data segments).Pairwise fun first second => data.Precedes first.steps second.steps := by
  induction segments generalizing data with
  | nil => exact List.pairwise_singleton _ _
  | cons segment rest ih =>
    by_cases picks : segment = .any ∨ rest ≠ []
    · rw [below_cons keyed picks, List.pairwise_flatMap]
      refine ⟨fun child picked => ?_, List.pairwise_iff_forall_sublist.2 fun inOrder => ?_⟩
      · have inside := (List.mem_filter.1 picked).1
        rw [List.pairwise_map]
        exact (ih (Json.isKeyed_of_child keyed inside)).imp fun parting => .later inside parting
      · intro first inFirst second inSecond
        obtain ⟨place, -, rfl⟩ := List.mem_map.1 inFirst
        obtain ⟨other, -, rfl⟩ := List.mem_map.1 inSecond
        exact .here (inOrder.trans List.filter_sublist) place.steps other.steps
    · obtain ⟨single, last⟩ := not_or.1 picks
      obtain rfl := not_not.1 last
      cases segment with
      | any => exact absurd rfl single
      | name key =>
        cases data with
        | object members => exact List.pairwise_singleton _ _
        | _ => exact List.Pairwise.nil

/-- The value of what is reached is the one at its address, if any. -/
theorem IsReached.value_eq (reached : IsReached data segments place) : place.value = data.at? place.steps := by
  cases reached with
  | whole => rfl
  | child _ led found => exact ((Json.at?_append_singleton led _).trans found).symm
  | member _ led key => exact (Json.at?_append_singleton led (.member key)).symm

/-- A name that fits a step which exists selects it. -/
theorem selects_of_fits {container : Json} (fits : segment.fits step) (found : container.step? step = some inner) :
    segment.Selects container step := by
  cases segment with
  | any => exact ⟨inner, found⟩
  | name key =>
    cases step with
    | index position => cases fits
    | member name =>
      obtain rfl := eq_of_beq fits
      cases container with
      | object members => exact ⟨rfl, rfl⟩
      | _ => cases found

/-- What the names that fit an address select on the way to its value. -/
theorem selects_of_at? {before after : List Segment} {trail : List Step} {value : Json}
    (fits : Segment.Fit (before ++ segment :: after) trail) (led : data.at? trail = some value) :
    ∃ start step rest container, trail = start ++ step :: rest ∧ Segment.Fit before start ∧
      data.at? start = some container ∧ segment.Selects container step := by
  induction before generalizing data trail with
  | nil =>
    obtain _ | @⟨_, step, _, rest, here, -⟩ := fits
    obtain ⟨inner, found, -⟩ := Option.bind_eq_some_iff.1 led
    exact ⟨[], step, rest, data, rfl, .nil, rfl, selects_of_fits here found⟩
  | cons first before ih =>
    obtain _ | @⟨_, step, _, rest, here, later⟩ := fits
    obtain ⟨inner, found, led⟩ := Option.bind_eq_some_iff.1 led
    obtain ⟨start, next, rest, container, rfl, fit, ledThere, selects⟩ := ih later led
    refine ⟨step :: start, next, rest, container, rfl, .cons here fit, ?_, selects⟩
    rw [Json.at?, found]
    exact ledThere

/-- What each name of a pattern selects on the way to what is reached. -/
theorem IsReached.selects (reached : IsReached data segments place) {before after : List Segment}
    (split : segments = before ++ segment :: after) :
    ∃ trail step rest container, place.steps = trail ++ step :: rest ∧ Segment.Fit before trail ∧
      data.at? trail = some container ∧ segment.Selects container step := by
  have ends : ∃ init trail last step container, segments = init ++ [last] ∧ place.steps = trail ++ [step] ∧
      Segment.Fit init trail ∧ data.at? trail = some container ∧ last.Selects container step := by
    cases reached with
    | whole => simp at split
    | child fits led found => exact ⟨_, _, _, _, _, rfl, rfl, fits, led, _, found⟩
    | member fits led key => exact ⟨_, _, _, _, _, rfl, rfl, fits, led, rfl, rfl⟩
  obtain ⟨init, trail, last, step, container, rfl, steps, fits, led, selects⟩ := ends
  rcases List.eq_nil_or_concat after with rfl | ⟨after, final, rfl⟩
  · obtain ⟨rfl, same⟩ := List.append_inj' split rfl
    obtain rfl := List.singleton_inj.1 same
    exact ⟨trail, step, [], container, steps, fits, led, selects⟩
  · rw [List.concat_eq_append, ← List.cons_append, ← List.append_assoc] at split
    obtain ⟨rfl, -⟩ := List.append_inj' split rfl
    obtain ⟨start, next, rest, inner, rfl, fitsStart, ledStart, picked⟩ := selects_of_at? fits led
    exact ⟨start, next, rest ++ [step], inner, by simp [steps], fitsStart, ledStart, picked⟩

/-- The places of a pattern are what it reaches in a document, each of them once, in the order of the document and with
its path and value. What a name selects on the way to one is a member of an object, and what the wildcard selects exists.
Documents that are read from text are keyed, by `Json.isKeyed_of_read`. -/
theorem expand_exact (keyed : data.isKeyed) (pattern : String) :
    (∀ place, place ∈ expand data pattern ↔ IsReached data ((Path.segments pattern).map Segment.ofText) place) ∧
    ((expand data pattern).map (·.steps)).Nodup ∧
    (expand data pattern).Pairwise (fun first second => data.Precedes first.steps second.steps) ∧
    ∀ place ∈ expand data pattern,
      place.path = ".".intercalate (place.steps.map Step.text) ∧ place.value = data.at? place.steps ∧
        ∀ before segment after, (Path.segments pattern).map Segment.ofText = before ++ segment :: after →
          ∃ trail step rest container, place.steps = trail ++ step :: rest ∧ Segment.Fit before trail ∧
            data.at? trail = some container ∧ segment.Selects container step := by
  have inOrder := pairwise_below keyed ((Path.segments pattern).map Segment.ofText)
  refine ⟨fun place => mem_below_iff keyed, ?_, inOrder, fun place inside => ?_⟩
  · exact List.pairwise_map.2 (inOrder.imp fun precedes => precedes.ne keyed)
  · have reached := (mem_below_iff keyed).1 inside
    exact ⟨rfl, reached.value_eq, fun before segment after split => reached.selects split⟩

/-- An object with two filters, the second of which names no field. -/
def twoFilters : Members := [("filters", .list [.object [("field", .text "id")], .object []])]

/-- The member that a filter lacks is reached as well as the one that another filter has. -/
theorem expand_exact_twoFilters : (Json.object twoFilters).isKeyed ∧
    (expand (.object twoFilters) "filters.*.field").map (·.path) = ["filters.0.field", "filters.1.field"] ∧
    IsReached (.object twoFilters) [.name "filters", .any, .name "field"]
      ⟨[.member "filters", .index 1, .member "field"], some [], none⟩ := by
  have keyed : (Json.object twoFilters).isKeyed := by decide
  have made : expand (.object twoFilters) "filters.*.field" =
    [⟨[.member "filters", .index 0, .member "field"], some [("field", .text "id")], some (.text "id")⟩,
     ⟨[.member "filters", .index 1, .member "field"], some [], none⟩] := by rfl
  refine ⟨keyed, by rw [made]; decide, ?_⟩
  exact ((expand_exact keyed "filters.*.field").1 _).1 (by simp [made])

end Attribute

end ResourceApi
