import ResourceApi.Proofs.Search.Fetched

/-!
Included records in the records of a result. A step attaches to each record what its relation brings for it; what later
steps attach to these records stands in them as well.
-/

namespace ResourceApi

open Outcome Query

namespace Plan

/-- What steps have attached to a row of a path that stands for a record: under the name of each step that goes on from the
path the records that its include brings, to which the steps after it have attached theirs. -/
def Attached (graph : Graph) (rows : String → List Row) (includes : List Include) :
    List Hop → String → Resource × Row → Members → Prop
  | [], _, _, _ => True
  | hop :: rest, path, origin, shown =>
    let item := searchOf hop.step.relation (requested includes hop.step.path)
    (start hop.step = path → ∃ children : List Members,
      shown.get? hop.step.name = some (attachment hop.step.relation.kind.cardinality children) ∧
        List.Forall₂ (fun found child =>
            found.1.table.Shows (askedFields found.1 item.selects) (found.2.getD 0 []) child ∧
              Attached graph rows includes rest hop.step.path (found.1, found.2.getD 0 []) child)
          (graph.brought rows origin.1 hop.step.relation item origin.2) children) ∧
      Attached graph rows includes rest path origin shown

/-- The records for which rows stand on a shelf, by path. -/
abbrev Book := List (String × List (Resource × Row))

/-- A shelf has the rows of a book, each in some state. -/
def Shelf.Keeps (state : String → Resource × Row → Loaded → Prop) (book : Book) (shelf : Shelf) : Prop :=
  List.Forall₂ (fun page entry => page.1 = entry.1 ∧ List.Forall₂ (state page.1) page.2 entry.2) book shelf

namespace Shelf.Keeps

variable {state other : String → Resource × Row → Loaded → Prop} {book : Book} {shelf : Shelf}

theorem rowsAt (keeps : Shelf.Keeps state book shelf) (path : String) :
    List.Forall₂ (state path) ((book.lookup path).getD []) (Plan.rowsAt shelf path) := by
  unfold Plan.rowsAt
  induction keeps with
  | nil => exact .nil
  | @cons page entry book shelf here _ ih =>
    obtain ⟨samePath, rows⟩ := here
    rw [List.lookup, List.lookup, ← samePath]
    cases same : path == page.1 with
    | true =>
      obtain rfl : path = page.1 := by simpa using same
      exact rows
    | false => exact ih

/-- Attaching records to those of one path changes the state of these, and of no others. -/
theorem attachAt (keeps : Shelf.Keeps state book shelf) (distinct : (book.map (·.1)).Nodup) {step : IncludeStep}
    {children : List Loaded}
    (elsewhere : ∀ path origin loaded, path ≠ start step → state path origin loaded → other path origin loaded)
    (here : ∀ loaded, List.Forall₂ (state (start step)) ((book.lookup (start step)).getD []) loaded →
      List.Forall₂ (other (start step)) ((book.lookup (start step)).getD []) (attach step children loaded)) :
    Shelf.Keeps other book (Plan.attachAt step children shelf) := by
  induction keeps with
  | nil => exact .nil
  | @cons page entry book shelf first rest ih =>
    obtain ⟨samePath, rows⟩ := first
    obtain ⟨fresh, distinct⟩ := List.nodup_cons.1 distinct
    rw [attachAt_cons, ← samePath]
    by_cases same : page.1 = start step
    · rw [if_pos same]
      refine .cons ⟨rfl, ?_⟩ ?_
      · simp only [List.lookup, ← same, beq_self_eq_true, Option.getD_some] at here
        exact here _ rows
      · refine List.Forall₂.imp ?_ (forall₂_and_mem rest)
        rintro later entry ⟨listed, -, sameToo, rows⟩
        refine ⟨sameToo, rows.imp fun origin loaded => elsewhere _ _ _ ?_⟩
        intro again
        have inside : later.1 ∈ book.map (·.1) := List.mem_map_of_mem listed
        rw [again, ← same] at inside
        exact fresh inside
    · rw [if_neg same]
      refine .cons ⟨samePath, rows.imp fun origin loaded => elsewhere _ _ _ same⟩ (ih distinct ?_)
      have unequal : (start step == page.1) = false := beq_eq_false_iff_ne.2 (Ne.symm same)
      simpa only [List.lookup, unequal] using here

end Shelf.Keeps

section Loading

variable {graph : Graph} {resource : Resource} {includes : List Include} {hops : List Hop} {rows : String → List Row}

/-- What was attached is found by the names of the steps. -/
theorem Attached.congr {part : List Hop} {path : String} {origin : Resource × Row} {shown other : Members}
    (attached : Attached graph rows includes part path origin shown)
    (same : ∀ hop ∈ part, start hop.step = path → other.get? hop.step.name = shown.get? hop.step.name) :
    Attached graph rows includes part path origin other := by
  induction part with
  | nil => trivial
  | cons hop rest ih =>
    obtain ⟨here, later⟩ := attached
    refine ⟨fun starts => ?_, ih later fun next inside => same next (List.mem_cons_of_mem _ inside)⟩
    rw [same hop List.mem_cons_self starts]
    exact here starts

/-- Attaching the records of a step, which have their own already, to those that they were loaded for. -/
private theorem attached_of_attach {hop : Hop} {rest : List Hop} {step : IncludeStep} (sameName : step.name = hop.step.name)
    (sameRelation : step.relation = hop.step.relation) {item : Include}
    (isItem : item = searchOf hop.step.relation (requested includes hop.step.path))
    {origins : List (Resource × Row)} (owned : ∀ origin ∈ origins, hop.owner = origin.1) {children loaded : List Loaded}
    (given : List.Forall₂ (fun found child => Given rows hops hop item found child ∧
        Attached graph rows includes rest hop.step.path (found.2.1, found.2.2.getD 0 []) child.row)
      (fetched graph rows hop item (origins.map (·.2))) children)
    (fresh : ∀ next ∈ rest, start next.step = start hop.step → next.step.name ≠ hop.step.name)
    (before : List.Forall₂ (fun origin loaded =>
      Attached graph rows includes rest (start hop.step) origin loaded.row) origins loaded) :
    List.Forall₂ (fun origin loaded => Attached graph rows includes (hop :: rest) (start hop.step) origin loaded.row)
      origins (attach step children loaded) := by
  rw [attach, ← List.zipIdx_map_fst 0 origins, List.forall₂_map_left_iff, List.forall₂_map_right_iff]
  refine (forall₂_and_mem (forall₂_zipIdx before 0)).imp ?_
  rintro ⟨origin, place⟩ ⟨parent, _⟩ ⟨stands, -, attached, rfl⟩
  have listed : (origin.2, place) ∈ (origins.map (·.2)).zipIdx := by
    rw [List.zipIdx_map]
    exact List.mem_map.2 ⟨_, stands, rfl⟩
  have inside : origin ∈ origins := List.fst_mem_of_mem_zipIdx stands
  refine ⟨fun _ => ⟨(children.filter (·.parent == place)).map (·.row), ?_, ?_⟩, attached.congr fun next among starts => ?_⟩
  · dsimp only
    rw [sameName, sameRelation, Members.get?_put_self]
  · rw [← isItem, ← owned origin inside, ← fetched_at listed, List.forall₂_map_left_iff, List.forall₂_map_right_iff]
    refine (List.rel_filter (fun found child both => ?_) given).imp fun found child both => ⟨both.1.shows, both.2⟩
    exact Iff.of_eq (congrArg (fun at_ => (at_ == place) = true) both.1.place.symm)
  · dsimp only
    rw [sameName, Members.get?_put_of_ne (fresh next among starts)]

/-- The rows that a step goes on from stand for records of its owner. -/
theorem Shelf.Keeps.stands {book : Book} {shelf : Shelf}
    (keeps : Shelf.Keeps (fun path origin loaded => Shelved rows hops path origin loaded.row) book shelf) {hop : Hop}
    (inside : hop ∈ hops) : List.Forall₂ (Stands rows hop.owner hop.step.relation)
      (((book.lookup (start hop.step)).getD []).map (·.2)) ((Plan.rowsAt shelf (start hop.step)).map (·.row)) := by
  rw [List.forall₂_map_left_iff, List.forall₂_map_right_iff]
  refine (keeps.rowsAt (start hop.step)).imp fun origin loaded isShelved => ?_
  obtain ⟨owned, shows⟩ := isShelved.carries hop inside rfl
  rw [owned]
  exact ⟨isShelved.listed, shows⟩

/-- Steps that go on from one path have different names. -/
theorem Laid.name_ne (laid : Laid graph resource hops) {hop : Hop} {rest : List Hop} (among : hop :: rest ⊆ hops)
    (distinct : ((hop :: rest).map (·.step.path)).Nodup) {next : Hop} (further : next ∈ rest)
    (starts : start next.step = start hop.step) : next.step.name ≠ hop.step.name := by
  intro named
  obtain ⟨inside, amongRest⟩ := List.cons_subset.1 among
  have samePaths : next.step.path = hop.step.path := by
    rw [laid.path next (amongRest further), laid.path hop inside, starts, named]
  have listed : next.step.path ∈ rest.map (·.step.path) := List.mem_map_of_mem further
  rw [samePaths] at listed
  exact (List.nodup_cons.1 distinct).1 listed

variable (sound : graph.Sound) (apart : graph.NamesApart) (laid : Laid graph resource hops)
include sound apart laid

/-- The records of a step are put on the shelf, and into those that they were loaded for. -/
theorem Shelf.Keeps.step {book : Book} {shelf : Shelf}
    (keeps : Shelf.Keeps (fun path origin loaded => Shelved rows hops path origin loaded.row) book shelf) {hop : Hop}
    (inside : hop ∈ hops) {step : IncludeStep} (made : loadHop graph includes hops hop = .ok step)
    {origins : List (Resource × Row)} {found : List Loaded}
    (shelved : List.Forall₂ (fun origin loaded => Shelved rows hops hop.step.path origin loaded.row) origins found) :
    Shelf.Keeps (fun path origin loaded => Shelved rows hops path origin loaded.row) ((hop.step.path, origins) :: book)
      ((step.path, found) :: Plan.attachAt step found shelf) := by
  refine .cons ⟨(step_of_loadHop made).1.symm, shelved⟩ (forall₂_trans keeps (attachAt_grown step found shelf) ?_)
  rintro page entry grown ⟨samePage, shelved⟩ ⟨sameEntry, kept⟩
  refine ⟨samePage.trans sameEntry.symm, forall₂_trans shelved kept fun origin old new isShelved changed => ?_⟩
  exact isShelved.kept sound apart laid (List.cons_subset.2 ⟨inside, List.nil_subset _⟩) (.cons made .nil)
    (samePage ▸ changed)

/-- Loading steps attaches to the records that stand on the shelf what the includes bring for them. -/
theorem attached_of_loadAll (noScopes : ∀ item ∈ includes, item.scopes = [])
    (notNegative : ∀ hop ∈ hops, ∀ count,
      (searchOf hop.step.relation (requested includes hop.step.path)).limit = some count → 0 ≤ count)
    {database : Database} (typed : graph.Typed database.rows) {part : List Hop} (among : part ⊆ hops)
    {steps : List IncludeStep}
    (loaded : List.Forall₂ (fun hop step => loadHop graph includes hops hop = .ok step) part steps) {work after : Work}
    (same : work.database = database) {book : Book} {shelf completed : Shelf}
    (distinct : (part.map (·.step.path) ++ book.map (·.1)).Nodup)
    (keeps : Shelf.Keeps (fun path origin loaded => Shelved database.rows hops path origin loaded.row) book shelf)
    (ran : (loadAll steps shelf).runOn work = (.ok completed, after)) :
    Shelf.Keeps (fun path origin loaded => Attached graph database.rows includes part path origin loaded.row) book
      completed := by
  induction loaded generalizing work book shelf completed with
  | nil =>
    obtain ⟨rfl, -⟩ := loadAll_nil_eq_ok ran
    exact List.Forall₂.imp (fun page entry kept => ⟨kept.1, kept.2.imp fun _ _ _ => trivial⟩) keeps
  | @cons hop step rest steps made others ih =>
    obtain ⟨inside, amongRest⟩ := List.cons_subset.1 among
    obtain ⟨samePath, sameParent, sameName, sameRelation⟩ := step_of_loadHop made
    have sameStart : start step = start hop.step := by rw [start, sameParent, ← start]
    obtain ⟨found, middle, later, ranStep, ranRest, rfl⟩ := loadAll_cons_eq_ok ran
    have shelved := keeps.rowsAt (start hop.step)
    have stand : List.Forall₂ (Stands database.rows hop.owner hop.step.relation)
        (((book.lookup (start hop.step)).getD []).map (·.2)) ((Plan.rowsAt shelf (start step)).map (·.row)) := by
      rw [sameStart]
      exact keeps.stands inside
    subst same
    obtain ⟨kept, given⟩ := given_of_loadHop sound apart laid inside made noScopes (notNegative hop inside) typed stand
      ranStep
    obtain ⟨items, isItems⟩ : ∃ items, items = fetched graph work.database.rows hop
      (searchOf hop.step.relation (requested includes hop.step.path))
      (((book.lookup (start hop.step)).getD []).map (·.2)) := ⟨_, rfl⟩
    rw [← isItems] at given
    have onward := keeps.step sound apart laid inside made (List.forall₂_map_left_iff.2 (given.imp fun _ _ isGiven =>
      isGiven.shelved) : List.Forall₂ _ (items.map fun found => (found.2.1, found.2.2.getD 0 [])) found.flatten)
    have distinctRest : (rest.map (·.step.path) ++ List.map (·.1) ((hop.step.path,
        items.map fun found => (found.2.1, found.2.2.getD 0 [])) :: book)).Nodup :=
      List.perm_middle.symm.nodup distinct
    obtain ⟨⟨_, children⟩, shelf, ⟨rfl, attachedHere⟩, attachedElsewhere, rfl⟩ :=
      List.forall₂_cons_left_iff.1 (ih amongRest kept distinctRest onward ranRest)
    obtain ⟨⟨-, keptHere⟩, -⟩ := List.forall₂_cons.1 (loadAll_grown ranRest)
    rw [List.forall₂_map_left_iff] at attachedHere
    have nested := (forall₂_trans given keptHere fun _ _ _ isGiven changed =>
      isGiven.kept sound apart laid amongRest others (samePath ▸ changed)).mp
        (fun _ _ isGiven attached => And.intro isGiven attached) attachedHere
    have elsewhere : Shelf.Keeps (fun path origin loaded =>
      Attached graph work.database.rows includes rest path origin loaded.row) book shelf := attachedElsewhere
    refine elsewhere.attachAt (List.nodup_append.1 distinct).2.1
      (fun path origin loaded other attached => ⟨fun starts => absurd (starts.symm.trans sameStart.symm) other, attached⟩) ?_
    rw [sameStart]
    refine fun loaded => attached_of_attach sameName sameRelation rfl (fun origin listed => ?_) (isItems ▸ nested) ?_
    · obtain ⟨_, -, isShelved⟩ := forall₂_mem_left shelved listed
      exact (isShelved.carries hop inside rfl).1
    · exact fun next further starts => laid.name_ne among (List.nodup_append.1 distinct).1 further starts

end Loading

end Plan

end ResourceApi
