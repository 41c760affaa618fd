import Mathlib.Data.List.Forall2
import ResourceApi.Session.Work

/-!
Taking results apart. A computation in steps succeeds exactly when every step does, and it fails as one of its steps
fails; the same holds of jobs, which also leave a state behind.
-/

namespace ResourceApi

variable {α β : Type} {p : Failure → Prop}

namespace Outcome

@[simp]
theorem ok_bind (a : α) (next : α → Except Failure β) : (.ok a >>= next) = next a := rfl

@[simp]
theorem bind_eq_ok {result : Except Failure α} {next : α → Except Failure β} {b : β} :
    (result >>= next) = .ok b ↔ ∃ a, result = .ok a ∧ next a = .ok b := by
  cases result <;> simp [Bind.bind, Except.bind]

@[simp]
theorem map_eq_ok {result : Except Failure α} {f : α → β} {b : β} :
    result.map f = .ok b ↔ ∃ a, result = .ok a ∧ f a = b := by
  cases result <;> simp [Except.map]

@[simp]
theorem pure_eq_ok {a b : α} : (pure a : Except Failure α) = .ok b ↔ a = b := by
  simp [pure, Except.pure]

theorem mapM_eq_ok {f : α → Except Failure β} {items : List α} {results : List β} :
    items.mapM f = .ok results ↔ List.Forall₂ (fun item result => f item = .ok result) items results := by
  induction items generalizing results with
  | nil => cases results <;> simp
  | cons item rest ih =>
    rw [List.mapM_cons]
    simp only [bind_eq_ok, pure_eq_ok, ih, List.forall₂_cons_left_iff]
    constructor
    · rintro ⟨result, here, others, after, rfl⟩
      exact ⟨result, others, here, after, rfl⟩
    · rintro ⟨result, others, here, after, rfl⟩
      exact ⟨result, here, others, after, rfl⟩

/-- Items that come to the same have the same list of results. -/
theorem mapM_congr {f g : α → Except Failure β} {items : List α} (same : ∀ item ∈ items, f item = g item) :
    items.mapM f = items.mapM g := by
  induction items with
  | nil => rfl
  | cons item rest ih =>
    obtain ⟨here, later⟩ := List.forall_mem_cons.1 same
    rw [List.mapM_cons, List.mapM_cons, here, ih later]

/-- A fold whose steps succeed is the fold without failures. -/
theorem foldlM_eq_ok {f : β → α → Except Failure β} {g : β → α → β} {items : List α}
    (each : ∀ item ∈ items, ∀ b, f b item = .ok (g b item)) (b : β) : items.foldlM f b = .ok (items.foldl g b) := by
  induction items generalizing b with
  | nil => rfl
  | cons item rest ih =>
    rw [List.foldlM_cons, each item List.mem_cons_self, ok_bind, List.foldl_cons]
    exact ih (fun other later => each other (List.mem_cons_of_mem item later)) _

theorem filterM_eq_ok {f : α → Except Failure Bool} {kept : α → Bool} {items : List α}
    (each : ∀ item ∈ items, f item = .ok (kept item)) : items.filterM f = .ok (items.filter kept) := by
  have loop (found : List α) : items.filterAuxM f found = .ok ((items.filter kept).reverse ++ found) := by
    induction items generalizing found with
    | nil => rfl
    | cons item rest ih =>
      obtain ⟨here, later⟩ := List.forall_mem_cons.1 each
      rw [List.filterAuxM, here, ok_bind, ih later]
      cases chosen : kept item <;> simp [chosen]
  rw [List.filterM, loop, ok_bind, List.append_nil, List.reverse_reverse]
  rfl

theorem filterM_mem {f : α → Except Failure Bool} {items kept : List α} (success : items.filterM f = .ok kept)
    (item : α) : item ∈ kept ↔ item ∈ items ∧ f item = .ok true := by
  have loop (items found chosen : List α) (success : items.filterAuxM f found = .ok chosen) :
      item ∈ chosen ↔ item ∈ found ∨ item ∈ items ∧ f item = .ok true := by
    induction items generalizing found with
    | nil =>
      cases success
      simp
    | cons first rest ih =>
      obtain ⟨keeps, asked, after⟩ := bind_eq_ok.1 success
      rw [ih _ after]
      cases keeps with
      | true =>
        simp only [cond_true, List.mem_cons]
        constructor
        · rintro ((rfl | before) | later)
          · exact .inr ⟨.inl rfl, asked⟩
          · exact .inl before
          · exact .inr ⟨.inr later.1, later.2⟩
        · rintro (before | ⟨rfl | later, accepted⟩)
          · exact .inl (.inr before)
          · exact .inl (.inl rfl)
          · exact .inr ⟨later, accepted⟩
      | false =>
        simp only [cond_false, List.mem_cons]
        constructor
        · rintro (before | later)
          · exact .inl before
          · exact .inr ⟨.inr later.1, later.2⟩
        · rintro (before | ⟨rfl | later, accepted⟩)
          · exact .inl before
          · rw [asked] at accepted
            cases accepted
          · exact .inr ⟨later, accepted⟩
  obtain ⟨chosen, looped, reversed⟩ := bind_eq_ok.1 success
  obtain rfl := pure_eq_ok.1 reversed
  simpa using loop items [] chosen looped

theorem mapM_eq_some {f : α → Option β} {items : List α} {results : List β} :
    items.mapM f = some results ↔ List.Forall₂ (fun item result => f item = some result) items results := by
  induction items generalizing results with
  | nil => cases results <;> simp
  | cons item rest ih =>
    rw [List.mapM_cons]
    simp only [Option.bind_eq_bind, Option.bind_eq_some_iff, Option.pure_def, Option.some.injEq, ih,
      List.forall₂_cons_left_iff]
    constructor
    · rintro ⟨result, here, others, after, rfl⟩
      exact ⟨result, others, here, after, rfl⟩
    · rintro ⟨result, others, here, after, rfl⟩
      exact ⟨result, here, others, after, rfl⟩

/-- What comes of some items, those left out giving nothing. -/
theorem flatMap_filter (p : α → Bool) (f : α → List β) (items : List α) :
    (items.filter p).flatMap f = items.flatMap fun item => if p item then f item else [] := by
  induction items with
  | nil => rfl
  | cons item rest ih => cases kept : p item <;> simp [kept, ih]

/-- What is related to one of the first is among the second, and the other way round. -/
theorem forall₂_mem_left {r : α → β → Prop} {firsts : List α} {seconds : List β} (related : List.Forall₂ r firsts seconds)
    {a : α} (member : a ∈ firsts) : ∃ b ∈ seconds, r a b := by
  induction related with
  | nil => cases member
  | cons here _ ih =>
    rcases List.mem_cons.1 member with rfl | later
    · exact ⟨_, List.mem_cons_self, here⟩
    · obtain ⟨b, present, found⟩ := ih later
      exact ⟨b, List.mem_cons_of_mem _ present, found⟩

theorem forall₂_mem_right {r : α → β → Prop} {firsts : List α} {seconds : List β}
    (related : List.Forall₂ r firsts seconds) {b : β} (member : b ∈ seconds) : ∃ a ∈ firsts, r a b :=
  forall₂_mem_left related.flip member

/-- What has something related to it for each has a list of such things. -/
theorem exists_forall₂ {r : α → β → Prop} {firsts : List α} (each : ∀ a ∈ firsts, ∃ b, r a b) :
    ∃ seconds, List.Forall₂ r firsts seconds := by
  induction firsts with
  | nil => exact ⟨[], .nil⟩
  | cons first rest ih =>
    obtain ⟨b, here⟩ := each first List.mem_cons_self
    obtain ⟨others, later⟩ := ih fun a listed => each a (List.mem_cons_of_mem first listed)
    exact ⟨b :: others, .cons here later⟩

theorem forall₂_trans {γ : Type} {r : α → β → Prop} {s : β → γ → Prop} {t : α → γ → Prop} {as : List α}
    {bs : List β} {cs : List γ} (first : List.Forall₂ r as bs) (second : List.Forall₂ s bs cs)
    (both : ∀ a b c, r a b → s b c → t a c) : List.Forall₂ t as cs := by
  induction first generalizing cs with
  | nil =>
    cases second
    exact .nil
  | cons here _ ih =>
    cases second with
    | cons there later => exact .cons (both _ _ _ here there) (ih later)

/-- Every result is that of an item. -/
theorem mapM_mem {f : α → Except Failure β} {items : List α} {results : List β} {result : β}
    (success : items.mapM f = .ok results) (member : result ∈ results) : ∃ item ∈ items, f item = .ok result :=
  forall₂_mem_right (mapM_eq_ok.1 success) member

/-- Every item has a result among all results. -/
theorem mapM_image {f : α → Except Failure β} {items : List α} {results : List β} {item : α}
    (success : items.mapM f = .ok results) (member : item ∈ items) : ∃ result ∈ results, f item = .ok result :=
  forall₂_mem_left (mapM_eq_ok.1 success) member

/-- Lists that are made for some items have nothing in them, all together, if and only if each is empty. -/
theorem flatten_mapM_eq_nil {f : α → Except Failure (List β)} {items : List α} :
    (do return (← items.mapM f).flatten) = (.ok [] : Except Failure (List β)) ↔ ∀ item ∈ items, f item = .ok [] := by
  constructor
  · intro joined item member
    obtain ⟨found, made, empty⟩ := bind_eq_ok.1 joined
    obtain ⟨list, given, here⟩ := mapM_image made member
    obtain rfl := List.flatten_eq_nil_iff.1 (pure_eq_ok.1 empty) list given
    exact here
  · intro each
    obtain ⟨found, made⟩ := exists_forall₂ fun item member => (⟨[], each item member, rfl⟩ :
      ∃ list, f item = .ok list ∧ list = [])
    refine bind_eq_ok.2 ⟨found, mapM_eq_ok.2 (made.imp fun _ _ both => both.1), pure_eq_ok.2 ?_⟩
    refine List.flatten_eq_nil_iff.2 fun list given => ?_
    obtain ⟨_, -, -, empty⟩ := forall₂_mem_right made given
    exact empty

/-- What a fold keeps at every step holds of its result. -/
theorem foldlM_invariant {f : β → α → Except Failure β} {items : List α} {first last : β}
    (success : items.foldlM f first = .ok last) {invariant : β → Prop} (start : invariant first)
    (step : ∀ item ∈ items, ∀ before after, invariant before → f before item = .ok after → invariant after) :
    invariant last := by
  induction items generalizing first with
  | nil =>
    obtain rfl := pure_eq_ok.1 success
    exact start
  | cons item rest ih =>
    rw [List.foldlM_cons] at success
    obtain ⟨middle, here, later⟩ := bind_eq_ok.1 success
    exact ih later (step item List.mem_cons_self first middle start here) fun other member =>
      step other (List.mem_cons_of_mem item member)

/-! ## Failures that never come -/

/-- A result that is no failure of a sort. -/
def Never (p : Failure → Prop) (result : Except Failure α) : Prop :=
  ∀ failure, result = .error failure → ¬p failure

namespace Never

theorem ok (a : α) : Never p (.ok a) := by
  intro failure fails
  cases fails

theorem pure (a : α) : Never p (Pure.pure a : Except Failure α) := ok a

theorem error {failure : Failure} (other : ¬p failure) : Never p (.error failure : Except Failure α) := by
  intro cause fails
  cases fails
  exact other

theorem of_eq_ok {result : Except Failure α} {a : α} (success : result = .ok a) : Never p result :=
  success ▸ ok a

theorem bind {result : Except Failure α} {next : α → Except Failure β} (first : Never p result)
    (second : ∀ a, result = .ok a → Never p (next a)) : Never p (result >>= next) := by
  cases result with
  | error failure => exact error (first failure rfl)
  | ok a => exact second a rfl

theorem map {result : Except Failure α} {f : α → β} (first : Never p result) : Never p (result.map f) := by
  cases result with
  | error failure => exact error (first failure rfl)
  | ok a => exact ok (f a)

theorem mapM {f : α → Except Failure β} {items : List α} (each : ∀ item ∈ items, Never p (f item)) :
    Never p (items.mapM f) := by
  induction items with
  | nil => exact pure []
  | cons item rest ih =>
    rw [List.mapM_cons]
    refine bind (each item List.mem_cons_self) fun _ _ => bind (ih fun other later => ?_) fun _ _ => pure _
    exact each other (List.mem_cons_of_mem item later)

theorem forIn {f : α → β → Except Failure (ForInStep β)} {items : List α} (each : ∀ item b, Never p (f item b)) (b : β) :
    Never p (ForIn.forIn items b f) := by
  induction items generalizing b with
  | nil => exact pure b
  | cons item rest ih =>
    rw [List.forIn_cons]
    refine bind (each item b) fun step _ => ?_
    cases step with
    | done result => exact pure result
    | yield next => exact ih next

end Never

end Outcome

/-! ## Jobs -/

namespace Job

variable {work after : Work}

/-- What a job gives when it is run on a state, and the state that it leaves. -/
def runOn (job : Job α) (work : Work) : Except Failure α × Work := job work

theorem bind_runOn (job : Job α) (next : α → Job β) (work : Work) :
    (job >>= next).runOn work = match job.runOn work with
      | (.ok a, middle) => (next a).runOn middle
      | (.error failure, middle) => (.error failure, middle) := by
  change (ExceptT.bind job next) work = _
  simp only [ExceptT.bind, ExceptT.mk, Bind.bind, StateT.bind, runOn]
  rcases (job work : Except Failure α × Work) with ⟨_ | _, middle⟩ <;> rfl

theorem bind_eq_ok {job : Job α} {next : α → Job β} {b : β} :
    (job >>= next).runOn work = (.ok b, after) ↔
      ∃ a middle, job.runOn work = (.ok a, middle) ∧ (next a).runOn middle = (.ok b, after) := by
  rw [bind_runOn]
  rcases job.runOn work with ⟨_ | a, middle⟩ <;> simp

theorem bind_eq_error {job : Job α} {next : α → Job β} {failure : Failure} :
    (job >>= next).runOn work = (.error failure, after) ↔
      job.runOn work = (.error failure, after) ∨
        ∃ a middle, job.runOn work = (.ok a, middle) ∧ (next a).runOn middle = (.error failure, after) := by
  rw [bind_runOn]
  rcases job.runOn work with ⟨_ | a, middle⟩ <;> simp

@[simp]
theorem pure_runOn (a : α) (work : Work) : (pure a : Job α).runOn work = (.ok a, work) := rfl

@[simp]
theorem of_runOn (result : Except Failure α) (work : Work) : (Job.of result).runOn work = (result, work) := rfl

@[simp]
theorem fail_runOn (failure : Failure) (work : Work) :
    (Job.fail failure : Job α).runOn work = (.error failure, work) := rfl

@[simp]
theorem database_runOn (work : Work) : Job.database.runOn work = (.ok work.database, work) := rfl

@[simp]
theorem get_runOn (work : Work) : (get : Job Work).runOn work = (.ok work, work) := rfl

@[simp]
theorem modify_runOn (f : Work → Work) (work : Work) : (modify f : Job Unit).runOn work = (.ok (), f work) := rfl

@[simp]
theorem tell_runOn (event : Event) (work : Work) :
    (Job.tell event).runOn work = (.ok (), { work with events := work.events ++ [event] }) := rfl

/-- A job goes on from a result in hand only if that is a success. -/
theorem of_bind_eq_ok {result : Except Failure α} {next : α → Job β} {b : β} :
    (Job.of result >>= next).runOn work = (.ok b, after) ↔ ∃ a, result = .ok a ∧ (next a).runOn work = (.ok b, after) := by
  cases result <;> simp [bind_runOn]

/-- A result that is not used further has to be a success all the same. -/
theorem discard_bind_eq_ok {result : Except Failure α} {next : PUnit → Job β} {b : β} :
    (discard (Job.of result) >>= next).runOn work = (.ok b, after) ↔
      (∃ a, result = .ok a) ∧ (next ⟨⟩).runOn work = (.ok b, after) := by
  have ran : (discard (Job.of result) : Job PUnit).runOn work = (result.map fun _ => ⟨⟩, work) := by
    cases result <;> rfl
  rw [bind_runOn, ran]
  cases result <;> simp [Except.map]

/-- Jobs that are done one after the other, each on a state that all of them keep to. -/
theorem mapM_eq_ok {f : α → Job β} {items : List α} {results : List β} {keeps : Work → Prop} (start : keeps work)
    (step : ∀ item before result after, keeps before → (f item).runOn before = (.ok result, after) → keeps after)
    (ran : (items.mapM f).runOn work = (.ok results, after)) :
    keeps after ∧ List.Forall₂ (fun item result => ∃ before after, keeps before ∧
      (f item).runOn before = (.ok result, after)) items results := by
  induction items generalizing work results with
  | nil =>
    cases ran
    exact ⟨start, .nil⟩
  | cons item rest ih =>
    rw [List.mapM_cons] at ran
    obtain ⟨result, middle, here, ran⟩ := bind_eq_ok.1 ran
    obtain ⟨others, last, later, ran⟩ := bind_eq_ok.1 ran
    cases ran
    obtain ⟨kept, given⟩ := ih (step _ _ _ _ start here) later
    exact ⟨kept, .cons ⟨work, middle, start, here⟩ given⟩

/-- A job that never fails in some way, whatever it is run on. -/
def Never (p : Failure → Prop) (job : Job α) : Prop :=
  ∀ work failure after, job.runOn work = (.error failure, after) → ¬p failure

namespace Never

theorem pure (a : α) : Never p (Pure.pure a : Job α) := by
  intro work failure after fails
  simp at fails

theorem of {result : Except Failure α} (never : Outcome.Never p result) : Never p (Job.of result) := by
  intro work failure after fails
  simp only [of_runOn, Prod.mk.injEq] at fails
  exact never failure fails.1

theorem fail {failure : Failure} (other : ¬p failure) : Never p (Job.fail failure : Job α) := by
  intro work cause after fails
  simp only [fail_runOn, Prod.mk.injEq, Except.error.injEq] at fails
  exact fails.1 ▸ other

theorem bind {job : Job α} {next : α → Job β} (first : Never p job) (second : ∀ a, Never p (next a)) :
    Never p (job >>= next) := by
  intro work failure after fails
  rcases bind_eq_error.1 fails with early | ⟨a, middle, given, late⟩
  · exact first work failure after early
  · exact second a middle failure after late

/-- A result in hand is all that a job goes on from. -/
theorem of_bind {result : Except Failure α} {next : α → Job β} (first : Outcome.Never p result)
    (second : ∀ a, result = .ok a → Never p (next a)) : Never p (Job.of result >>= next) := by
  intro work failure after fails
  rcases bind_eq_error.1 fails with early | ⟨a, middle, given, late⟩
  · exact of first work failure after early
  · simp only [of_runOn, Prod.mk.injEq] at given
    exact second a given.1 middle failure after late

theorem modify (f : Work → Work) : Never p (modify f : Job Unit) := by
  intro work failure after fails
  simp at fails

theorem get : Never p (get : Job Work) := by
  intro work failure after fails
  simp at fails

theorem modifyGet (f : Work → α × Work) : Never p (modifyGet f : Job α) := by
  intro work failure after fails
  cases fails

theorem ite {condition : Prop} [Decidable condition] {first second : Job α} (holds : condition → Never p first)
    (fails : ¬condition → Never p second) : Never p (if condition then first else second) := by
  split
  · exact holds ‹_›
  · exact fails ‹_›

/-- A job that goes on only if nothing is wrong. -/
theorem guarded {condition : Prop} [Decidable condition] {failure : Failure} {next : Unit → Job α} (other : ¬p failure)
    (after : ∀ u, Never p (next u)) : Never p (if condition then Job.fail failure >>= next else next ()) :=
  ite (fun _ => (fail other).bind after) fun _ => after ()

theorem transaction {job : Job α} (never : Never p job) : Never p (Job.transaction job) := by
  intro work failure after fails
  change (match job.runOn work with
    | (.ok result, after) => (.ok result, { after with records := [] })
    | (.error failure, after) => (.error failure,
      { after with database := work.database, records := [], events := after.events ++ [.rolledBack failure] })) =
        ((.error failure, after) : Except Failure α × Work) at fails
  split at fails
  · cases fails
  · next cause middle ran =>
    cases fails
    exact never work _ middle ran

theorem mapM {f : α → Job β} {items : List α} (each : ∀ item ∈ items, Never p (f item)) :
    Never p (items.mapM f) := by
  induction items with
  | nil => exact pure []
  | cons item rest ih =>
    rw [List.mapM_cons]
    refine bind (each item List.mem_cons_self) fun _ => bind (ih fun other later => ?_) fun _ => pure _
    exact each other (List.mem_cons_of_mem item later)

theorem forIn {f : α → β → Job (ForInStep β)} {items : List α} (each : ∀ item b, Never p (f item b)) (b : β) :
    Never p (ForIn.forIn items b f) := by
  induction items generalizing b with
  | nil => exact pure b
  | cons item rest ih =>
    rw [List.forIn_cons]
    refine bind (each item b) fun step => ?_
    cases step with
    | done result => exact pure result
    | yield next => exact ih next

end Never

/-- What becomes of a job on a state: something holds of its result and the state that it leaves, something else of its
failure. -/
def ComesTo (job : Job α) (work : Work) (good : α → Work → Prop) (bad : Failure → Work → Prop) : Prop :=
  (∀ a after, job.runOn work = (.ok a, after) → good a after) ∧
    ∀ failure after, job.runOn work = (.error failure, after) → bad failure after

namespace ComesTo

variable {good : α → Work → Prop} {bad : Failure → Work → Prop}

/-- A job that gives a result. -/
theorem of_ok {job : Job α} {a : α} (ran : job.runOn work = (.ok a, after)) (holds : good a after) :
    job.ComesTo work good bad := by
  constructor <;> intro _ _ given <;> rw [ran] at given <;> cases given
  exact holds

theorem pure {a : α} (holds : good a work) : ComesTo (Pure.pure a) work good bad := of_ok rfl holds

theorem fail {failure : Failure} (holds : bad failure work) : ComesTo (Job.fail failure) work good bad := by
  constructor <;> intro _ _ given <;> cases given
  exact holds

theorem of {result : Except Failure α} (holds : ∀ a, result = .ok a → good a work)
    (fails : ∀ failure, result = .error failure → bad failure work) : ComesTo (Job.of result) work good bad := by
  constructor <;> intro _ _ given <;> cases given
  · exact holds _ rfl
  · exact fails _ rfl

/-- What becomes of a job says what becomes of a longer one. -/
theorem bind {β : Type} {job : Job α} {next : α → Job β} {good : β → Work → Prop}
    (first : job.ComesTo work (fun a middle => (next a).ComesTo middle good bad) bad) :
    (job >>= next).ComesTo work good bad := by
  constructor
  · intro b last given
    obtain ⟨a, middle, early, late⟩ := bind_eq_ok.1 given
    exact (first.1 a middle early).1 b last late
  · intro failure last given
    rcases bind_eq_error.1 given with early | ⟨a, middle, early, late⟩
    · exact first.2 failure last early
    · exact (first.1 a middle early).2 failure last late

/-- A job that is known to give a result is followed by others. -/
theorem bind_of_ok {β : Type} {job : Job α} {next : α → Job β} {a : α} {good : β → Work → Prop}
    (ran : job.runOn work = (.ok a, after)) (second : (next a).ComesTo after good bad) :
    (job >>= next).ComesTo work good bad := bind (of_ok ran second)

theorem mono {job : Job α} {better : α → Work → Prop} {worse : Failure → Work → Prop}
    (comes : job.ComesTo work good bad) (goods : ∀ a after, good a after → better a after)
    (bads : ∀ failure after, bad failure after → worse failure after) : job.ComesTo work better worse :=
  ⟨fun a after ran => goods a after (comes.1 a after ran),
    fun failure after ran => bads failure after (comes.2 failure after ran)⟩

theorem ite {condition : Prop} [Decidable condition] {first second : Job α}
    (holds : condition → first.ComesTo work good bad) (fails : ¬condition → second.ComesTo work good bad) :
    (if condition then first else second).ComesTo work good bad := by
  split
  · exact holds ‹_›
  · exact fails ‹_›

/-- What every round of a loop keeps, the loop keeps. -/
theorem forIn {β : Type} {f : β → α → Job (ForInStep α)} {items : List β} {b : α} (keeps : List β → α → Work → Prop)
    (start : keeps [] b work)
    (step : ∀ done item rest b before, items = done ++ item :: rest → keeps done b before →
      (f item b).ComesTo before (fun result after => ∃ next, result = .yield next ∧ keeps (done ++ [item]) next after) bad) :
    (ForIn.forIn items b f : Job α).ComesTo work (fun b after => keeps items b after) bad := by
  suffices all : ∀ done rest b before, items = done ++ rest → keeps done b before →
      (ForIn.forIn rest b f : Job α).ComesTo before (fun b after => keeps items b after) bad from
    all [] items b work rfl start
  intro done rest
  induction rest generalizing done with
  | nil =>
    intro b before split kept
    rw [List.append_nil] at split
    exact pure (split ▸ kept)
  | cons item rest ih =>
    intro b before split kept
    rw [List.forIn_cons]
    refine bind ((step done item rest b before split kept).mono ?_ fun _ _ => id)
    rintro result middle ⟨next, rfl, keptToo⟩
    exact ih (done ++ [item]) next middle (by simp [split]) keptToo

end ComesTo

end Job

end ResourceApi
