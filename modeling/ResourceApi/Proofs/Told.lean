import ResourceApi.Http.Service
import ResourceApi.Proofs.Outcome

/-!
Failures that clients are told about. A computation in steps gives a good result or fails in such a way if each of its
steps does; everything else is left to the server.
-/

namespace ResourceApi

variable {α β : Type}

/-- Whether clients are told about a failure. -/
def Failure.IsTold (failure : Failure) : Prop := (HttpResponse.ofFailure? failure).isSome

/-- What is wrong with the values themselves, or with the declarations, is not for clients. -/
theorem Failure.isTold_iff {failure : Failure} : failure.IsTold ↔
    (∀ kind, failure ≠ .fault kind) ∧ (∀ errors, failure ≠ .unreadable errors) ∧
      ∀ issues, failure ≠ .misconfigured issues := by
  cases failure <;> simp [IsTold, HttpResponse.ofFailure?]

namespace Outcome

/-- A result that is good, or a failure that clients are told about. -/
def Delivers (good : α → Prop) : Except Failure α → Prop
  | .ok a => good a
  | .error failure => failure.IsTold

/-- A result of any sort, or a failure that clients are told about. -/
abbrev Tells (result : Except Failure α) : Prop := Delivers (fun _ => True) result

namespace Delivers

variable {good better : α → Prop} {goodToo : β → Prop} {result : Except Failure α}

theorem of_eq_ok {a : α} (success : result = .ok a) (holds : good a) : Delivers good result := success ▸ holds

theorem holds (delivers : Delivers good result) {a : α} (success : result = .ok a) : good a := by
  subst success
  exact delivers

theorem isTold (delivers : Delivers good result) {failure : Failure} (fails : result = .error failure) :
    failure.IsTold := by
  subst fails
  exact delivers

theorem mono (delivers : Delivers good result) (goods : ∀ a, result = .ok a → good a → better a) :
    Delivers better result := by
  cases result with
  | error failure => exact delivers
  | ok a => exact goods a rfl delivers

theorem bind {next : α → Except Failure β} (first : Delivers good result)
    (second : ∀ a, result = .ok a → good a → Delivers goodToo (next a)) : Delivers goodToo (result >>= next) := by
  cases result with
  | error failure => exact first
  | ok a => exact second a rfl first

theorem map {f : α → β} (first : Delivers good result) (goods : ∀ a, good a → goodToo (f a)) :
    Delivers goodToo (result.map f) := by
  cases result with
  | error failure => exact first
  | ok a => exact goods a first

theorem mapM {f : α → Except Failure β} {items : List α} (each : ∀ item ∈ items, Delivers goodToo (f item)) :
    Delivers (fun results => ∀ result ∈ results, goodToo result) (items.mapM f) := by
  induction items with
  | nil => exact List.forall_mem_nil goodToo
  | cons item rest ih =>
    rw [List.mapM_cons]
    refine (each item List.mem_cons_self).bind fun first _ here => ?_
    refine (ih fun other later => each other (List.mem_cons_of_mem item later)).bind fun others _ later => ?_
    exact List.forall_mem_cons.2 ⟨here, later⟩

theorem each {f : α → Except Failure β} {items : List α} (each : ∀ item ∈ items, Tells (f item)) :
    Tells (items.mapM f) := (mapM each).mono fun _ _ _ => trivial

/-- What every step of a fold keeps, the fold keeps. -/
theorem foldlM {f : β → α → Except Failure β} {items : List α} {first : β} (start : goodToo first)
    (step : ∀ item ∈ items, ∀ before, goodToo before → Delivers goodToo (f before item)) :
    Delivers goodToo (items.foldlM f first) := by
  induction items generalizing first with
  | nil => exact start
  | cons item rest ih =>
    rw [List.foldlM_cons]
    refine (step item List.mem_cons_self first start).bind fun middle _ kept => ih kept ?_
    exact fun other later => step other (List.mem_cons_of_mem item later)

theorem forIn {f : α → β → Except Failure (ForInStep β)} {items : List α}
    (each : ∀ item ∈ items, ∀ b, Tells (f item b)) (b : β) : Tells (ForIn.forIn items b f) := by
  induction items generalizing b with
  | nil => trivial
  | cons item rest ih =>
    rw [List.forIn_cons]
    refine (each item List.mem_cons_self b).bind fun step _ _ => ?_
    cases step with
    | done result => trivial
    | yield next => exact ih (fun other later => each other (List.mem_cons_of_mem item later)) next

theorem filterM {f : α → Except Failure Bool} {items : List α} (each : ∀ item ∈ items, Tells (f item)) :
    Tells (items.filterM f) := by
  have loop (items found : List α) (each : ∀ item ∈ items, Tells (f item)) : Tells (items.filterAuxM f found) := by
    induction items generalizing found with
    | nil => exact trivial
    | cons item rest ih =>
      refine (each item List.mem_cons_self).bind fun keeps _ _ => ih _ ?_
      exact fun other later => each other (List.mem_cons_of_mem item later)
  exact (loop items [] each).bind fun _ _ _ => trivial

end Delivers

end Outcome

namespace Job.ComesTo

variable {work : Work} {good : α → Prop}

/-- What becomes of a job that only passes a result on. -/
theorem of_delivers {result : Except Failure α} (delivers : Outcome.Delivers good result) :
    (Job.of result).ComesTo work (fun a after => after = work ∧ good a) fun failure _ => failure.IsTold :=
  of (fun _ success => ⟨rfl, delivers.holds success⟩) fun _ fails => delivers.isTold fails

/-- What becomes of a job that only looks whether a result is a failure. -/
theorem discard {result : Except Failure α} (tells : Outcome.Tells result) :
    (discard (Job.of result) : Job PUnit).ComesTo work (fun _ after => after = work) fun failure _ => failure.IsTold := by
  cases result with
  | ok a => exact of_ok rfl rfl
  | error failure => exact fail tells

/-- Jobs done one after the other, each on a state that all of them keep to. -/
theorem mapM {f : β → Job α} {items : List β} {keeps : Work → Prop} {bad : Failure → Work → Prop} (start : keeps work)
    (each : ∀ item ∈ items, ∀ before, keeps before →
      (f item).ComesTo before (fun a after => keeps after ∧ good a) bad) :
    (items.mapM f).ComesTo work (fun results after => keeps after ∧ ∀ result ∈ results, good result) bad := by
  induction items generalizing work with
  | nil => exact pure ⟨start, List.forall_mem_nil good⟩
  | cons item rest ih =>
    rw [List.mapM_cons]
    refine bind ((each item List.mem_cons_self work start).mono ?_ fun _ _ => id)
    rintro first middle ⟨kept, here⟩
    refine bind ((ih kept fun other later => each other (List.mem_cons_of_mem item later)).mono ?_ fun _ _ => id)
    rintro others after ⟨keptToo, later⟩
    exact pure ⟨keptToo, List.forall_mem_cons.2 ⟨here, later⟩⟩

end Job.ComesTo

end ResourceApi
