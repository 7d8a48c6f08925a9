import Interop.Proofs.Work

/-! Work that fails. A contract says of both endings how the state they leave is related to the one they
began in; steps in sequence meet a contract if each of them does. -/
namespace Interop.Work

variable {σ α β : Type}

def Fails (work : Work σ α) (before : σ) (error : GenerationError) (after : σ) : Prop :=
  outcome work before = (.error error, after)

@[simp] theorem fails_pure {value : α} {before after : σ} {error : GenerationError} :
    ¬ Fails (pure value) before error after := by
  simp [Fails]

@[simp] theorem fails_throw {error other : GenerationError} {before after : σ} :
    Fails (throw error : Work σ α) before other after ↔ error = other ∧ before = after := by
  simp [Fails]

@[simp] theorem fails_lift {result : Except GenerationError α} {before after : σ} {error : GenerationError} :
    Fails (liftM result) before error after ↔ result = .error error ∧ before = after := by
  simp [Fails]

theorem fails_bind {work : Work σ α} {next : α → Work σ β} {before after : σ} {error : GenerationError} :
    Fails (work >>= next) before error after ↔ Fails work before error after ∨
      ∃ first middle, Gives work before first middle ∧ Fails (next first) middle error after := by
  simp only [Fails, Gives, outcome_bind]
  rcases outcome work before with ⟨failed | first, middle⟩
  · simp
  · constructor
    · intro rest
      exact .inr ⟨first, middle, rfl, rest⟩
    · rintro (failed | ⟨_, _, same, rest⟩)
      · cases failed
      · cases same
        exact rest

theorem Keeps.of_fails {relation : σ → σ → Prop} {work : Work σ α} (keeps : Keeps relation work)
    {before after : σ} {error : GenerationError} (failed : Fails work before error after) : relation before after := by
  have kept := keeps before
  rwa [failed] at kept

/-- How the states before and after work are related, if it succeeds and if it ends with an error. -/
structure Contract (σ : Type) where
  kept : σ → σ → Prop
  broken : GenerationError → σ → σ → Prop
  refl : ∀ state, kept state state
  trans : ∀ {first second third}, kept first second → kept second third → kept first third
  later : ∀ {error first second third}, kept first second → broken error second third →
    broken error first third

def Only (allowed : GenerationError → Prop) (result : Except GenerationError α) : Prop :=
  ∀ error, result = .error error → allowed error

namespace Only

variable {allowed : GenerationError → Prop}

theorem ok (value : α) : Only allowed (.ok value) := nofun

theorem error {error : GenerationError} (holds : allowed error) :
    Only allowed (.error error : Except GenerationError α) := by
  rintro _ ⟨⟩
  exact holds

theorem bind {result : Except GenerationError α} {next : α → Except GenerationError β}
    (first : Only allowed result) (rest : ∀ value, Only allowed (next value)) :
    Only allowed (result >>= next) := by
  cases result with
  | error failed => exact error (first failed rfl)
  | ok value => exact rest value

theorem foldlM {step : β → α → Except GenerationError β} (each : ∀ value item, Only allowed (step value item))
    (items : List α) (value : β) : Only allowed (items.foldlM step value) := by
  induction items generalizing value with
  | nil => exact ok value
  | cons item items ih =>
    rw [List.foldlM_cons]
    exact (each value item).bind ih

end Only

def Contract.errors (σ : Type) (allowed : GenerationError → Prop) : Contract σ where
  kept _ _ := True
  broken error _ _ := allowed error
  refl _ := trivial
  trans _ _ := trivial
  later _ := id

structure Meets (contract : Contract σ) (work : Work σ α) : Prop where
  gives : ∀ {before value after}, Gives work before value after → contract.kept before after
  fails : ∀ {before error after}, Fails work before error after → contract.broken error before after

namespace Meets

variable {contract : Contract σ}

theorem pure (value : α) : Meets contract (Pure.pure value : Work σ α) where
  gives given := (gives_pure.mp given).2 ▸ contract.refl _
  fails failed := absurd failed fails_pure

theorem get : Meets contract (MonadState.get : Work σ σ) where
  gives given := (gives_get.mp given).2 ▸ contract.refl _
  fails failed := by cases failed

theorem set {state : σ} (kept : ∀ before, contract.kept before state) :
    Meets contract (MonadStateOf.set state : Work σ PUnit) where
  gives given := gives_set.mp given ▸ kept _
  fails failed := by cases failed

theorem throw {error : GenerationError} (allowed : ∀ state, contract.broken error state state) :
    Meets contract (MonadExcept.throw error : Work σ α) where
  gives given := absurd given gives_throw
  fails failed := by
    obtain ⟨rfl, rfl⟩ := fails_throw.mp failed
    exact allowed _

theorem lift {result : Except GenerationError α}
    (allowed : ∀ error state, result = .error error → contract.broken error state state) :
    Meets contract (liftM result : Work σ α) where
  gives given := (gives_lift.mp given).2 ▸ contract.refl _
  fails failed := by
    obtain ⟨found, rfl⟩ := fails_lift.mp failed
    exact allowed _ _ found

theorem bind {work : Work σ α} {next : α → Work σ β} (first : Meets contract work)
    (rest : ∀ value, Meets contract (next value)) : Meets contract (work >>= next) where
  gives given := by
    obtain ⟨value, middle, begun, done⟩ := gives_bind.mp given
    exact contract.trans (first.gives begun) ((rest value).gives done)
  fails failed := by
    rcases fails_bind.mp failed with early | ⟨value, middle, begun, late⟩
    · exact first.fails early
    · exact contract.later (first.gives begun) ((rest value).fails late)

theorem map {work : Work σ α} (f : α → β) (meets : Meets contract work) :
    Meets contract (do return f (← work)) :=
  meets.bind fun value => pure (f value)

theorem mapM {step : α → Work σ β} (meets : ∀ item, Meets contract (step item)) (items : List α) :
    Meets contract (items.mapM step) := by
  induction items with
  | nil => exact pure []
  | cons item items ih =>
    rw [List.mapM_cons]
    exact (meets item).bind fun value => ih.map (value :: ·)

theorem forM {step : α → Work σ Unit} (meets : ∀ item, Meets contract (step item)) (items : List α) :
    Meets contract (items.forM step) := by
  induction items with
  | nil => exact pure PUnit.unit
  | cons item items ih =>
    rw [List.forM_eq_forM, List.forM_cons]
    exact (meets item).bind fun _ => ih

theorem foldlM {step : β → α → Work σ β} {items : List α}
    (meets : ∀ value, ∀ item ∈ items, Meets contract (step value item)) (value : β) :
    Meets contract (items.foldlM step value) := by
  induction items generalizing value with
  | nil => exact pure value
  | cons item items ih =>
    rw [List.foldlM_cons]
    exact (meets value item List.mem_cons_self).bind
      fun value => ih (fun value other member => meets value other (List.mem_cons_of_mem _ member)) value

end Meets

end Interop.Work
