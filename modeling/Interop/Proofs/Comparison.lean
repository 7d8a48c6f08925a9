import Interop.Proofs.Work

/-! Two computations side by side: what they come to is the same error or related values, and steps
that do so make runs that do so. -/
namespace Interop

variable {σ α β : Type}

inductive Matches (relation : α → β → Prop) : Except GenerationError α → Except GenerationError β → Prop where
  | ok {value : α} {other : β} : relation value other → Matches relation (.ok value) (.ok other)
  | error (error : GenerationError) : Matches relation (.error error) (.error error)

namespace Work

theorem lift_ok_bind (value : α) (next : α → Work σ β) :
    (liftM (Except.ok value : Except GenerationError α) : Work σ α) >>= next = next value := rfl

theorem lift_error_bind (error : GenerationError) (next : α → Work σ β) :
    (liftM (Except.error error : Except GenerationError α) : Work σ α) >>= next = throw error := rfl

theorem mapM_congr {f g : α → Work σ β} {items : List α} (agree : ∀ item ∈ items, f item = g item) :
    items.mapM f = items.mapM g := by
  induction items with
  | nil => rfl
  | cons item items ih =>
    rw [List.mapM_cons, List.mapM_cons, agree item List.mem_cons_self,
      ih fun other later => agree other (List.mem_cons_of_mem _ later)]

theorem forM_congr {f g : α → Work σ Unit} {items : List α} (agree : ∀ item ∈ items, f item = g item) :
    items.forM f = items.forM g := by
  induction items with
  | nil => rfl
  | cons item items ih =>
    simp only [List.forM_eq_forM, List.forM_cons] at ih ⊢
    rw [agree item List.mem_cons_self, ih fun other later => agree other (List.mem_cons_of_mem _ later)]

/-- From related states, two pieces of work come to the same and leave related states. -/
def Parallel (relation : σ → σ → Prop) (work work' : Work σ α) : Prop :=
  ∀ state state', relation state state' →
    (outcome work' state').1 = (outcome work state).1 ∧
      relation (outcome work state).2 (outcome work' state').2

section

variable {relation : σ → σ → Prop}

theorem Parallel.pure (value : α) : Parallel relation (Pure.pure value) (Pure.pure value) :=
  fun _ _ related => ⟨rfl, related⟩

theorem Parallel.bind {work work' : Work σ α} {next next' : α → Work σ β}
    (first : Parallel relation work work') (rest : ∀ value, Parallel relation (next value) (next' value)) :
    Parallel relation (work >>= next) (work' >>= next') := by
  intro state state' related
  have step := first state state' related
  rw [outcome_bind, outcome_bind]
  revert step
  rcases outcome work state with ⟨result, middle⟩
  rcases outcome work' state' with ⟨result', middle'⟩
  rintro ⟨rfl, held⟩
  cases result' with
  | error error => exact ⟨rfl, held⟩
  | ok value => exact rest value middle middle' held

theorem Parallel.foldlM {step step' : β → α → Work σ β} {items : List α}
    (each : ∀ value, ∀ item ∈ items, Parallel relation (step value item) (step' value item)) (value : β) :
    Parallel relation (items.foldlM step value) (items.foldlM step' value) := by
  induction items generalizing value with
  | nil => exact Parallel.pure value
  | cons item items ih =>
    rw [List.foldlM_cons, List.foldlM_cons]
    exact (each value item List.mem_cons_self).bind
      (ih fun value other later => each value other (List.mem_cons_of_mem _ later))

theorem Parallel.forM {step step' : α → Work σ Unit} {items : List α}
    (each : ∀ item ∈ items, Parallel relation (step item) (step' item)) :
    Parallel relation (items.forM step) (items.forM step') := by
  induction items with
  | nil => exact Parallel.pure PUnit.unit
  | cons item items ih =>
    simp only [List.forM_eq_forM, List.forM_cons]
    exact (each item List.mem_cons_self).bind
      fun _ => ih fun other later => each other (List.mem_cons_of_mem _ later)

end

end Work

end Interop
