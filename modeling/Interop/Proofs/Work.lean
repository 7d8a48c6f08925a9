import Interop.Generation.Error

/-! Outcomes of work. What work gives and leaves is computed along the way it is built, and
`Gives` singles out success: its lemmas take a successful run apart, step by step. -/
namespace Interop.Work

variable {σ α β : Type}

def outcome (work : Work σ α) (state : σ) : Except GenerationError α × σ := work.run.run state

/-- Work succeeds in a state with a value and leaves another state. -/
def Gives (work : Work σ α) (before : σ) (value : α) (after : σ) : Prop :=
  outcome work before = (.ok value, after)

@[simp] theorem outcome_pure (value : α) (state : σ) :
    outcome (pure value) state = (.ok value, state) := rfl

@[simp] theorem outcome_throw (error : GenerationError) (state : σ) :
    outcome (throw error : Work σ α) state = (.error error, state) := rfl

@[simp] theorem outcome_get (state : σ) : outcome get state = (.ok state, state) := rfl

@[simp] theorem outcome_set (state other : σ) : outcome (set other) state = (.ok ⟨⟩, other) := rfl

@[simp] theorem outcome_modify (change : σ → σ) (state : σ) :
    outcome (modify change) state = (.ok ⟨⟩, change state) := rfl

@[simp] theorem outcome_lift (result : Except GenerationError α) (state : σ) :
    outcome (liftM result) state = (result, state) := rfl

theorem outcome_bind (work : Work σ α) (next : α → Work σ β) (state : σ) :
    outcome (work >>= next) state =
      match outcome work state with
      | (.ok value, middle) => outcome (next value) middle
      | (.error error, middle) => (.error error, middle) := by
  simp only [outcome, ExceptT.run_bind, StateT.run_bind]
  rcases (work.run.run state : Except GenerationError α × σ) with ⟨result | result, middle⟩ <;> rfl

theorem ext {work other : Work σ α} (same : ∀ state, outcome work state = outcome other state) :
    work = other := funext same

@[simp] theorem gives_pure {value result : α} {before after : σ} :
    Gives (pure value) before result after ↔ value = result ∧ before = after := by
  simp [Gives]

@[simp] theorem gives_throw {error : GenerationError} {before after : σ} {value : α} :
    ¬ Gives (throw error) before value after := by
  simp [Gives]

@[simp] theorem gives_get {before value after : σ} :
    Gives get before value after ↔ before = value ∧ before = after := by
  simp [Gives]

@[simp] theorem gives_set {before other after : σ} :
    Gives (set other) before ⟨⟩ after ↔ other = after := by
  simp [Gives]

@[simp] theorem gives_lift {result : Except GenerationError α} {before after : σ} {value : α} :
    Gives (liftM result) before value after ↔ result = .ok value ∧ before = after := by
  simp [Gives]

theorem gives_bind {work : Work σ α} {next : α → Work σ β} {before after : σ} {value : β} :
    Gives (work >>= next) before value after ↔
      ∃ first middle, Gives work before first middle ∧ Gives (next first) middle value after := by
  simp only [Gives, outcome_bind]
  rcases outcome work before with ⟨error | first, middle⟩
  · simp
  · constructor
    · intro rest
      exact ⟨first, middle, rfl, rest⟩
    · rintro ⟨_, _, ⟨rfl, rfl⟩, rest⟩
      exact rest

/-- Steps that agree from a state make work that agrees from it. -/
theorem outcome_bind_congr {work work' : Work σ α} {next next' : α → Work σ β} {state : σ}
    (first : outcome work state = outcome work' state)
    (rest : ∀ value middle, Gives work' state value middle →
      outcome (next value) middle = outcome (next' value) middle) :
    outcome (work >>= next) state = outcome (work' >>= next') state := by
  rw [outcome_bind, outcome_bind, first]
  rcases run : outcome work' state with ⟨error | value, middle⟩
  · rfl
  · exact rest value middle run

/-- So do steps for the items of a list, where each agrees after those before it. -/
theorem outcome_mapM_congr {f g : α → Work σ β} {items : List α} {state : σ}
    (agree : ∀ early item late values middle, items = early ++ item :: late →
      Gives (early.mapM g) state values middle → outcome (f item) middle = outcome (g item) middle) :
    outcome (items.mapM f) state = outcome (items.mapM g) state := by
  induction items generalizing state with
  | nil => rfl
  | cons item items ih =>
    rw [List.mapM_cons, List.mapM_cons]
    refine outcome_bind_congr (agree [] item items [] state rfl rfl) fun value middle first => ?_
    refine outcome_bind_congr (ih ?_) fun _ _ _ => rfl
    rintro early other late values after rfl rest
    refine agree (item :: early) other late (value :: values) after rfl ?_
    rw [List.mapM_cons]
    exact gives_bind.mpr ⟨value, middle, first, gives_bind.mpr ⟨values, after, rest, gives_pure.mpr ⟨rfl, rfl⟩⟩⟩

/-- A relation between states that work keeps, whether it succeeds or not. -/
def Keeps (relation : σ → σ → Prop) (work : Work σ α) : Prop :=
  ∀ state, relation state (outcome work state).2

theorem Keeps.of_gives {relation : σ → σ → Prop} {work : Work σ α} (keeps : Keeps relation work)
    {before after : σ} {value : α} (gives : Gives work before value after) : relation before after := by
  have kept := keeps before
  rwa [gives] at kept

/-- A relation that steps in sequence keep if each of them does. -/
structure Frame (relation : σ → σ → Prop) : Prop where
  refl : ∀ state, relation state state
  trans : ∀ {first second third}, relation first second → relation second third → relation first third

namespace Frame

variable {relation : σ → σ → Prop} (frame : Frame relation)

include frame

theorem pure (value : α) : Keeps relation (Pure.pure value) := frame.refl

theorem throw (error : GenerationError) : Keeps relation (MonadExcept.throw error : Work σ α) := frame.refl

theorem bind {work : Work σ α} {next : α → Work σ β} (first : Keeps relation work)
    (second : ∀ value, Keeps relation (next value)) : Keeps relation (work >>= next) := by
  intro state
  have before := first state
  rw [outcome_bind]
  revert before
  rcases outcome work state with ⟨error | value, middle⟩ <;> intro before
  · exact before
  · exact frame.trans before (second value middle)

theorem map {work : Work σ α} (f : α → β) (keeps : Keeps relation work) :
    Keeps relation (do return f (← work)) :=
  frame.bind keeps fun value => frame.pure (f value)

theorem mapM {step : α → Work σ β} (keeps : ∀ item, Keeps relation (step item)) (items : List α) :
    Keeps relation (items.mapM step) := by
  induction items with
  | nil => exact frame.refl
  | cons item items ih =>
    rw [List.mapM_cons]
    exact frame.bind (keeps item) fun value => frame.map (value :: ·) ih

theorem forM {step : α → Work σ Unit} {items : List α} (keeps : ∀ item ∈ items, Keeps relation (step item)) :
    Keeps relation (items.forM step) := by
  induction items with
  | nil => exact frame.refl
  | cons item items ih =>
    rw [List.forM_eq_forM, List.forM_cons]
    exact frame.bind (keeps item List.mem_cons_self)
      fun _ => ih fun other member => keeps other (List.mem_cons_of_mem _ member)

theorem foldlM {step : β → α → Work σ β} {items : List α}
    (keeps : ∀ value, ∀ item ∈ items, Keeps relation (step value item)) (value : β) :
    Keeps relation (items.foldlM step value) := by
  induction items generalizing value with
  | nil => exact frame.refl
  | cons item items ih =>
    rw [List.foldlM_cons]
    exact frame.bind (keeps value item List.mem_cons_self)
      (ih fun value other member => keeps value other (List.mem_cons_of_mem _ member))

end Frame

end Interop.Work
