import Interop.Proofs.Work
import Interop.Session.Library

/-! Resolution read without a session. What a type resolves to, and which declarations it
asks for on the way, follows from the setting alone; a session only replays the reading,
whatever it has registered before. -/
namespace Interop

inductive Action where
  | report (event : Event)
  | enter (name : String)

/-- What there is to do, in order, and the value or the error that it ends with. -/
structure Reading (α : Type) where
  actions : List Action
  result : Except GenerationError α

namespace Reading

variable {α β : Type}

instance : Monad Reading where
  pure value := ⟨[], .ok value⟩
  bind reading next :=
    match reading.result with
    | .ok value => ⟨reading.actions ++ (next value).actions, (next value).result⟩
    | .error error => ⟨reading.actions, .error error⟩

instance : LawfulMonad Reading := LawfulMonad.mk' Reading
  (fun ⟨actions, result⟩ => by cases result <;> simp [Functor.map])
  (fun value next => by simp [bind, pure])
  (fun ⟨actions, result⟩ next last => by
    cases result with
    | error error => rfl
    | ok value =>
      simp only [bind]
      cases (next value).result <;> simp)

def fail (error : GenerationError) : Reading α := ⟨[], .error error⟩

def note (event : Event) : Reading Unit := ⟨[.report event], .ok ⟨⟩⟩

def enter (name : String) : Reading Registration := ⟨[.enter name], .ok (.alreadyEmitted name)⟩

/-- The effects of resolution that are only written down. -/
def effects (setting : Setting) : Session.Effects Reading :=
  ⟨fail, note, Session.enterBy setting fail enter⟩

end Reading

namespace Action

def perform (emit : String → Work Progress Registration) : Action → Work Progress Unit
  | .report event => Session.note event
  | .enter name => do
    let _ ← emit name

def entered? : Action → Option String
  | .report _ => none
  | .enter name => some name

end Action

namespace Reading

variable {α β : Type}

def entered (reading : Reading α) : List String := reading.actions.filterMap Action.entered?

/-- Does in a session what a reading says. -/
def replay (emit : String → Work Progress Registration) (reading : Reading α) : Work Progress α := do
  reading.actions.forM (Action.perform emit)
  reading.result

section

variable (emit : String → Work Progress Registration)

theorem replay_cons (action : Action) (actions : List Action) (result : Except GenerationError α) :
    replay emit ⟨action :: actions, result⟩ = (do
      action.perform emit
      replay emit ⟨actions, result⟩) := by
  simp only [replay, List.forM_eq_forM, List.forM_cons, bind_assoc]

theorem bind_ok (actions : List Action) (value : α) (next : α → Reading β) :
    (⟨actions, .ok value⟩ : Reading α) >>= next =
      ⟨actions ++ (next value).actions, (next value).result⟩ := rfl

theorem bind_error (actions : List Action) (error : GenerationError) (next : α → Reading β) :
    (⟨actions, .error error⟩ : Reading α) >>= next = ⟨actions, .error error⟩ := rfl

@[simp] theorem replay_bind (reading : Reading α) (next : α → Reading β) :
    replay emit (reading >>= next) = (do replay emit (next (← replay emit reading))) := by
  obtain ⟨actions, result⟩ := reading
  cases result with
  | error error =>
    simp only [bind_error, replay, bind_assoc]
    rfl
  | ok value =>
    simp only [bind_ok, replay, List.forM_eq_forM, List.forM_append, bind_assoc]
    rfl

@[simp] theorem replay_map (f : α → β) (reading : Reading α) :
    replay emit (f <$> reading) = f <$> replay emit reading := by
  rw [← bind_pure_comp, ← bind_pure_comp, replay_bind]
  rfl

theorem replay_mapM {γ : Type} (items : List γ) (f : γ → Reading α) :
    replay emit (items.mapM f) = items.mapM fun item => replay emit (f item) := by
  induction items with
  | nil => rfl
  | cons item items ih => simp [ih]

theorem replay_enter (name : String) :
    replay emit (enter name) = (do
      let _ ← emit name
      return .alreadyEmitted name) := by
  simp only [replay, enter, List.forM_eq_forM, List.forM_cons, List.forM_nil, Action.perform,
    bind_assoc, pure_bind]
  rfl

end

/-- Whatever `emit` says of a known name, generated code uses that name. -/
def Faithful (emit : String → Work Progress Registration) : Prop :=
  ∀ name, Registration.name <$> emit name = (do
    let _ ← emit name
    return name)

section

open Session

variable {emit : String → Work Progress Registration} (faithful : Faithful emit)
  (setting : Setting)

include faithful

theorem replay_effects_enter (name : String) :
    replay emit ((effects setting).enter name) = (effectsBy setting emit).enter name := by
  simp only [effects, effectsBy, enterBy, registerBy, bind_pure_comp, replay_map]
  split
  · simp only [replay_enter, faithful name, map_bind, map_pure]
    rfl
  · split
    · simp only [replay_map, replay_enter]
      simp
    · rfl

omit faithful in
theorem replay_primitive (kind : Primitive) :
    replay emit (primitive setting (effects setting) kind) =
      primitive setting (effectsBy setting emit) kind := by
  unfold primitive
  split <;> rfl

omit faithful in
theorem replay_noteUnwrapped (name : String) :
    replay emit (noteUnwrapped setting (effects setting) name) =
      noteUnwrapped setting (effectsBy setting emit) name := by
  unfold noteUnwrapped
  split <;> rfl

theorem replay_resolveTag (reference : TagReference) :
    replay emit (resolveTag setting (effects setting) reference) =
      resolveTag setting (effectsBy setting emit) reference := by
  unfold resolveTag
  split
  · next name _ =>
    simp only [bind_pure_comp, replay_map]
    exact congrArg _ (replay_effects_enter faithful setting name)
  · rfl

omit faithful in
mutual

theorem replay_resolveType (faithful : Faithful emit) {unwrap : String → Reading Target}
    {unwrap' : String → Work Progress Target} (same : ∀ name, replay emit (unwrap name) = unwrap' name) :
    (type : CType) →
    replay emit (resolveType setting (effects setting) unwrap type) =
      resolveType setting (effectsBy setting emit) unwrap' type
  | .builtin kind => replay_primitive setting kind
  | .pointer pointee => by
    simp only [resolveType, bind_pure_comp, replay_map, replay_resolveType faithful same pointee]
  | .tag reference => replay_resolveTag faithful setting reference
  | .typedef name => same name
  | .function parameters result => by
    simp only [resolveType, bind_pure_comp, replay_bind, replay_map,
      replay_resolveTypes faithful same parameters, replay_resolveType faithful same result]
  | .array element _ => by
    simp only [resolveType, bind_pure_comp, replay_map, replay_resolveType faithful same element]

theorem replay_resolveTypes (faithful : Faithful emit) {unwrap : String → Reading Target}
    {unwrap' : String → Work Progress Target} (same : ∀ name, replay emit (unwrap name) = unwrap' name) :
    (types : List CType) →
    replay emit (resolveTypes setting (effects setting) unwrap types) =
      resolveTypes setting (effectsBy setting emit) unwrap' types
  | [] => rfl
  | type :: types => by
    simp only [resolveTypes, bind_pure_comp, replay_bind, replay_map,
      replay_resolveType faithful same type, replay_resolveTypes faithful same types]

end

theorem replay_resolveTypedef (room : Nat) (name : String) :
    replay emit (resolveTypedef setting (effects setting) room name) =
      resolveTypedef setting (effectsBy setting emit) room name := by
  by_cases strategy : setting.configuration.typedefStrategies.lookup name = some .namedEnum
  · rw [resolveTypedef_named _ _ room strategy, resolveTypedef_named _ _ room strategy]
    exact replay_resolveTag faithful setting _
  cases known : setting.context.typedef? name with
  | none =>
    rw [resolveTypedef_unknown _ _ strategy room known, resolveTypedef_unknown _ _ strategy room known]
    rfl
  | some typedef =>
    cases room with
    | zero =>
      rw [resolveTypedef_zero _ _ strategy known, resolveTypedef_zero _ _ strategy known]
      rfl
    | succ room =>
      have underlying := replay_resolveType setting faithful (replay_resolveTypedef room)
        typedef.underlying
      rw [resolveTypedef_succ _ _ strategy room known, resolveTypedef_succ _ _ strategy room known,
        replay_bind, underlying, replay_noteUnwrapped]

theorem replay_resolveWith (type : CType) :
    replay emit (resolveWith setting (effects setting) type) =
      resolveWith setting (effectsBy setting emit) type :=
  replay_resolveType setting faithful (replay_resolveTypedef faithful setting typedefLimit) type

theorem replay_resolveMemberWith (name : String) (type : CType) :
    replay emit (resolveMemberWith setting (effects setting) name type) =
      resolveMemberWith setting (effectsBy setting emit) name type := by
  unfold resolveMemberWith
  split
  · exact replay_resolveWith faithful setting type
  · split
    · exact replay_resolveTag faithful setting _
    · rfl

theorem replay_resolveMembersWith (rename : String → Nat → String) (declared : List Member) :
    replay emit (resolveMembersWith setting (effects setting) rename declared) =
      resolveMembersWith setting (effectsBy setting emit) rename declared := by
  simp only [resolveMembersWith, bind_pure_comp, replay_mapM, replay_map,
    replay_resolveMemberWith faithful]

theorem replay_declare (name : String) (declaration : TagDeclaration) :
    replay emit (declare setting (effects setting) name declaration) =
      declare setting (effectsBy setting emit) name declaration := by
  cases declaration with
  | struct struct =>
    simp only [declare, bind_pure_comp, replay_map, replay_resolveMembersWith faithful]
  | enumeration enumeration =>
    simp only [declare, bind_pure_comp, replay_map, replay_primitive]

theorem replay_signatureWith (function : Function) :
    replay emit (signatureWith setting (effects setting) function) =
      signatureWith setting (effectsBy setting emit) function := by
  simp only [signatureWith, bind_pure_comp, replay_bind, replay_map,
    replay_resolveMembersWith faithful, replay_resolveWith faithful]

end

def Yields (reading : Reading α) (value : α) (names : List String) : Prop :=
  reading.result = .ok value ∧ reading.entered = names

@[simp] theorem yields_pure {value result : α} {names : List String} :
    Yields (pure value) result names ↔ value = result ∧ names = [] := by
  simp [Yields, pure, entered, eq_comm]

@[simp] theorem yields_fail {error : GenerationError} {value : α} {names : List String} :
    ¬ Yields (fail error) value names := by
  simp [Yields, fail]

@[simp] theorem yields_note {event : Event} {names : List String} :
    Yields (note event) ⟨⟩ names ↔ names = [] := by
  simp only [Yields, note, entered, List.filterMap_cons, Action.entered?, List.filterMap_nil, true_and]
  exact eq_comm

@[simp] theorem yields_enter {name : String} {registration : Registration} {names : List String} :
    Yields (enter name) registration names ↔ .alreadyEmitted name = registration ∧ names = [name] := by
  simp [Yields, enter, entered, Action.entered?, eq_comm]

theorem yields_bind {reading : Reading α} {next : α → Reading β} {value : β} {names : List String} :
    Yields (reading >>= next) value names ↔
      ∃ first early late, Yields reading first early ∧ Yields (next first) value late ∧
        names = early ++ late := by
  obtain ⟨actions, result⟩ := reading
  cases result with
  | error error => simp [Yields, bind_error]
  | ok first =>
    simp only [Yields, bind_ok, entered, List.filterMap_append]
    constructor
    · rintro ⟨result, rfl⟩
      exact ⟨first, _, _, ⟨rfl, rfl⟩, ⟨result, rfl⟩, rfl⟩
    · rintro ⟨_, _, _, ⟨same, rfl⟩, ⟨result, rfl⟩, rfl⟩
      obtain rfl := Except.ok.inj same
      exact ⟨result, rfl⟩

theorem yields_map {reading : Reading α} {f : α → β} {value : β} {names : List String} :
    Yields (f <$> reading) value names ↔ ∃ first, Yields reading first names ∧ f first = value := by
  simp only [← bind_pure_comp, yields_bind, yields_pure]
  constructor
  · rintro ⟨first, early, late, yields, ⟨same, rfl⟩, rfl⟩
    exact ⟨first, by simpa using yields, same⟩
  · rintro ⟨first, yields, same⟩
    exact ⟨first, names, [], yields, ⟨same, rfl⟩, by simp⟩

end Reading

end Interop
