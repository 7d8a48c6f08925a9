import Interop.Proofs.Session.Reading

/-! Emission without a bound. Registration only grows and each nested emission finds one known
name less to register, so the number of known names is bound enough: `emit` satisfies the
equation of the unbounded recursion, and everything it does is a replay of a reading. -/
namespace Interop.Session

open Work

/-- What the artifact of a known declaration declares, read without a session. -/
def plan (setting : Setting) (name : String) (declaration : TagDeclaration) : Reading Declaration :=
  declare setting (Reading.effects setting) name declaration

def unregistered (context : Context) (progress : Progress) : Nat :=
  (context.knownNames.filter (· ∉ progress.registered)).length

theorem unregistered_le (context : Context) (progress : Progress) :
    unregistered context progress ≤ context.tags.length := by
  have filtered := List.length_filter_le (· ∉ progress.registered) context.knownNames
  rwa [Context.knownNames, List.length_map] at filtered

def Extends (before after : Progress) : Prop := before.registered ⊆ after.registered

theorem Extends.refl (progress : Progress) : Extends progress progress := List.Subset.refl _

theorem Extends.trans {first second third : Progress} (early : Extends first second)
    (late : Extends second third) : Extends first third := List.Subset.trans early late

theorem extends_mark (progress : Progress) (name : String) : Extends progress (progress.mark name) :=
  List.subset_cons_self _ _

theorem frame_extends : Frame Extends := ⟨Extends.refl, Extends.trans⟩

theorem extends_note (event : Event) : Keeps Extends (note event) := fun _ => List.Subset.refl _

theorem unregistered_anti (context : Context) {before after : Progress}
    (more : Extends before after) : unregistered context after ≤ unregistered context before := by
  simp only [unregistered, ← List.countP_eq_length_filter]
  apply List.countP_mono_left
  intro name _ missing
  simp only [decide_eq_true_eq] at missing ⊢
  exact fun present => missing (more present)

theorem unregistered_mark {context : Context} {progress : Progress} {name : String}
    (known : context.isKnown name) (fresh : name ∉ progress.registered) :
    unregistered context (progress.mark name) < unregistered context progress := by
  have rest : context.knownNames.filter (· ∉ (progress.mark name).registered) =
      (context.knownNames.filter (· ∉ progress.registered)).filter (· ≠ name) := by
    rw [List.filter_filter]
    apply List.filter_congr
    intro other _
    simp [Progress.mark]
  rw [unregistered, rest]
  apply List.length_filter_lt_length_iff_exists.mpr
  exact ⟨name, List.mem_filter.mpr ⟨Context.mem_knownNames.mpr known, by simpa using fresh⟩, by simp⟩

theorem outcome_write (setting : Setting) (name : String) (declaration : Declaration)
    (progress : Progress) :
    outcome (write setting name declaration) progress =
      if name ∈ progress.claimed then (.error (.artifactCollision name), progress)
      else if setting.sink.accepts progress.contents name then
        (.ok ⟨⟩, progress.store (setting.artifact name declaration))
      else (.error (.io (setting.sink.location name)), progress.claim name) := by
  unfold write
  simp only [outcome_bind, outcome_get]
  split
  · rfl
  · split <;> rfl

section

variable {emit emit' : String → Work Progress Registration}

/-- Replays agree from a state where the two emissions agree, as long as they stay among such
states. -/
theorem replay_congr (valid : Progress → Prop)
    (agree : ∀ name progress, valid progress → outcome (emit name) progress = outcome (emit' name) progress)
    (keeps : ∀ name progress, valid progress → valid (outcome (emit name) progress).2)
    (notes : ∀ event progress, valid progress → valid (outcome (note event) progress).2)
    (reading : Reading α) (progress : Progress) (start : valid progress) :
    outcome (reading.replay emit) progress = outcome (reading.replay emit') progress := by
  obtain ⟨actions, result⟩ := reading
  induction actions generalizing progress with
  | nil => rfl
  | cons action actions ih =>
    have step : outcome (action.perform emit) progress = outcome (action.perform emit') progress ∧
        valid (outcome (action.perform emit) progress).2 := by
      cases action with
      | report event => exact ⟨rfl, notes event progress start⟩
      | enter name =>
        have kept := keeps name progress start
        simp only [Action.perform, outcome_bind, ← agree name progress start]
        revert kept
        rcases outcome (emit name) progress with ⟨error | registration, after⟩ <;>
          exact fun kept => ⟨trivial, kept⟩
    simp only [Reading.replay_cons, outcome_bind, ← step.1]
    have kept := step.2
    revert kept
    rcases outcome (action.perform emit) progress with ⟨error | _, after⟩ <;> intro kept
    · rfl
    · exact ih after kept

theorem extends_write (setting : Setting) (name : String) (declaration : Declaration) :
    Keeps Extends (write setting name declaration) := by
  intro progress
  rw [outcome_write]
  split
  · exact Extends.refl progress
  · split <;> exact List.Subset.refl _

/-- What a replay gives is what the reading ends with. -/
theorem result_of_replay {reading : Reading α} {before after : Progress} {value : α}
    (gives : Gives (reading.replay emit) before value after) : reading.result = .ok value := by
  obtain ⟨_, _, _, ended⟩ := gives_bind.mp gives
  exact (gives_lift.mp ended).1

/-- A replay keeps what reports and emission keep. -/
theorem keeps_replay {relation : Progress → Progress → Prop} (frame : Frame relation)
    (notes : ∀ event, Keeps relation (note event)) (keeps : ∀ name, Keeps relation (emit name))
    (reading : Reading α) : Keeps relation (reading.replay emit) := by
  refine frame.bind (frame.forM fun action _ => ?_) fun _ => frame.refl
  cases action with
  | report event => exact notes event
  | enter name => exact frame.bind (keeps name) fun _ => frame.pure _

theorem emitDeclaration_replay (faithful : Reading.Faithful emit) (setting : Setting) (name : String)
    (declaration : TagDeclaration) :
    emitDeclaration setting emit name declaration = (do
      write setting (artifactName name declaration)
        (← (plan setting name declaration).replay emit)) := by
  rw [plan, Reading.replay_declare faithful]
  rfl

end

variable (setting : Setting)

theorem emitWithin_succ (bound : Nat) (name : String) (progress : Progress) :
    outcome (emitWithin setting (bound + 1) name) progress =
      if name ∈ progress.registered then (.ok (.alreadyEmitted name), progress)
      else
        match setting.context.tag? name with
        | none => (.error (.unsupportedName name), progress)
        | some declaration =>
          outcome (do
            emitDeclaration setting (emitWithin setting bound) name declaration
            return .emitted name) (progress.mark name) := by
  simp only [emitWithin, outcome_bind, outcome_get, isRegistered, List.contains_eq_mem,
    decide_eq_true_eq]
  split
  · rfl
  · cases setting.context.tag? name with
    | none => rfl
    | some declaration => simp only [mark, outcome_bind, outcome_modify]

theorem emitWithin_name {bound : Nat} {name : String} {before after : Progress}
    {registration : Registration} (gives : Gives (emitWithin setting bound name) before registration after) :
    registration.name = name := by
  cases bound with
  | zero =>
    obtain ⟨rfl, -⟩ := gives_pure.mp gives
    rfl
  | succ bound =>
    rw [Gives, emitWithin_succ] at gives
    split at gives
    · cases gives
      rfl
    · split at gives
      · cases gives
      · obtain ⟨_, _, _, last⟩ := gives_bind.mp gives
        obtain ⟨rfl, -⟩ := gives_pure.mp last
        rfl

theorem faithful_emitWithin (bound : Nat) : Reading.Faithful (emitWithin setting bound) := by
  intro name
  rw [← bind_pure_comp]
  apply Work.ext
  intro progress
  simp only [outcome_bind]
  rcases run : outcome (emitWithin setting bound name) progress with ⟨error | registration, after⟩
  · rfl
  · exact congrArg (fun name => (Except.ok name, after)) (emitWithin_name setting run)

/-- Emission keeps a relation if it holds again whenever a declaration was marked, its fields were
resolved, and its artifact was handed to the sink. -/
theorem keeps_emitWithin {relation : Progress → Progress → Prop} (frame : Frame relation)
    (notes : ∀ event, Keeps relation (note event))
    (emits : ∀ {name declaration before middle}, setting.context.tag? name = some declaration →
      name ∉ before.registered → relation (before.mark name) middle → relation before middle ∧
      ∀ made, (plan setting name declaration).result = .ok made →
        relation before (outcome (write setting (artifactName name declaration) made) middle).2)
    (bound : Nat) (name : String) : Keeps relation (emitWithin setting bound name) := by
  induction bound generalizing name with
  | zero => exact frame.pure _
  | succ bound ih =>
    intro progress
    rw [emitWithin_succ]
    split
    · exact frame.refl progress
    · next fresh =>
      split
      · exact frame.refl progress
      · next declaration tag =>
        have replayed := keeps_replay frame notes ih (plan setting name declaration) (progress.mark name)
        rw [emitDeclaration_replay (faithful_emitWithin setting bound)]
        simp only [outcome_bind]
        rcases run : outcome ((plan setting name declaration).replay (emitWithin setting bound))
          (progress.mark name) with ⟨error | made, middle⟩
        · rw [run] at replayed
          exact (emits tag fresh replayed).1
        · rw [run] at replayed
          have written := (emits tag fresh replayed).2 made (result_of_replay run)
          dsimp only
          revert written
          rcases outcome (write setting (artifactName name declaration) made) middle with ⟨error | _, after⟩ <;>
            exact id

theorem extends_emitWithin (bound : Nat) (name : String) : Keeps Extends (emitWithin setting bound name) := by
  refine keeps_emitWithin setting frame_extends extends_note (fun tag fresh later => ?_) bound name
  have extended := (extends_mark _ _).trans later
  exact ⟨extended, fun made _ => extended.trans (extends_write setting _ _ _)⟩

/-- Declarations come out the same for two bounds, as long as emission does. -/
theorem emitDeclaration_congr {bound other : Nat}
    (agree : ∀ name state, unregistered setting.context state < bound →
      unregistered setting.context state < other →
      outcome (emitWithin setting bound name) state = outcome (emitWithin setting other name) state)
    (name : String) (declaration : TagDeclaration) {progress : Progress}
    (enough : unregistered setting.context progress < bound)
    (also : unregistered setting.context progress < other) :
    outcome (emitDeclaration setting (emitWithin setting bound) name declaration) progress =
      outcome (emitDeclaration setting (emitWithin setting other) name declaration) progress := by
  rw [emitDeclaration_replay (faithful_emitWithin setting bound),
    emitDeclaration_replay (faithful_emitWithin setting other), outcome_bind, outcome_bind]
  have same : outcome ((plan setting name declaration).replay (emitWithin setting bound)) progress =
      outcome ((plan setting name declaration).replay (emitWithin setting other)) progress := by
    apply replay_congr fun state =>
      unregistered setting.context state < bound ∧ unregistered setting.context state < other
    · exact fun name state valid => agree name state valid.1 valid.2
    · intro name state valid
      have fewer := unregistered_anti setting.context (extends_emitWithin setting bound name state)
      omega
    · exact fun _ _ valid => valid
    · exact ⟨enough, also⟩
  rw [same]

/-- A bound above the number of names left to register decides nothing. -/
theorem emitWithin_stable {bound other : Nat} {name : String} {progress : Progress}
    (enough : unregistered setting.context progress < bound)
    (also : unregistered setting.context progress < other) :
    outcome (emitWithin setting bound name) progress =
      outcome (emitWithin setting other name) progress := by
  induction bound generalizing other name progress with
  | zero => omega
  | succ bound ih =>
    obtain ⟨other, rfl⟩ : ∃ smaller, other = smaller + 1 := ⟨other - 1, by omega⟩
    rw [emitWithin_succ, emitWithin_succ]
    split
    · rfl
    · next fresh =>
      cases tag : setting.context.tag? name with
      | none => rfl
      | some declaration =>
        have known : setting.context.isKnown name := by simp [Context.isKnown, tag]
        have fewer := unregistered_mark known fresh
        have same := emitDeclaration_congr setting (fun name state enough also => ih enough also)
          name declaration (by omega : unregistered setting.context (progress.mark name) < bound)
          (by omega : unregistered setting.context (progress.mark name) < other)
        simp only [outcome_bind, same]

/-- The equation of emission, in which no bound is left. -/
theorem outcome_emit (name : String) (progress : Progress) :
    outcome (emit setting name) progress =
      if name ∈ progress.registered then (.ok (.alreadyEmitted name), progress)
      else
        match setting.context.tag? name with
        | none => (.error (.unsupportedName name), progress)
        | some declaration =>
          outcome (do
            emitDeclaration setting (emit setting) name declaration
            return .emitted name) (progress.mark name) := by
  rw [emit, emitWithin_succ]
  split
  · rfl
  · next fresh =>
    cases tag : setting.context.tag? name with
    | none => rfl
    | some declaration =>
      have known : setting.context.isKnown name := by simp [Context.isKnown, tag]
      have fewer := unregistered_mark known fresh
      have atMost := unregistered_le setting.context progress
      have same := emitDeclaration_congr setting
        (fun name state enough also => emitWithin_stable setting enough also) name declaration
        (by omega : unregistered setting.context (progress.mark name) < setting.context.tags.length)
        (by omega : unregistered setting.context (progress.mark name) <
          setting.context.tags.length + 1)
      simp only [outcome_bind, same]
      rfl

theorem faithful_emit : Reading.Faithful (emit setting) := faithful_emitWithin setting _

theorem extends_emit (name : String) : Keeps Extends (emit setting name) :=
  extends_emitWithin setting _ name

section

variable {setting : Setting} {relation : Progress → Progress → Prop} (frame : Frame relation)
  (emits : ∀ name, Keeps relation (emit setting name))

include frame emits

/-- Registration keeps what emission keeps. -/
theorem keeps_register (name : String) : Keeps relation (register setting name) := by
  unfold register registerBy
  split
  · exact emits name
  · split
    · exact frame.bind (emits _) fun _ => frame.pure _
    · exact frame.throw _

theorem keeps_registerAll (names : List String) : Keeps relation (registerAll setting names) :=
  frame.forM fun name _ => frame.bind (keeps_register frame emits name) fun _ => frame.pure _

/-- Signatures are replayed, so they keep what reports and emission keep. -/
theorem keeps_signature (notes : ∀ event, Keeps relation (note event)) (function : Function) :
    Keeps relation (signature setting function) := by
  rw [signature, effects, ← Reading.replay_signatureWith (faithful_emit setting)]
  exact keeps_replay frame notes emits _

end

end Interop.Session
