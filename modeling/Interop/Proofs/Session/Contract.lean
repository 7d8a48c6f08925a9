import Interop.Proofs.Failure
import Interop.Proofs.Session.Fault

/-! Contracts of a session. A declaration in the making is marked, its fields are resolved and its
artifact is written; a contract that survives these steps is kept by registration and by all that
resolution asks for. -/
namespace Interop.Session

open Work Reading

/-- What emission has to respect of a contract, step by step: a fault below a declaration in the making or
in its own fields, an artifact that is refused, and one that is written. -/
structure Respects (setting : Setting) (contract : Contract Progress) : Prop where
  notes : ∀ event progress, contract.kept progress (progress.note event)
  unknown : ∀ name progress, setting.context.tag? name = none →
    contract.broken (.unsupportedName name) progress progress
  below : ∀ {name declaration before after error}, setting.context.tag? name = some declaration →
    name ∉ before.registered → contract.broken error (before.mark name) after →
    contract.broken error before after
  faulty : ∀ {name declaration before after error}, setting.context.tag? name = some declaration →
    name ∉ before.registered → contract.kept (before.mark name) after →
    DeclarationFault setting declaration error → contract.broken error before after
  refused : ∀ {name declaration made before middle after error},
    setting.context.tag? name = some declaration → name ∉ before.registered →
    contract.kept (before.mark name) middle →
    Fails (write setting (artifactName name declaration) made) middle error after →
    contract.broken error before after
  written : ∀ {name declaration made before middle after},
    setting.context.tag? name = some declaration → name ∉ before.registered →
    contract.kept (before.mark name) middle → (plan setting name declaration).result = .ok made →
    Gives (write setting (artifactName name declaration) made) middle ⟨⟩ after →
    contract.kept before after

variable {setting : Setting} {contract : Contract Progress}

section

variable {emit : String → Work Progress Registration} (notes : ∀ event, Meets contract (note event))
  (emits : ∀ name, Meets contract (emit name)) {reading : Reading α} {before after : Progress}

include notes emits

theorem meets_actions (actions : List Action) : Meets contract (actions.forM (Action.perform emit)) := by
  refine .forM (fun action => ?_) actions
  cases action with
  | report event => exact notes event
  | enter name => exact (emits name).bind fun _ => .pure _

theorem kept_of_replay {value : α} (gives : Gives (reading.replay emit) before value after) :
    contract.kept before after := by
  obtain ⟨_, middle, performed, ended⟩ := gives_bind.mp gives
  obtain ⟨-, rfl⟩ := gives_lift.mp ended
  exact (meets_actions notes emits _).gives performed

/-- A replay fails in what it asks for, or with the error that the reading ends with. -/
theorem broken_of_replay {error : GenerationError} (fails : Fails (reading.replay emit) before error after) :
    contract.broken error before after ∨ contract.kept before after ∧ reading.result = .error error := by
  rcases fails_bind.mp fails with failed | ⟨_, middle, performed, ended⟩
  · exact .inl ((meets_actions notes emits _).fails failed)
  · obtain ⟨found, rfl⟩ := fails_lift.mp ended
    exact .inr ⟨(meets_actions notes emits _).gives performed, found⟩

theorem meets_replay (allowed : ∀ error state, reading.result = .error error → contract.broken error state state) :
    Meets contract (reading.replay emit) :=
  (meets_actions notes emits _).bind fun _ => .lift allowed

end

theorem Respects.note (respects : Respects setting contract) (event : Event) :
    Meets contract (note event) where
  gives given := by
    cases given
    exact respects.notes event _
  fails failed := by cases failed

/-- By induction on how many declarations may be in the making: each is marked before anything below it
is emitted. -/
theorem meets_emitWithin (respects : Respects setting contract) (bound : Nat) (name : String) :
    Meets contract (emitWithin setting bound name) := by
  induction bound generalizing name with
  | zero => exact .pure _
  | succ bound ih =>
    have steps (declaration : TagDeclaration) : emitDeclaration setting (emitWithin setting bound) name declaration =
        _ := emitDeclaration_replay (faithful_emitWithin setting bound) setting name declaration
    constructor
    · intro before registration after given
      rw [Gives, emitWithin_succ] at given
      split at given
      · cases given
        exact contract.refl _
      · next fresh =>
        split at given
        · cases given
        · next declaration tag =>
          obtain ⟨_, _, emitted, done⟩ := gives_bind.mp given
          obtain ⟨-, rfl⟩ := gives_pure.mp done
          rw [steps] at emitted
          obtain ⟨made, middle, replayed, written⟩ := gives_bind.mp emitted
          exact respects.written tag fresh (kept_of_replay respects.note ih replayed)
            (result_of_replay replayed) written
    · intro before error after failed
      rw [Fails, emitWithin_succ] at failed
      split at failed
      · cases failed
      · next fresh =>
        split at failed
        · next unknown =>
          cases failed
          exact respects.unknown name _ unknown
        · next declaration tag =>
          rcases fails_bind.mp failed with failed | ⟨_, _, _, done⟩
          · rw [steps] at failed
            rcases fails_bind.mp failed with unread | ⟨made, middle, replayed, refused⟩
            · rcases broken_of_replay respects.note ih unread with nested | ⟨kept, found⟩
              · exact respects.below tag fresh nested
              · exact respects.faulty tag fresh kept (fault_of_plan found)
            · exact respects.refused tag fresh (kept_of_replay respects.note ih replayed) refused
          · exact absurd done fails_pure

theorem meets_emit (respects : Respects setting contract) (name : String) :
    Meets contract (emit setting name) :=
  meets_emitWithin respects _ name

/-- Registration adds the errors of redirection. -/
theorem meets_register (respects : Respects setting contract)
    (astray : ∀ {name error} progress, redirect setting name = .error error →
      contract.broken error progress progress) (name : String) :
    Meets contract (register setting name) := by
  unfold register registerBy
  split
  · exact meets_emit respects name
  · split
    · exact (meets_emit respects _).bind fun _ => .pure _
    · next failed => exact .throw fun state => astray state failed

end Interop.Session
