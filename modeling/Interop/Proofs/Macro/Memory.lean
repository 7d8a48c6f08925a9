import Interop.Proofs.Macro.Evaluation
import Mathlib.Logic.Relation

/-! Evaluation of macros with a memory. Remembered values are values that the macros have
anyway, and no macro in progress is needed for one of them, so a remembered value is what
evaluation would find again. The result of a call therefore does not depend on the calls
before it, and neither does what a macro needs: its value exists exactly if its needs have
values and its own text has one with them, and then its needs never lead in a circle. -/
namespace Interop.Macro

def outcome {α : Type} (work : Evaluation α) (memory : Memory) : Except EvaluationError α × Memory :=
  work.run.run memory

/-- A macro is left whatever its text comes to, and only a value is remembered. -/
def settle (name : String) : Evaluated × Memory → Evaluated × Memory
  | (.ok value, after) => (.ok value, (after.leave name).remember name value)
  | (.error error, after) => (.error error, after.leave name)

variable {definitions : List (String × String)}

theorem outcome_bind {α β : Type} (work : Evaluation α) (next : α → Evaluation β) (memory : Memory) :
    outcome (work >>= next) memory =
      match outcome work memory with
      | (.ok value, after) => outcome (next value) after
      | (.error error, after) => (.error error, after) := by
  simp only [outcome, ExceptT.run_bind, StateT.run_bind]
  rcases (work.run.run memory : Except EvaluationError α × Memory) with ⟨result | result, after⟩ <;> rfl

theorem outcome_pure {α : Type} (value : α) (memory : Memory) :
    outcome (pure value) memory = (.ok value, memory) := rfl

theorem outcome_get (memory : Memory) : outcome get memory = (.ok memory, memory) := rfl

theorem outcome_set (memory other : Memory) : outcome (set other) memory = (.ok ⟨⟩, other) := rfl

theorem outcome_modify (change : Memory → Memory) (memory : Memory) :
    outcome (modify change) memory = (.ok ⟨⟩, change memory) := rfl

/-- Work whose failure is kept as its value never fails. -/
theorem outcome_attempt {α : Type} (work : Evaluation α) (memory : Memory) :
    outcome (ExceptT.lift work.run) memory =
      (.ok (outcome work memory).1, (outcome work memory).2) := rfl

theorem outcome_result {α : Type} (result : Except EvaluationError α) (memory : Memory) :
    outcome (liftM result) memory = (result, memory) := rfl

theorem stops_evaluation : Inquiry.Stops Evaluation := fun _ _ => rfl

theorem outcome_evaluateWithin_succ (bound : Nat) (name : String) (memory : Memory) :
    outcome (evaluateWithin definitions (bound + 1) name) memory =
      match memory.values.lookup name, definitions.lookup name with
      | some value, _ => (.ok value, memory)
      | none, none => (.error (.unknownIdentifier name), memory)
      | none, some source =>
        if name ∈ memory.inProgress then (.error (.cycle name), memory)
        else settle name (outcome (body source (evaluateWithin definitions bound)) (memory.enter name)) := by
  rw [evaluateWithin, outcome_bind, outcome_get]
  dsimp only
  cases memory.values.lookup name with
  | some value => rfl
  | none =>
    cases definitions.lookup name with
    | none => rfl
    | some source =>
      dsimp only
      by_cases member : name ∈ memory.inProgress
      · rw [if_pos member, if_pos member]
        rfl
      · rw [if_neg member, if_neg member]
        simp only [outcome_bind, outcome_pure, outcome_set, outcome_attempt, outcome_modify, outcome_result]
        rcases outcome (body source (evaluateWithin definitions bound)) (memory.enter name) with
          ⟨result | result, after⟩ <;> rfl

/-- Questions answered alike from every memory that holds come to the same result. -/
theorem outcome_interpret {α : Type} {holds : Memory → Prop} {resolve : String → Evaluation Constant}
    {values : String → Evaluated} {inquiry : Inquiry α} {memory : Memory}
    (alike : ∀ name, inquiry.Asks values name → ∀ memory, holds memory →
      ∃ after, outcome (resolve name) memory = (values name, after) ∧ holds after)
    (start : holds memory) :
    ∃ after, outcome (inquiry.interpret resolve) memory = (inquiry.run values, after) ∧ holds after := by
  induction inquiry generalizing memory with
  | answer value => exact ⟨memory, rfl, start⟩
  | fail error => exact ⟨memory, rfl, start⟩
  | ask name next ih =>
    obtain ⟨middle, answered, still⟩ := alike name .first memory start
    rw [Inquiry.interpret, outcome_bind, answered]
    cases given : values name with
    | error error => exact ⟨middle, by rw [Inquiry.run_ask_error given], still⟩
    | ok value =>
      rw [Inquiry.run_ask given]
      exact ih value (fun other asks => alike other (.later given asks)) still

/-- A memory while macros are open: it knows which, and remembers only values of macros. -/
structure Consistent (definitions : List (String × String)) (opened : List String) (memory : Memory) : Prop where
  inProgress : memory.inProgress = opened
  sound : ∀ name value, memory.values.lookup name = some value → Denotes definitions name value

theorem consistent_empty : Consistent definitions [] .empty :=
  ⟨rfl, fun _ _ found => by cases found⟩

namespace Consistent

variable {opened : List String} {name : String} {memory : Memory}

theorem enter (consistent : Consistent definitions opened memory) :
    Consistent definitions (name :: opened) (memory.enter name) :=
  ⟨congrArg (name :: ·) consistent.inProgress, consistent.sound⟩

theorem leave (consistent : Consistent definitions (name :: opened) memory) :
    Consistent definitions opened (memory.leave name) := by
  refine ⟨?_, consistent.sound⟩
  simp only [Memory.leave, consistent.inProgress, List.erase_cons_head]

theorem remember {value : Constant} (consistent : Consistent definitions opened memory)
    (denotes : Denotes definitions name value) :
    Consistent definitions opened (memory.remember name value) := by
  refine ⟨consistent.inProgress, ?_⟩
  intro other found known
  simp only [Memory.remember, List.lookup_cons] at known
  split at known
  · rename_i same
    obtain rfl := eq_of_beq same
    obtain rfl := Option.some.inj known
    exact denotes
  · exact consistent.sound other found known

end Consistent

/-- Evaluation with a memory comes to what it comes to without one. -/
theorem outcome_evaluateWithin {bound : Nat} {opened : List String} {name : String} {memory : Memory}
    (room : Room definitions bound opened) (waiting : Waiting definitions opened name)
    (consistent : Consistent definitions opened memory) :
    ∃ after, outcome (evaluateWithin definitions bound name) memory =
        (guarded definitions bound opened name, after) ∧ Consistent definitions opened after := by
  induction bound generalizing opened name memory with
  | zero => exact absurd room.pos (Nat.lt_irrefl 0)
  | succ bound ih =>
    rw [outcome_evaluateWithin_succ]
    cases known : memory.values.lookup name with
    | some value =>
      have found := guarded_of_denotes (consistent.sound name value known) room waiting
      exact ⟨memory, by rw [found], consistent⟩
    | none =>
      rw [guarded]
      cases defined : definitions.lookup name with
      | none => exact ⟨memory, rfl, consistent⟩
      | some source =>
        dsimp only
        rw [consistent.inProgress]
        by_cases member : name ∈ opened
        · rw [if_pos member, if_pos member]
          exact ⟨memory, rfl, consistent⟩
        rw [if_neg member, if_neg member]
        obtain ⟨inside, computed, within⟩ : ∃ inside,
            outcome (body source (evaluateWithin definitions bound)) (memory.enter name) =
              (body source (guarded definitions bound (name :: opened)), inside) ∧
            Consistent definitions (name :: opened) inside := by
          unfold body
          cases parsed : Expression.parse source with
          | error failure => exact ⟨memory.enter name, rfl, consistent.enter⟩
          | ok expression =>
            dsimp only
            rw [Expression.evaluate_eq_interpret stops_evaluation, Expression.evaluate_eq_run]
            exact outcome_interpret
              (fun other asks middle => ih (room.open defined member) (waiting.asks defined parsed asks))
              consistent.enter
        rw [computed]
        cases found : body source (guarded definitions bound (name :: opened)) with
        | error error => exact ⟨inside.leave name, rfl, within.leave⟩
        | ok value =>
          have denotes : Denotes definitions name value := by
            refine ⟨bound + 1, approximate_succ.mpr ⟨source, defined, ?_⟩⟩
            exact body_of_extends found fun _ _ => approximate_of_guarded
          exact ⟨(inside.leave name).remember name value, rfl, within.leave.remember denotes⟩

end Interop.Macro
