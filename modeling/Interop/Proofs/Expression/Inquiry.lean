import Interop.Expression.Evaluation

/-! Evaluation as a series of questions. An expression asks for the values of names one after
the other, and each answer decides what is asked next; evaluation in any monad only interprets
these questions. Which names are asked for depends on the values that are given, because
`&&`, `||` and `?:` skip operands. -/
namespace Interop

/-- Questions for the values of names, and what is answered in the end. -/
inductive Inquiry (α : Type) where
  | answer (value : α)
  | fail (error : EvaluationError)
  | ask (name : String) (next : Constant → Inquiry α)

namespace Inquiry

variable {α β : Type}

protected def bind : Inquiry α → (α → Inquiry β) → Inquiry β
  | answer value, rest => rest value
  | fail error, _ => fail error
  | ask name next, rest => ask name fun value => (next value).bind rest

protected def tryCatch : Inquiry α → (EvaluationError → Inquiry α) → Inquiry α
  | answer value, _ => answer value
  | fail error, handle => handle error
  | ask name next, handle => ask name fun value => (next value).tryCatch handle

instance : Monad Inquiry where
  pure := answer
  bind := Inquiry.bind

instance : MonadExceptOf EvaluationError Inquiry where
  throw := fail
  tryCatch := Inquiry.tryCatch

section

variable {m : Type → Type} [Monad m] [MonadExceptOf EvaluationError m]

def interpret (resolve : String → m Constant) : Inquiry α → m α
  | answer value => pure value
  | fail error => throw error
  | ask name next => do (next (← resolve name)).interpret resolve

def Stops (m : Type → Type) [Monad m] [MonadExceptOf EvaluationError m] : Prop :=
  ∀ {α β : Type} (error : EvaluationError) (rest : α → m β), (throw error >>= rest) = throw error

theorem interpret_bind [LawfulMonad m] (stops : Stops m) (resolve : String → m Constant)
    (inquiry : Inquiry α) (rest : α → Inquiry β) :
    (inquiry >>= rest).interpret resolve =
      inquiry.interpret resolve >>= fun value => (rest value).interpret resolve := by
  induction inquiry with
  | answer value => exact (pure_bind value fun value => (rest value).interpret resolve).symm
  | fail error => exact (stops error _).symm
  | ask name next ih =>
    change (resolve name >>= fun value => (next value >>= rest).interpret resolve) = _
    simp only [interpret, bind_assoc, ih]

theorem interpret_ofExcept (resolve : String → m Constant) (result : Except EvaluationError α) :
    interpret resolve (MonadExcept.ofExcept result) = (MonadExcept.ofExcept result : m α) := by
  cases result <;> rfl

end

abbrev run (values : String → Evaluated) (inquiry : Inquiry α) : Except EvaluationError α :=
  inquiry.interpret values

theorem stops_except : Stops (Except EvaluationError) := fun _ _ => rfl

theorem run_ask {values : String → Evaluated} {name : String} {next : Constant → Inquiry α}
    {value : Constant} (given : values name = .ok value) :
    (ask name next).run values = (next value).run values := by
  simp only [run, interpret, given]
  rfl

/-- A question without an answer ends the inquiry. -/
theorem run_ask_error {values : String → Evaluated} {name : String} {next : Constant → Inquiry α}
    {error : EvaluationError} (given : values name = .error error) :
    (ask name next).run values = .error error := by
  simp only [run, interpret, given]
  rfl

/-- A question must be answered for there to be a result. -/
theorem run_ask_eq_ok {values : String → Evaluated} {name : String} {next : Constant → Inquiry α}
    {result : α} : (ask name next).run values = .ok result ↔
      ∃ value, values name = .ok value ∧ (next value).run values = .ok result := by
  constructor
  · intro answered
    cases given : values name with
    | ok value => exact ⟨value, rfl, (run_ask given).symm.trans answered⟩
    | error error =>
      rw [run_ask_error given] at answered
      cases answered
  · rintro ⟨value, given, answered⟩
    exact (run_ask given).trans answered

/-- The names whose values are asked for when these values are answered. -/
inductive Asks (values : String → Evaluated) : Inquiry α → String → Prop where
  | first {name : String} {next : Constant → Inquiry α} : Asks values (ask name next) name
  | later {name other : String} {next : Constant → Inquiry α} {value : Constant}
      (given : values name = .ok value) (asks : Asks values (next value) other) :
      Asks values (ask name next) other

section

variable {values values' : String → Evaluated} {name : String} {inquiry : Inquiry α}

theorem asks_bind {rest : α → Inquiry β} :
    Asks values (inquiry >>= rest) name ↔
      Asks values inquiry name ∨ ∃ value, inquiry.run values = .ok value ∧ Asks values (rest value) name := by
  induction inquiry with
  | answer value =>
    constructor
    · exact fun asks => Or.inr ⟨value, rfl, asks⟩
    · rintro (asks | ⟨_, answered, asks⟩)
      · cases asks
      · cases answered
        exact asks
  | fail error =>
    constructor
    · intro asks
      cases asks
    · rintro (asks | ⟨_, answered, _⟩)
      · cases asks
      · cases answered
  | ask other next ih =>
    constructor
    · intro asks
      cases asks with
      | first => exact Or.inl .first
      | later given asks =>
        rcases (ih _).mp asks with asks | ⟨value, result, asks⟩
        · exact Or.inl (.later given asks)
        · exact Or.inr ⟨value, (run_ask given).trans result, asks⟩
    · rintro (asks | ⟨value, result, asks⟩)
      · cases asks with
        | first => exact .first
        | later given asks => exact .later given ((ih _).mpr (Or.inl asks))
      · obtain ⟨first, given, result⟩ := run_ask_eq_ok.mp result
        exact .later given ((ih _).mpr (Or.inr ⟨value, result, asks⟩))

/-- Only the values of the names asked for matter. -/
theorem run_congr (same : ∀ name, Asks values inquiry name → values name = values' name) :
    inquiry.run values = inquiry.run values' := by
  induction inquiry with
  | answer value => rfl
  | fail error => rfl
  | ask name next ih =>
    simp only [run, interpret, ← same name .first]
    cases given : values name with
    | error error => rfl
    | ok value => exact ih value fun other asks => same other (.later given asks)

/-- There is a result only if all names asked for have values. -/
theorem Asks.exists_value {result : α} (asks : Asks values inquiry name)
    (answered : inquiry.run values = .ok result) : ∃ value, values name = .ok value := by
  induction asks with
  | first =>
    obtain ⟨value, given, _⟩ := run_ask_eq_ok.mp answered
    exact ⟨value, given⟩
  | later given _ ih =>
    rw [run_ask given] at answered
    exact ih answered

/-- A result stays where all answers that led to it are found again. -/
theorem run_of_extends {result : α} (answered : inquiry.run values = .ok result)
    (extend : ∀ name value, values name = .ok value → values' name = .ok value) :
    inquiry.run values' = .ok result := by
  rw [← answered]
  refine (run_congr fun name asks => ?_).symm
  obtain ⟨value, given⟩ := asks.exists_value answered
  rw [given, extend name value given]

/-- Values that never contradict each other lead through the same questions, as long as the
second ones lead to a result. -/
theorem Asks.transfer {result : α} (asks : Asks values inquiry name)
    (agree : ∀ name first second, values name = .ok first → values' name = .ok second → first = second)
    (answered : inquiry.run values' = .ok result) : Asks values' inquiry name := by
  induction asks with
  | first => exact .first
  | later given _ ih =>
    obtain ⟨second, given', answered⟩ := run_ask_eq_ok.mp answered
    obtain rfl := agree _ _ second given given'
    exact .later given' (ih answered)

end

end Inquiry

namespace Constant

theorem condition_eq_ok {operator : String} {constant : Constant} {truth : Bool} :
    constant.condition operator = .ok truth ↔ constant.truth? = some truth := by
  unfold condition
  split <;> rename_i known <;> simp [known, invalidOperand]

end Constant

namespace Expression

def inquiry (expression : Expression) : Inquiry Constant :=
  expression.evaluate fun name => .ask name .answer

section

variable {m : Type → Type} [Monad m] [MonadExceptOf EvaluationError m]

/-- Both operands of any other operator than `&&` and `||` are evaluated. -/
theorem evaluate_strict {operator : BinaryOperator} (strict : operator ≠ .and ∧ operator ≠ .or)
    (resolve : String → m Constant) (left right : Expression) :
    (binary operator left right).evaluate resolve =
      (do MonadExcept.ofExcept (Constant.applyBinary operator (← left.evaluate resolve)
        (← right.evaluate resolve))) := by
  obtain ⟨notAnd, notOr⟩ := strict
  simp only [evaluate]

/-- Evaluation in any monad interprets the same questions. -/
theorem evaluate_eq_interpret [LawfulMonad m] (stops : Inquiry.Stops m) (resolve : String → m Constant)
    (expression : Expression) : expression.evaluate resolve = expression.inquiry.interpret resolve := by
  have split (truth : Bool) (first second : Inquiry Constant) :
      (if truth then first else second).interpret resolve =
        if truth then first.interpret resolve else second.interpret resolve := by
    cases truth <;> rfl
  induction expression with
  | literal value => rfl
  | identifier name => exact (bind_pure (resolve name)).symm
  | unary operator operand ih =>
    simp only [inquiry, evaluate, Inquiry.interpret_bind stops, Inquiry.interpret_ofExcept, ih]
  | cast type operand ih =>
    simp only [inquiry, evaluate, Inquiry.interpret_bind stops, Inquiry.interpret_ofExcept, ih]
  | conditional condition accepted rejected ih ih' ih'' =>
    simp only [inquiry, evaluate, Inquiry.interpret_bind stops, Inquiry.interpret_ofExcept, split, ih, ih', ih'']
  | binary operator left right ih ih' =>
    by_cases isAnd : operator = .and
    · subst isAnd
      simp only [inquiry, evaluate, Inquiry.interpret_bind stops, Inquiry.interpret_ofExcept, split, ih, ih']
      rfl
    by_cases isOr : operator = .or
    · subst isOr
      simp only [inquiry, evaluate, Inquiry.interpret_bind stops, Inquiry.interpret_ofExcept, split, ih, ih']
      rfl
    · have strict : operator ≠ .and ∧ operator ≠ .or := ⟨isAnd, isOr⟩
      simp only [inquiry, evaluate_strict strict, Inquiry.interpret_bind stops, Inquiry.interpret_ofExcept, ih, ih']

end

theorem evaluate_eq_run (values : String → Evaluated) (expression : Expression) :
    expression.evaluate values = expression.inquiry.run values :=
  evaluate_eq_interpret Inquiry.stops_except values expression

def Counts (values : String → Evaluated) (expression : Expression) (truth : Bool) : Prop :=
  ∃ value, expression.evaluate values = .ok value ∧ value.truth? = some truth

/-- The names whose values an expression needs, when these are the values of names. Operands
that are skipped need nothing, and neither do those that follow one without a value. -/
inductive Demands (values : String → Evaluated) : Expression → String → Prop where
  | identifier (name : String) : Demands values (.identifier name) name
  | unary {operator : UnaryOperator} {operand : Expression} {name : String}
      (inner : Demands values operand name) : Demands values (.unary operator operand) name
  | cast {type : CastType} {operand : Expression} {name : String}
      (inner : Demands values operand name) : Demands values (.cast type operand) name
  | left {operator : BinaryOperator} {left right : Expression} {name : String}
      (inner : Demands values left name) : Demands values (.binary operator left right) name
  | right {operator : BinaryOperator} {left right : Expression} {value : Constant} {name : String}
      (strict : operator ≠ .and ∧ operator ≠ .or) (before : left.evaluate values = .ok value)
      (inner : Demands values right name) : Demands values (.binary operator left right) name
  | both {left right : Expression} {name : String} (before : Counts values left true)
      (inner : Demands values right name) : Demands values (.binary .and left right) name
  | either {left right : Expression} {name : String} (before : Counts values left false)
      (inner : Demands values right name) : Demands values (.binary .or left right) name
  | condition {condition accepted rejected : Expression} {name : String}
      (inner : Demands values condition name) :
      Demands values (.conditional condition accepted rejected) name
  | accepted {condition accepted rejected : Expression} {name : String}
      (before : Counts values condition true) (inner : Demands values accepted name) :
      Demands values (.conditional condition accepted rejected) name
  | rejected {condition accepted rejected : Expression} {name : String}
      (before : Counts values condition false) (inner : Demands values rejected name) :
      Demands values (.conditional condition accepted rejected) name

/-- Which operator the operand belongs to shows only in the message of a failure. -/
theorem counts_iff {values : String → Evaluated} {expression : Expression} (operator : String)
    {truth : Bool} : Counts values expression truth ↔
      ∃ value, expression.inquiry.run values = .ok value ∧ value.condition operator = .ok truth := by
  simp only [Counts, evaluate_eq_run, Constant.condition_eq_ok]

section

open Inquiry

variable {values : String → Evaluated} {operand : Expression} {name : String} {α : Type}

/-- What is computed from the value of an operand asks nothing more. -/
theorem asks_operand {result : Constant → Except EvaluationError α} :
    Asks values (operand.inquiry >>= fun value => MonadExcept.ofExcept (result value)) name ↔
      Asks values operand.inquiry name := by
  rw [asks_bind]
  constructor
  · rintro (asks | ⟨value, _, asks⟩)
    · exact asks
    · cases computed : result value <;> rw [computed] at asks <;> cases asks
  · exact Or.inl

/-- What is asked after a test depends on what the operand counts as. -/
theorem asks_test (operator : String) {rest : Bool → Inquiry α} :
    Asks values (operand.inquiry >>= fun value =>
        MonadExcept.ofExcept (value.condition operator) >>= rest) name ↔
      Asks values operand.inquiry name ∨
        ∃ truth, Counts values operand truth ∧ Asks values (rest truth) name := by
  rw [asks_bind]
  constructor
  · rintro (asks | ⟨value, result, asks⟩)
    · exact Or.inl asks
    · cases tested : value.condition operator with
      | error error =>
        rw [tested] at asks
        cases asks
      | ok truth =>
        rw [tested] at asks
        exact Or.inr ⟨truth, (counts_iff operator).mpr ⟨value, result, tested⟩, asks⟩
  · rintro (asks | ⟨truth, counts, asks⟩)
    · exact Or.inl asks
    · obtain ⟨value, result, tested⟩ := (counts_iff operator).mp counts
      refine Or.inr ⟨value, result, ?_⟩
      rw [tested]
      exact asks

/-- A second operand that only matters after one outcome of the test of the first. -/
theorem asks_shortCircuit {left right : Expression} (operator : String) (through : Bool)
    {rest : Bool → Inquiry Constant} {decided : Constant}
    (goesOn : rest through = (do
      return .bool (← MonadExcept.ofExcept ((← right.inquiry).condition operator))))
    (ends : rest (!through) = .answer decided) :
    Asks values (left.inquiry >>= fun value => MonadExcept.ofExcept (value.condition operator) >>= rest) name ↔
      Asks values left.inquiry name ∨ Counts values left through ∧ Asks values right.inquiry name := by
  have second : Asks values (rest through) name ↔ Asks values right.inquiry name := by
    rw [goesOn, asks_test operator]
    constructor
    · rintro (asks | ⟨_, _, asks⟩)
      · exact asks
      · cases asks
    · exact Or.inl
  rw [asks_test operator]
  refine or_congr_right ⟨?_, ?_⟩
  · rintro ⟨truth, counts, asks⟩
    by_cases same : truth = through
    · subst same
      exact ⟨counts, second.mp asks⟩
    · rw [Bool.eq_not.mpr same, ends] at asks
      cases asks
  · rintro ⟨counts, asks⟩
    exact ⟨through, counts, second.mpr asks⟩

end

/-- The names that an expression needs are those that its evaluation asks for. -/
theorem demands_iff_asks {values : String → Evaluated} {expression : Expression} {name : String} :
    expression.Demands values name ↔ expression.inquiry.Asks values name := by
  induction expression with
  | literal value =>
    constructor <;> intro none <;> cases none
  | identifier other =>
    constructor
    · rintro ⟨⟩
      exact .first
    · intro asks
      cases asks with
      | first => exact .identifier name
      | later given asks => cases asks
  | unary operator operand ih =>
    refine Iff.trans ?_ (ih.trans asks_operand.symm)
    constructor
    · rintro ⟨⟩
      assumption
    · exact .unary
  | cast type operand ih =>
    refine Iff.trans ?_ (ih.trans asks_operand.symm)
    constructor
    · rintro ⟨⟩
      assumption
    · exact .cast
  | conditional condition accepted rejected ih ih' ih'' =>
    refine Iff.trans ?_ (asks_test "?:").symm
    rw [← ih]
    constructor
    · intro demands
      cases demands with
      | condition inner => exact Or.inl inner
      | accepted before inner => exact Or.inr ⟨true, before, ih'.mp inner⟩
      | rejected before inner => exact Or.inr ⟨false, before, ih''.mp inner⟩
    · rintro (inner | ⟨truth, before, asks⟩)
      · exact .condition inner
      · cases truth with
        | true => exact .accepted before (ih'.mpr asks)
        | false => exact .rejected before (ih''.mpr asks)
  | binary operator left right ih ih' =>
    by_cases isAnd : operator = .and
    · subst isAnd
      refine Iff.trans ?_ (asks_shortCircuit "&&" true rfl rfl).symm
      rw [← ih, ← ih']
      constructor
      · intro demands
        cases demands with
        | left inner => exact Or.inl inner
        | right strict _ _ => exact absurd rfl strict.1
        | both before inner => exact Or.inr ⟨before, inner⟩
      · rintro (inner | ⟨before, inner⟩)
        · exact .left inner
        · exact .both before inner
    by_cases isOr : operator = .or
    · subst isOr
      refine Iff.trans ?_ (asks_shortCircuit "||" false rfl rfl).symm
      rw [← ih, ← ih']
      constructor
      · intro demands
        cases demands with
        | left inner => exact Or.inl inner
        | right strict _ _ => exact absurd rfl strict.2
        | either before inner => exact Or.inr ⟨before, inner⟩
      · rintro (inner | ⟨before, inner⟩)
        · exact .left inner
        · exact .either before inner
    · have strict : operator ≠ .and ∧ operator ≠ .or := ⟨isAnd, isOr⟩
      have questions : (binary operator left right).inquiry = left.inquiry >>= fun first =>
          right.inquiry >>= fun second => MonadExcept.ofExcept (Constant.applyBinary operator first second) :=
        evaluate_strict strict _ left right
      rw [questions, Inquiry.asks_bind, ← ih]
      constructor
      · intro demands
        cases demands with
        | left inner => exact Or.inl inner
        | right _ before inner =>
          exact Or.inr ⟨_, (evaluate_eq_run values left).symm.trans before, asks_operand.mpr (ih'.mp inner)⟩
        | both => exact absurd rfl isAnd
        | either => exact absurd rfl isOr
      · rintro (inner | ⟨value, result, asks⟩)
        · exact .left inner
        · exact .right strict ((evaluate_eq_run values left).trans result) (ih'.mpr (asks_operand.mp asks))

end Expression

end Interop
