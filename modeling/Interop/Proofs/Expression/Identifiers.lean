import Interop.Proofs.Expression.Inquiry
import Interop.Proofs.Expression.Outcome

/-! What an expression reads of a scope. Evaluation asks for fewer names than the expression
lists, since it skips operands and stops at the first failure, but for no others. A name that is
reported as unknown was asked for, because operations fail on their operands only. -/
namespace Interop

namespace Inquiry

variable {α β : Type} {allowed : EvaluationError → Prop}

/-- The failures of an inquiry that are not failures to get an answer. -/
def Raises (allowed : EvaluationError → Prop) : Inquiry α → Prop
  | answer _ => True
  | fail error => allowed error
  | ask _ next => ∀ value, (next value).Raises allowed

theorem Raises.bind {inquiry : Inquiry α} {rest : α → Inquiry β} (raises : inquiry.Raises allowed)
    (later : ∀ value, (rest value).Raises allowed) : (inquiry >>= rest).Raises allowed := by
  induction inquiry with
  | answer value => exact later value
  | fail error => exact raises
  | ask name next ih => exact fun value => ih value (raises value)

theorem raises_ofExcept {result : Except EvaluationError α} (own : ∀ error, result = .error error → allowed error) :
    Raises allowed (MonadExcept.ofExcept result) := by
  cases result with
  | ok value => exact trivial
  | error error => exact own error rfl

/-- An inquiry that fails does so by itself, or because a name that it asks for has no value. -/
theorem run_eq_error {values : String → Evaluated} {inquiry : Inquiry α} {error : EvaluationError}
    (raises : inquiry.Raises allowed) (failed : inquiry.run values = .error error) :
    allowed error ∨ ∃ name, Asks values inquiry name ∧ values name = .error error := by
  induction inquiry with
  | answer value => cases failed
  | fail other =>
    cases failed
    exact .inl raises
  | ask name next ih =>
    cases given : values name with
    | error other =>
      rw [run_ask_error given] at failed
      cases failed
      exact .inr ⟨name, .first, given⟩
    | ok value =>
      rw [run_ask given] at failed
      rcases ih value (raises value) failed with own | ⟨asked, asks, unanswered⟩
      · exact .inl own
      · exact .inr ⟨asked, .later given asks, unanswered⟩

end Inquiry

namespace Expression

open Inquiry

theorem raises_test (operator : String) (value : Constant) :
    Raises EvaluationError.OfOperation (MonadExcept.ofExcept (value.condition operator)) :=
  raises_ofExcept fun _ => Constant.ofOperation_of_condition

theorem raises_outcome {type? : Option ConstantType} {result : Evaluated} (outcome : Constant.Outcome type? result) :
    Raises EvaluationError.OfOperation (MonadExcept.ofExcept result) :=
  raises_ofExcept fun _ failed => (failed ▸ outcome).ofOperation

/-- By itself, evaluation fails in operations only. -/
theorem raises_inquiry (expression : Expression) : expression.inquiry.Raises EvaluationError.OfOperation := by
  induction expression with
  | literal value => exact trivial
  | identifier name => exact fun value => trivial
  | unary operator operand ih => exact ih.bind fun value => raises_outcome (Constant.outcome_unary operator value)
  | cast type operand ih => exact ih.bind fun value => raises_outcome (Constant.outcome_cast type value)
  | conditional condition accepted rejected ih ih' ih'' =>
    refine ih.bind fun value => (raises_test "?:" value).bind fun truth => ?_
    cases truth with
    | true => exact ih'
    | false => exact ih''
  | binary operator left right ih ih' =>
    by_cases isAnd : operator = .and
    · subst isAnd
      refine ih.bind fun value => (raises_test "&&" value).bind fun truth => ?_
      cases truth with
      | true => exact ih'.bind fun value => (raises_test "&&" value).bind fun _ => trivial
      | false => exact trivial
    by_cases isOr : operator = .or
    · subst isOr
      refine ih.bind fun value => (raises_test "||" value).bind fun truth => ?_
      cases truth with
      | true => exact trivial
      | false => exact ih'.bind fun value => (raises_test "||" value).bind fun _ => trivial
    · have questions : (binary operator left right).inquiry = left.inquiry >>= fun first =>
          right.inquiry >>= fun second => MonadExcept.ofExcept (Constant.applyBinary operator first second) :=
        evaluate_strict ⟨isAnd, isOr⟩ _ left right
      rw [questions]
      exact ih.bind fun first => ih'.bind fun second =>
        raises_outcome (Constant.outcome_binary operator first second)

/-- What is needed of a scope is among what the expression lists. -/
theorem Demands.mem_identifiers {values : String → Evaluated} {expression : Expression} {name : String}
    (demands : expression.Demands values name) : name ∈ expression.identifiers := by
  induction demands with
  | identifier name => exact List.mem_singleton_self name
  | unary _ ih | cast _ ih => exact ih
  | left _ ih => exact List.mem_append_left _ ih
  | right _ _ _ ih | both _ _ ih | either _ _ ih => exact List.mem_append_right _ ih
  | condition _ ih => exact List.mem_append_left _ (List.mem_append_left _ ih)
  | accepted _ _ ih => exact List.mem_append_left _ (List.mem_append_right _ ih)
  | rejected _ _ ih => exact List.mem_append_right _ ih

/-- Scopes that agree on the names an expression lists give it the same value or the same error. -/
theorem evaluate_congr {values values' : String → Evaluated} {expression : Expression}
    (agree : ∀ name ∈ expression.identifiers, values name = values' name) :
    expression.evaluate values = expression.evaluate values' := by
  rw [evaluate_eq_run, evaluate_eq_run]
  refine run_congr fun name asks => agree name ?_
  exact (demands_iff_asks.mpr asks).mem_identifiers

/-- An error that is not one of an operation is the answer to the question for a listed name. -/
theorem exists_identifier_of_error {values : String → Evaluated} {expression : Expression}
    {error : EvaluationError} (failed : expression.evaluate values = .error error) :
    error.OfOperation ∨ ∃ name ∈ expression.identifiers, values name = .error error := by
  rw [evaluate_eq_run] at failed
  rcases run_eq_error expression.raises_inquiry failed with own | ⟨name, asks, unanswered⟩
  · exact .inl own
  · exact .inr ⟨name, (demands_iff_asks.mpr asks).mem_identifiers, unanswered⟩

theorem lookup_eq_error_iff {scope : List (String × Constant)} {name : String} {error : EvaluationError} :
    lookup scope name = .error error ↔ scope.lookup name = none ∧ error = .unknownIdentifier name := by
  cases found : scope.lookup name <;> simp [lookup, found, eq_comm]

/-- Of a scope only the names that an expression lists are read: where two scopes agree on them, by
the same value or by none, the expression has the same value or the same error. A name that is
reported as unknown is listed and has no value in the scope. -/
theorem evaluate_reads_identifiers (expression : Expression) :
    (∀ scope scope' : List (String × Constant),
      (∀ name ∈ expression.identifiers, scope.lookup name = scope'.lookup name) →
        expression.evaluate (lookup scope) = expression.evaluate (lookup scope')) ∧
    (∀ (scope : List (String × Constant)) (name : String),
      expression.evaluate (lookup scope) = .error (.unknownIdentifier name) →
        name ∈ expression.identifiers ∧ scope.lookup name = none) := by
  constructor
  · intro scope scope' agree
    refine evaluate_congr fun name listed => ?_
    simp only [lookup, agree name listed]
  · intro scope name failed
    rcases exists_identifier_of_error failed with own | ⟨other, listed, unanswered⟩
    · cases own
    · obtain ⟨absent, same⟩ := lookup_eq_error_iff.mp unanswered
      cases same
      exact ⟨listed, absent⟩

/-- `A ? 1 : B` without `B` is the same in scopes that differ elsewhere, and `B` is reported only
where `A` asks for it. -/
theorem evaluate_reads_identifiers_skipped :
    (∀ name ∈ (conditional (identifier "A") (literal (.integer .int 1)) (identifier "B")).identifiers,
      [("A", Constant.integer .int 0)].lookup name =
        [("A", Constant.integer .int 0), ("C", .bool true)].lookup name) ∧
    (conditional (identifier "A") (literal (.integer .int 1)) (identifier "B")).evaluate
        (lookup [("A", .integer .int 0)]) =
      (conditional (identifier "A") (literal (.integer .int 1)) (identifier "B")).evaluate
        (lookup [("A", .integer .int 0), ("C", .bool true)]) ∧
    (conditional (identifier "A") (literal (.integer .int 1)) (identifier "B")).evaluate
        (lookup [("A", .integer .int 0)]) = .error (.unknownIdentifier "B") ∧
    "B" ∈ (conditional (identifier "A") (literal (.integer .int 1)) (identifier "B")).identifiers ∧
    [("A", Constant.integer .int 0)].lookup "B" = none := by
  have agree : ∀ name ∈ (conditional (identifier "A") (literal (.integer .int 1)) (identifier "B")).identifiers,
      [("A", Constant.integer .int 0)].lookup name =
        [("A", Constant.integer .int 0), ("C", .bool true)].lookup name := by
    decide
  have unknown : (conditional (identifier "A") (literal (.integer .int 1)) (identifier "B")).evaluate
      (lookup [("A", .integer .int 0)]) = .error (.unknownIdentifier "B") := rfl
  obtain ⟨same, reported⟩ :=
    evaluate_reads_identifiers (conditional (identifier "A") (literal (.integer .int 1)) (identifier "B"))
  exact ⟨agree, same _ _ agree, unknown, reported _ _ unknown⟩

end Expression

end Interop
