import Interop.Expression.Evaluation

/-! What operators make of values. The types of the operands decide whether an operator can be
applied and which type its result has, and all that can go wrong beyond that is a division by
zero. An operation never asks for a name, so its errors are about its operands. -/
namespace Interop

inductive EvaluationError.OfOperation : EvaluationError → Prop where
  | divisionByZero : OfOperation .divisionByZero
  | invalidOperand (operator : String) (operand : Constant) : OfOperation (.invalidOperand operator operand)

def UnaryOperator.resultType? : UnaryOperator → ConstantType → Option ConstantType
  | .not, .string => none
  | .not, _ => some .bool
  | .plus, .number kind => some (.number kind)
  | .negate, .number (.integer .uint) => some (.number (.integer .long))
  | .negate, .number (.integer .ulong) => none
  | .negate, .number kind => some (.number kind)
  | .complement, .number (.integer kind) => some (.number (.integer kind))
  | _, _ => none

def BinaryOperator.isComparison : BinaryOperator → Bool
  | .less | .lessOrEqual | .greater | .greaterOrEqual | .equal | .notEqual => true
  | _ => false

def BinaryOperator.metType (operator : BinaryOperator) (kind : Kind) : ConstantType :=
  if operator.isComparison then .bool else .number kind

/-- The result of an operator on operands that are brought to one kind. -/
def BinaryOperator.numericType? (operator : BinaryOperator) : ConstantType → ConstantType → Option ConstantType
  | .number first, .number second => some (operator.metType (first.promote second))
  | _, _ => none

def BinaryOperator.resultType? (operator : BinaryOperator) (left right : ConstantType) : Option ConstantType :=
  match operator with
  | .add => if left = .string ∨ right = .string then some .string else operator.numericType? left right
  | .equal | .notEqual =>
    if (left = .string ∨ left = .bool) ∧ left = right then some .bool else operator.numericType? left right
  | .bitAnd | .bitOr | .bitXor =>
    if left = .bool ∧ right = .bool then some .bool else operator.numericType? left right
  | .shiftLeft | .shiftRight => some left
  | _ => operator.numericType? left right

namespace Constant

/-- What an operation may come to: a constant of the given type or an error about operands. -/
inductive Outcome (type? : Option ConstantType) : Evaluated → Prop where
  | value {constant : Constant} (typed : type? = some constant.type) : Outcome type? (.ok constant)
  | failure {error : EvaluationError} (own : error.OfOperation) : Outcome type? (.error error)

namespace Outcome

variable {type? : Option ConstantType}

theorem invalid (operator : String) (operand : Constant) : Outcome type? (invalidOperand operator operand) :=
  .failure (.invalidOperand operator operand)

/-- What has no result otherwise blames an operand. -/
theorem getD {result? : Option Evaluated} (met : ∀ result, result? = some result → Outcome type? result)
    (operator : String) (operand : Constant) :
    Outcome type? (result?.getD (invalidOperand operator operand)) := by
  cases result? with
  | none => exact invalid operator operand
  | some result => exact met result rfl

/-- All results of an operation on operands of the same types are of one type. -/
theorem type_unique {result result' : Evaluated} {first second : Constant} (outcome : Outcome type? result)
    (outcome' : Outcome type? result') (given : result = .ok first) (given' : result' = .ok second) :
    first.type = second.type := by
  subst given given'
  cases outcome with
  | value typed =>
    cases outcome' with
    | value typed' => exact Option.some.inj (typed.symm.trans typed')

theorem ofOperation {error : EvaluationError} (outcome : Outcome type? (.error error)) : error.OfOperation := by
  cases outcome with
  | failure own => exact own

end Outcome

theorem type_of_kind? {constant : Constant} {kind : Kind} (number : constant.kind? = some kind) :
    constant.type = .number kind := by
  cases constant <;> cases number <;> rfl

theorem type_negate? {operand result : Constant} (found : operand.negate? = some result) :
    UnaryOperator.resultType? .negate operand.type = some result.type := by
  cases operand with
  | integer kind word => cases kind <;> cases found <;> rfl
  | single value | double value =>
    cases found
    rfl
  | bool value | string value => cases found

theorem type_complement? {operand result : Constant} (found : operand.complement? = some result) :
    UnaryOperator.resultType? .complement operand.type = some result.type := by
  cases operand <;> cases found
  rfl

theorem resultType?_not {operand : Constant} {truth : Bool} (counts : operand.truth? = some truth) :
    UnaryOperator.resultType? .not operand.type = some .bool := by
  cases operand with
  | string value => cases counts
  | _ => rfl

theorem outcome_unary (operator : UnaryOperator) (operand : Constant) :
    Outcome (operator.resultType? operand.type) (operand.applyUnary operator) := by
  cases operator <;> simp only [applyUnary] <;> split <;> try exact .invalid _ operand
  · next result found =>
    obtain ⟨kind, number, rfl⟩ := Option.map_eq_some_iff.mp found
    exact .value (by rw [type_of_kind? number]; rfl)
  · next result found => exact .value (type_negate? found)
  · next result found => exact .value (type_complement? found)
  · next result found =>
    obtain ⟨truth, counts, rfl⟩ := Option.map_eq_some_iff.mp found
    exact .value (resultType?_not counts)

theorem outcome_cast (type : CastType) (operand : Constant) :
    Outcome (some (.number type.kind)) (operand.cast type) := by
  unfold cast
  dsimp only
  split
  · next result found =>
    refine .value ?_
    split at found <;> next kind =>
      obtain ⟨_, _, rfl⟩ := Option.map_eq_some_iff.mp found
      rw [kind]
      rfl
  · exact .invalid _ operand

theorem outcome_shift (operator : BinaryOperator) (left right : Constant) :
    Outcome (some left.type) (shift operator left right) := by
  unfold shift
  split
  · exact .invalid _ right
  · split
    · exact .value rfl
    · exact .invalid _ left

theorem outcome_integral {operator : BinaryOperator} {kind : IntegerKind} {left right : Wide} {result : Evaluated}
    (met : integral operator kind left right = some result) :
    Outcome (some (operator.metType (.integer kind))) result := by
  cases operator
  case divide | remainder =>
    simp only [integral] at met
    split at met <;> cases met
    · exact .failure .divisionByZero
    · exact .value rfl
  all_goals cases met
  all_goals exact .value rfl

theorem outcome_fractional {operator : BinaryOperator} {kind : Kind} {round : Float → Constant}
    (typed : ∀ value, (round value).type = .number kind) {left right : Float} {result : Evaluated}
    (met : fractional operator round left right = some result) :
    Outcome (some (operator.metType kind)) result := by
  cases operator
  case divide | remainder =>
    simp only [fractional, Option.some.injEq] at met
    split at met <;> cases met
    · exact .failure .divisionByZero
    · exact .value (congrArg some (typed _).symm)
  all_goals cases met
  case add | subtract | multiply => exact .value (congrArg some (typed _).symm)
  all_goals exact .value rfl

theorem outcome_numeric (operator : BinaryOperator) (left right : Constant) :
    Outcome (operator.numericType? left.type right.type) (numeric operator left right) := by
  unfold numeric
  split
  · exact .invalid _ left
  · exact .invalid _ right
  · next first second number number' =>
    rw [type_of_kind? number, type_of_kind? number']
    refine Outcome.getD (fun result met => ?_) _ _
    simp only [BinaryOperator.numericType?]
    split at met <;> next promoted =>
      obtain ⟨x, _, met⟩ := Option.bind_eq_some_iff.mp met
      obtain ⟨y, _, met⟩ := Option.bind_eq_some_iff.mp met
      rw [promoted]
      first
        | exact outcome_integral met
        | exact outcome_fractional (fun _ => rfl) met

/-- Strings and truth values have operations of their own; whatever else there is goes by numbers. -/
theorem outcome_binary (operator : BinaryOperator) (left right : Constant) :
    Outcome (operator.resultType? left.type right.type) (applyBinary operator left right) := by
  have numeric := outcome_numeric operator left right
  cases operator with
  | add | equal | notEqual | bitAnd | bitOr | bitXor =>
    cases left <;> cases right <;> first | exact numeric | exact .value rfl
  | shiftLeft | shiftRight => exact outcome_shift _ left right
  | _ => exact numeric

/-- Conditions fail on strings only. -/
theorem ofOperation_of_condition {operator : String} {operand : Constant} {error : EvaluationError}
    (failed : operand.condition operator = .error error) : error.OfOperation := by
  unfold condition at failed
  split at failed
  · cases failed
  · cases failed
    exact .invalidOperand operator operand

end Constant

end Interop
