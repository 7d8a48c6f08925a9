import Interop.Proofs.Expression.Arithmetic
import Interop.Proofs.Expression.Precedence

/-! Integer constants written with a sign. A minus sign is an operator of its own, applied to a
literal that takes its kind from its absolute value. Below zero the absolute value of every
number but the least one is a number of the same kind, and its negative is the constant. The
absolute value of the least number belongs to an unsigned kind, whose negative is a `long` or
nothing at all. -/
namespace Interop

open Expression

def IntegerKind.signedNumeral (kind : IntegerKind) (n : Int) : List Char :=
  if n < 0 then '-' :: kind.numeral n.natAbs else kind.numeral n.natAbs

namespace Expression

variable {kind : IntegerKind} {word : BitVec kind.width}

theorem evaluateText_of_parse {text : String} {expression : Expression} (scope : List (String × Constant))
    (parsed : parse text = .ok expression) : evaluateText scope text = expression.evaluate (lookup scope) := by
  delta evaluateText
  rw [parsed]

/-- What an expression is written as evaluates to its value. -/
theorem evaluateText_written (scope : List (String × Constant)) (expression : Expression)
    (writable : expression.isWritable = true) :
    evaluateText scope (String.ofList expression.written) = expression.evaluate (lookup scope) := by
  have read := accepts_complete writable (Nat.le_succ expression.written.length)
  exact evaluateText_of_parse scope (parse_of_accepts (by rwa [String.toList_ofList]))

theorem isSigned_of_neg (negative : kind.value word < 0) : kind.isSigned = true := by
  have lower := (kind.value_bounds word).1
  cases kind <;> first | rfl | exact absurd (Int.lt_of_le_of_lt lower negative) (Int.lt_irrefl 0)

/-- The absolute value of a negative number is a number of the kind, unless it is the least one. -/
theorem value_ofInt_neg (negative : kind.value word < 0) (above : kind.value word ≠ kind.least) :
    kind.value (BitVec.ofInt kind.width (-kind.value word)) = -kind.value word := by
  have signed := isSigned_of_neg negative
  have lower := (kind.value_bounds word).1
  have balanced : kind.isSigned = true → (kind.greatest : Int) = -kind.least - 1 := by cases kind <;> decide
  refine IntegerKind.convert_eq_self ?_ ?_
  · omega
  · rw [balanced signed]
    omega

theorem negate?_signed (signed : kind.isSigned = true) :
    (Constant.integer kind word).negate? = some (kind.wrap (-kind.value word)) := by
  cases kind <;> first | rfl | cases signed

theorem evaluateText_of_nonneg (scope : List (String × Constant)) (nonneg : 0 ≤ kind.value word) :
    evaluateText scope (String.ofList (kind.signedNumeral (kind.value word))) = .ok (.integer kind word) := by
  have absolute : (kind.value word).natAbs = (kind.value word).toNat := by omega
  rw [IntegerKind.signedNumeral, if_neg (Int.not_lt.mpr nonneg), absolute]
  exact evaluateText_written scope (literal (.integer kind word)) (decide_eq_true nonneg)

theorem evaluateText_of_neg (scope : List (String × Constant)) (negative : kind.value word < 0)
    (above : kind.value word ≠ kind.least) :
    evaluateText scope (String.ofList (kind.signedNumeral (kind.value word))) = .ok (.integer kind word) := by
  have magnitude := value_ofInt_neg negative above
  have nonneg : 0 ≤ kind.value (BitVec.ofInt kind.width (-kind.value word)) := by omega
  have absolute : (kind.value word).natAbs = (kind.value (BitVec.ofInt kind.width (-kind.value word))).toNat := by
    omega
  rw [IntegerKind.signedNumeral, if_pos negative, absolute]
  have read := evaluateText_written scope
    (unary .negate (literal (.integer kind (BitVec.ofInt kind.width (-kind.value word))))) (decide_eq_true nonneg)
  refine read.trans ((evaluate_unary .negate rfl).trans ?_)
  simp only [Constant.applyUnary, negate?_signed (isSigned_of_neg negative), magnitude, Int.neg_neg,
    IntegerKind.wrap, IntegerKind.ofInt_value]

/-- The least `int` is the negative of a `uint`. -/
theorem evaluateText_least_int (scope : List (String × Constant)) :
    evaluateText scope (String.ofList (IntegerKind.int.signedNumeral IntegerKind.int.least)) =
      .ok (IntegerKind.long.wrap IntegerKind.int.least) := by
  have text : String.ofList (IntegerKind.int.signedNumeral IntegerKind.int.least) = "-2147483648" := by
    decide +kernel
  have parsed : parse "-2147483648" = .ok (unary .negate (literal (.integer .uint 2147483648))) := by
    decide +kernel
  rw [text, evaluateText_of_parse scope parsed, evaluate_unary .negate rfl]
  rfl

/-- The least `long` would be the negative of a `ulong`. -/
theorem evaluateText_least_long (scope : List (String × Constant)) :
    evaluateText scope (String.ofList (IntegerKind.long.signedNumeral IntegerKind.long.least)) =
      invalidOperand "-" (IntegerKind.ulong.wrap (-IntegerKind.long.least)) := by
  have text : String.ofList (IntegerKind.long.signedNumeral IntegerKind.long.least) =
      "-9223372036854775808L" := by
    decide +kernel
  have parsed : parse "-9223372036854775808L" =
      .ok (unary .negate (literal (.integer .ulong 9223372036854775808))) := by
    decide +kernel
  rw [text, evaluateText_of_parse scope parsed, evaluate_unary .negate rfl]
  rfl

theorem evaluateText_least_ne (scope : List (String × Constant)) (signed : kind.isSigned = true)
    (least : kind.value word = kind.least) :
    evaluateText scope (String.ofList (kind.signedNumeral (kind.value word))) ≠ .ok (.integer kind word) := by
  rw [least]
  cases kind with
  | int =>
    rw [evaluateText_least_int]
    rintro ⟨⟩
  | long =>
    rw [evaluateText_least_long]
    rintro ⟨⟩
  | _ => cases signed

/-- An integer constant evaluates to itself, whatever identifiers there are, unless it is the
least one of a signed kind. The least `int` becomes a `long` and the least `long` an error. -/
theorem evaluateText_signedNumeral (scope : List (String × Constant)) (kind : IntegerKind)
    (word : BitVec kind.width) :
    (evaluateText scope (String.ofList (kind.signedNumeral (kind.value word))) = .ok (.integer kind word) ↔
      ¬ (kind.isSigned = true ∧ kind.value word = kind.least)) ∧
    evaluateText scope (String.ofList (IntegerKind.int.signedNumeral IntegerKind.int.least)) =
      .ok (IntegerKind.long.wrap IntegerKind.int.least) ∧
    evaluateText scope (String.ofList (IntegerKind.long.signedNumeral IntegerKind.long.least)) =
      invalidOperand "-" (IntegerKind.ulong.wrap (-IntegerKind.long.least)) := by
  refine ⟨⟨fun same least => evaluateText_least_ne scope least.1 least.2 same, fun other => ?_⟩,
    evaluateText_least_int scope, evaluateText_least_long scope⟩
  by_cases negative : kind.value word < 0
  · exact evaluateText_of_neg scope negative fun least => other ⟨isSigned_of_neg negative, least⟩
  · exact evaluateText_of_nonneg scope (Int.not_lt.mp negative)

/-- The least `int` does not evaluate to itself. -/
theorem not_always_itself : ¬ ∀ (kind : IntegerKind) (word : BitVec kind.width),
    evaluateText [] (String.ofList (kind.signedNumeral (kind.value word))) = .ok (.integer kind word) := by
  intro always
  have least : IntegerKind.int.value (BitVec.ofInt 32 (-2147483648)) = IntegerKind.int.least := by decide
  exact evaluateText_least_ne [] rfl least (always .int (BitVec.ofInt 32 (-2147483648)))

end Expression

end Interop
