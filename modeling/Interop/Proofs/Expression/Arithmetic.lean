import Interop.Expression.Evaluation
import Interop.Proofs.Constant.Integer

/-! Arithmetic of integer constants. Operands meet in words of 128 bits, which some products
overflow; since the result is wrapped into a kind of at most 64 bits, it is still the exact
result modulo the size of the kind's range. Shifts stay in the kind of the left operand. -/
namespace Interop

/-- The operators that respect congruence modulo the size of a kind's range. -/
inductive ModularOperator where
  | add
  | subtract
  | multiply
  | bitAnd
  | bitOr
  | bitXor
  deriving DecidableEq, Repr

namespace ModularOperator

def operator : ModularOperator → BinaryOperator
  | .add => .add
  | .subtract => .subtract
  | .multiply => .multiply
  | .bitAnd => .bitAnd
  | .bitOr => .bitOr
  | .bitXor => .bitXor

/-- The result on integers without bounds, whose two's complement has no first bit. -/
def exact : ModularOperator → Int → Int → Int
  | .add => (· + ·)
  | .subtract => (· - ·)
  | .multiply => (· * ·)
  | .bitAnd => Int.land
  | .bitOr => Int.lor
  | .bitXor => Int.xor

end ModularOperator

/-- The places that a shift by `count` moves the bits of a word of the kind. -/
def IntegerKind.places (kind : IntegerKind) (count : Int) : Nat := (count % kind.width).toNat

namespace Constant

variable {first second : IntegerKind}

theorem numeric_integer (operator : BinaryOperator) (x : BitVec first.width) (y : BitVec second.width) :
    numeric operator (.integer first x) (.integer second y) =
      (integral operator (first.promote second) (BitVec.ofInt 128 (first.value x))
        (BitVec.ofInt 128 (second.value y))).getD
        (invalidOperand operator.symbol (.integer second y)) := rfl

/-- The word of 128 bits may have overflowed, but the kind sees only its last bits. -/
theorem applyBinary_modular (operator : ModularOperator) (x : BitVec first.width)
    (y : BitVec second.width) :
    applyBinary operator.operator (.integer first x) (.integer second y) =
      .ok ((first.promote second).wrap (operator.exact (first.value x) (second.value y))) := by
  have narrow : (first.promote second).width ≤ 128 :=
    Nat.le_trans (IntegerKind.width_le _) (by decide)
  have started : applyBinary operator.operator (.integer first x) (.integer second y) =
      numeric operator.operator (.integer first x) (.integer second y) := by
    cases operator <;> rfl
  rw [started, numeric_integer, ← IntegerKind.wrap_toInt_ofInt _ narrow]
  cases operator with
  | add => rw [ModularOperator.exact, BitVec.ofInt_add]; rfl
  | subtract => rw [ModularOperator.exact, IntegerKind.ofInt_sub]; rfl
  | multiply => rw [ModularOperator.exact, BitVec.ofInt_mul]; rfl
  | bitAnd => rw [ModularOperator.exact, IntegerKind.ofInt_land]; rfl
  | bitOr => rw [ModularOperator.exact, IntegerKind.ofInt_lor]; rfl
  | bitXor => rw [ModularOperator.exact, IntegerKind.ofInt_xor]; rfl

/-- The widths are powers of two, so masking the count is dividing it. -/
theorem toNat_masked (kind : IntegerKind) (count : Int) :
    (BitVec.ofInt 128 count &&& BitVec.ofNat 128 (kind.width - 1)).toNat = kind.places count := by
  have mask : ∃ bits, kind.width = 2 ^ bits ∧ bits < 128 := by
    cases kind
    · exact ⟨5, by decide, by decide⟩
    · exact ⟨5, by decide, by decide⟩
    · exact ⟨6, by decide, by decide⟩
    · exact ⟨6, by decide, by decide⟩
  obtain ⟨bits, size, few⟩ := mask
  have divides : ((2 ^ bits : Nat) : Int) ∣ ((2 ^ 128 : Nat) : Int) :=
    Int.natCast_dvd_natCast.mpr (Nat.pow_dvd_pow 2 few.le)
  have below : 2 ^ bits - 1 < 2 ^ 128 :=
    Nat.lt_of_le_of_lt (Nat.sub_le _ _) (Nat.pow_lt_pow_right (by decide) few)
  rw [IntegerKind.places, size, BitVec.toNat_and, BitVec.toNat_ofNat, Nat.mod_eq_of_lt below,
    Nat.and_two_pow_sub_one_eq_mod, BitVec.toNat_ofInt]
  have nonneg : 0 ≤ count % ((2 ^ 128 : Nat) : Int) := Int.emod_nonneg _ (by decide)
  apply Int.ofNat.inj
  simp only [Int.ofNat_eq_natCast]
  rw [Int.natCast_mod, Int.toNat_of_nonneg nonneg, Int.emod_emod_of_dvd _ divides]
  have positive : (0 : Int) < ((2 ^ bits : Nat) : Int) := by exact_mod_cast Nat.two_pow_pos bits
  exact (Int.toNat_of_nonneg (Int.emod_nonneg _ (ne_of_gt positive))).symm

theorem value_shiftLeft (kind : IntegerKind) (word : BitVec kind.width) (places : Nat) :
    kind.value (word <<< places) ≡ kind.value word * 2 ^ places [ZMOD 2 ^ kind.width] := by
  have moved : (((word <<< places).toNat : Nat) : Int) ≡ word.toNat * 2 ^ places [ZMOD 2 ^ kind.width] := by
    rw [BitVec.toNat_shiftLeft, Nat.shiftLeft_eq]
    push_cast
    exact Int.mod_modEq _ _
  have start : kind.value word * 2 ^ places ≡ word.toNat * 2 ^ places [ZMOD 2 ^ kind.width] :=
    (kind.value_congruent word).mul_right _
  exact (kind.value_congruent _).trans (moved.trans start.symm)

/-- Bits that leave on the right are lost, so the quotient is rounded down. -/
theorem value_shiftRight (kind : IntegerKind) (word : BitVec kind.width) (places : Nat) :
    kind.value (if kind.isSigned then word.sshiftRight places else word >>> places) =
      kind.value word / 2 ^ places := by
  unfold IntegerKind.value
  split
  · rw [BitVec.toInt_sshiftRight, Int.shiftRight_eq_div_pow]
    push_cast
    rfl
  · rw [BitVec.toNat_ushiftRight, Nat.shiftRight_eq_div_pow]
    push_cast
    rfl

theorem value_not (kind : IntegerKind) (word : BitVec kind.width) :
    kind.value (~~~word) ≡ (kind.value word).lnot [ZMOD 2 ^ kind.width] := by
  have opposite : (kind.value word).lnot = -1 - kind.value word := by
    cases kind.value word with
    | ofNat n => simp only [Int.lnot, Int.negSucc_eq, Int.ofNat_eq_natCast]; ring
    | negSucc n => simp only [Int.lnot, Int.negSucc_eq]; ring
  have inverted : (((~~~word).toNat : Nat) : Int) = 2 ^ kind.width - 1 - word.toNat := by
    have size := word.isLt
    rw [BitVec.toNat_not]
    push_cast [Nat.sub_sub, show 1 + word.toNat ≤ 2 ^ kind.width by omega]
    ring
  have size : (2 ^ kind.width - 1 - word.toNat : Int) ≡ -1 - word.toNat [ZMOD 2 ^ kind.width] := by
    apply Int.ModEq.symm
    rw [Int.modEq_iff_dvd]
    exact ⟨1, by ring⟩
  rw [opposite]
  refine (kind.value_congruent _).trans ?_
  rw [inverted]
  exact size.trans ((kind.value_congruent word).symm.sub_left _)

end Constant

namespace Expression

variable {resolve : String → Evaluated} {left right : Expression}

/-- The value of an expression is an integer of the kind: the only number of the kind's range
that is congruent to the exact result. -/
def Computes (resolve : String → Evaluated) (expression : Expression) (kind : IntegerKind)
    (exact : Int) : Prop :=
  ∃ word, expression.evaluate resolve = .ok (.integer kind word) ∧
    kind.Represents exact (kind.value word) ∧
    ∀ value, kind.Represents exact value → value = kind.value word

theorem computes_of_congruent {expression : Expression} {kind : IntegerKind} {exact : Int}
    {word : BitVec kind.width} (evaluated : expression.evaluate resolve = .ok (.integer kind word))
    (congruent : kind.value word ≡ exact [ZMOD 2 ^ kind.width]) :
    Computes resolve expression kind exact := by
  have represents : kind.Represents exact (kind.value word) :=
    ⟨(kind.value_bounds word).1, (kind.value_bounds word).2, congruent⟩
  exact ⟨word, evaluated, represents, fun value other => other.unique represents⟩

theorem computes_of_wrap {expression : Expression} {kind : IntegerKind} {exact : Int}
    (evaluated : expression.evaluate resolve = .ok (kind.wrap exact)) :
    Computes resolve expression kind exact :=
  computes_of_congruent evaluated (kind.represents_convert exact).congruent

theorem ofExcept_eq {α : Type} (result : Except EvaluationError α) :
    (MonadExcept.ofExcept result : Except EvaluationError α) = result := by
  cases result <;> rfl

theorem evaluate_unary {value : Constant} (operator : UnaryOperator)
    (operand : left.evaluate resolve = .ok value) :
    (unary operator left).evaluate resolve = value.applyUnary operator := by
  simp only [evaluate, operand]
  exact ofExcept_eq _

/-- Apart from the logical operators, both operands are evaluated first. -/
theorem evaluate_binary {x y : Constant} {operator : BinaryOperator} (strict : operator ≠ .and ∧ operator ≠ .or)
    (leftValue : left.evaluate resolve = .ok x) (rightValue : right.evaluate resolve = .ok y) :
    (binary operator left right).evaluate resolve = Constant.applyBinary operator x y := by
  obtain ⟨notAnd, notOr⟩ := strict
  simp only [evaluate, leftValue, rightValue]
  exact ofExcept_eq _

variable {first second : IntegerKind} {x : BitVec first.width} {y : BitVec second.width}

theorem computes_modular (leftValue : left.evaluate resolve = .ok (.integer first x))
    (rightValue : right.evaluate resolve = .ok (.integer second y)) (operator : ModularOperator) :
    Computes resolve (.binary operator.operator left right) (first.promote second)
      (operator.exact (first.value x) (second.value y)) := by
  apply computes_of_wrap
  have strict : operator.operator ≠ .and ∧ operator.operator ≠ .or := by cases operator <;> decide
  rw [evaluate_binary strict leftValue rightValue, Constant.applyBinary_modular]

theorem computes_shiftLeft (leftValue : left.evaluate resolve = .ok (.integer first x))
    (rightValue : right.evaluate resolve = .ok (.integer second y)) :
    Computes resolve (.binary .shiftLeft left right) first
      (first.value x * 2 ^ first.places (second.value y)) := by
  refine computes_of_congruent ?_ (Constant.value_shiftLeft first x (first.places (second.value y)))
  rw [evaluate_binary (by decide) leftValue rightValue, ← Constant.toNat_masked]
  rfl

theorem evaluate_shiftRight (leftValue : left.evaluate resolve = .ok (.integer first x))
    (rightValue : right.evaluate resolve = .ok (.integer second y)) :
    ∃ word, (binary .shiftRight left right).evaluate resolve = .ok (.integer first word) ∧
      first.value word = first.value x / 2 ^ first.places (second.value y) := by
  refine ⟨_, ?_, Constant.value_shiftRight first x _⟩
  rw [evaluate_binary (by decide) leftValue rightValue, ← Constant.toNat_masked]
  rfl

theorem computes_complement (leftValue : left.evaluate resolve = .ok (.integer first x)) :
    Computes resolve (.unary .complement left) first (first.value x).lnot :=
  computes_of_congruent (evaluate_unary .complement leftValue) (Constant.value_not first x)

theorem computes_negate (leftValue : left.evaluate resolve = .ok (.integer first x))
    (signed : first.isSigned) : Computes resolve (.unary .negate left) first (-first.value x) := by
  apply computes_of_wrap
  rw [evaluate_unary .negate leftValue]
  cases first with
  | int => rfl
  | long => rfl
  | uint => contradiction
  | ulong => contradiction

/-- A `long` has room for the negative of every `uint`. -/
theorem evaluate_negate_uint {x : BitVec IntegerKind.uint.width}
    (leftValue : left.evaluate resolve = .ok (.integer .uint x)) :
    ∃ word, (unary .negate left).evaluate resolve = .ok (.integer .long word) ∧
      IntegerKind.long.value word = -IntegerKind.uint.value x := by
  obtain ⟨lower, upper⟩ := IntegerKind.uint.value_bounds x
  simp only [IntegerKind.least, IntegerKind.greatest, IntegerKind.isSigned, IntegerKind.width] at lower upper
  refine ⟨_, evaluate_unary .negate leftValue, ?_⟩
  apply IntegerKind.convert_eq_self
  · simp [IntegerKind.least, IntegerKind.isSigned, IntegerKind.width] at upper ⊢
    omega
  · simp [IntegerKind.greatest, IntegerKind.isSigned, IntegerKind.width] at lower ⊢
    omega

/-- Integer operators of every kind are exact modulo the size of the result's range; shifts to
the right and the negative of a `uint` are exact without restriction. -/
theorem integer_operations_exact (leftValue : left.evaluate resolve = .ok (.integer first x))
    (rightValue : right.evaluate resolve = .ok (.integer second y)) :
    (∀ operator : ModularOperator, Computes resolve (.binary operator.operator left right)
      (first.promote second) (operator.exact (first.value x) (second.value y))) ∧
    Computes resolve (.binary .shiftLeft left right) first
      (first.value x * 2 ^ first.places (second.value y)) ∧
    (∃ word, (binary .shiftRight left right).evaluate resolve = .ok (.integer first word) ∧
      first.value word = first.value x / 2 ^ first.places (second.value y)) ∧
    Computes resolve (.unary .complement left) first (first.value x).lnot ∧
    (first.isSigned → Computes resolve (.unary .negate left) first (-first.value x)) ∧
    (first = .uint → ∃ word, (unary .negate left).evaluate resolve = .ok (.integer .long word) ∧
      IntegerKind.long.value word = -first.value x) := by
  refine ⟨computes_modular leftValue rightValue, computes_shiftLeft leftValue rightValue,
    evaluate_shiftRight leftValue rightValue, computes_complement leftValue, computes_negate leftValue, ?_⟩
  rintro rfl
  exact evaluate_negate_uint leftValue

/-- The square of the greatest `ulong` needs all 128 bits, and the greatest count moves by 63
places. -/
theorem integer_operations_exact_allOnes :
    (literal (.integer .ulong (BitVec.allOnes 64))).evaluate (lookup []) =
      .ok (.integer .ulong (BitVec.allOnes 64)) ∧
    Computes (lookup []) (.binary .multiply (literal (.integer .ulong (BitVec.allOnes 64)))
      (literal (.integer .ulong (BitVec.allOnes 64)))) .ulong ((2 ^ 64 - 1) * (2 ^ 64 - 1)) ∧
    Computes (lookup []) (.binary .shiftLeft (literal (.integer .ulong (BitVec.allOnes 64)))
      (literal (.integer .ulong (BitVec.allOnes 64)))) .ulong ((2 ^ 64 - 1) * 2 ^ 63) := by
  have evaluated : (literal (.integer .ulong (BitVec.allOnes 64))).evaluate (lookup []) =
      .ok (.integer .ulong (BitVec.allOnes 64)) := rfl
  obtain ⟨modular, shifted, _⟩ := integer_operations_exact evaluated evaluated
  exact ⟨evaluated, modular .multiply, shifted⟩

end Expression

end Interop
