import Interop.Proofs.Expression.Arithmetic

/-! Operators that see the order of numbers. Promotion picks the kind of the result, but the
operands are divided and compared as they are: words of 128 bits hold them exactly. Bringing
the operands to the promoted kind first is something else only where that kind is `ulong` and
one operand is negative. -/
namespace Interop

/-- The operators that do not respect congruence. -/
inductive OrderedOperator where
  | divide
  | remainder
  | less
  | lessOrEqual
  | greater
  | greaterOrEqual
  | equal
  | notEqual
  deriving DecidableEq, Repr

namespace OrderedOperator

def operator : OrderedOperator → BinaryOperator
  | .divide => .divide
  | .remainder => .remainder
  | .less => .less
  | .lessOrEqual => .lessOrEqual
  | .greater => .greater
  | .greaterOrEqual => .greaterOrEqual
  | .equal => .equal
  | .notEqual => .notEqual

/-- What the operator makes of two numbers; a quotient or remainder is wrapped into the kind. -/
def apply (kind : IntegerKind) : OrderedOperator → Int → Int → Evaluated
  | .divide, n, m => if m = 0 then .error .divisionByZero else .ok (kind.wrap (n.tdiv m))
  | .remainder, n, m => if m = 0 then .error .divisionByZero else .ok (kind.wrap (n.tmod m))
  | .less, n, m => .ok (.bool (n < m))
  | .lessOrEqual, n, m => .ok (.bool (n ≤ m))
  | .greater, n, m => .ok (.bool (m < n))
  | .greaterOrEqual, n, m => .ok (.bool (m ≤ n))
  | .equal, n, m => .ok (.bool (n = m))
  | .notEqual, n, m => .ok (.bool (n ≠ m))

/-- Converting the operands makes no difference. -/
def Indifferent (kind : IntegerKind) (n m : Int) : Prop :=
  ∀ operator : OrderedOperator, operator.apply kind n m = operator.apply kind (kind.convert n) (kind.convert m)

theorem apply_eq_divisionByZero (operator : OrderedOperator) (kind : IntegerKind) (n m : Int) :
    operator.apply kind n m = .error .divisionByZero ↔
      (operator = .divide ∨ operator = .remainder) ∧ m = 0 := by
  cases operator <;> simp [apply]

end OrderedOperator

namespace IntegerKind

/-- Every number of every kind lies between these bounds. -/
theorem value_within (kind : IntegerKind) (word : BitVec kind.width) :
    -2 ^ 63 ≤ kind.value word ∧ kind.value word < 2 ^ 64 := by
  obtain ⟨lower, upper⟩ := kind.value_bounds word
  cases kind <;> simp [least, greatest, isSigned, width] at lower upper ⊢ <;> omega

theorem toInt_wide {n : Int} (lower : -2 ^ 127 ≤ n) (upper : n < 2 ^ 127) :
    (BitVec.ofInt 128 n).toInt = n :=
  BitVec.toInt_ofInt_eq_self (by decide) lower upper

/-- The promoted kind has room for both kinds unless it is `ulong`, which one of them is. -/
theorem promote_range (first second : IntegerKind) :
    ((first.promote second).least ≤ first.least ∧ first.greatest ≤ (first.promote second).greatest ∧
      (first.promote second).least ≤ second.least ∧ second.greatest ≤ (first.promote second).greatest) ∨
    (first.promote second = .ulong ∧ (first.least = 0 ∨ second.least = 0)) := by
  cases first <;> cases second <;> decide

theorem promote_room (first second : IntegerKind) (x : BitVec first.width) (y : BitVec second.width) :
    ((first.promote second).convert (first.value x) = first.value x ∧
      (first.promote second).convert (second.value y) = second.value y) ∨
    (first.promote second = .ulong ∧ (0 ≤ first.value x ∨ 0 ≤ second.value y)) := by
  obtain ⟨lower, upper⟩ := first.value_bounds x
  obtain ⟨lower', upper'⟩ := second.value_bounds y
  rcases promote_range first second with ⟨least, greatest, least', greatest'⟩ | ⟨ulong, unsigned⟩
  · refine Or.inl ⟨convert_eq_self ?_ ?_, convert_eq_self ?_ ?_⟩ <;> omega
  · exact Or.inr ⟨ulong, by omega⟩

theorem convert_ulong {n : Int} (lower : -2 ^ 64 ≤ n) (upper : n < 2 ^ 64) :
    IntegerKind.ulong.convert n = if n < 0 then n + 2 ^ 64 else n := by
  have represents := IntegerKind.ulong.represents_convert n
  refine represents.unique ?_
  split
  · refine ⟨by simp [least, isSigned]; omega, by simp [greatest, isSigned, width]; omega, ?_⟩
    rw [Int.modEq_iff_dvd]
    exact ⟨-1, by simp [width]⟩
  · exact ⟨by simp [least, isSigned]; omega, by simp [greatest, isSigned, width]; omega, Int.ModEq.refl n⟩

end IntegerKind

namespace Constant

variable {first second : IntegerKind}

/-- Words of 128 bits hold the operands, so nothing is lost before the result is wrapped. -/
theorem applyBinary_ordered (operator : OrderedOperator) (x : BitVec first.width) (y : BitVec second.width) :
    applyBinary operator.operator (.integer first x) (.integer second y) =
      operator.apply (first.promote second) (first.value x) (second.value y) := by
  obtain ⟨lower, upper⟩ := first.value_within x
  obtain ⟨lower', upper'⟩ := second.value_within y
  have left : (BitVec.ofInt 128 (first.value x)).toInt = first.value x :=
    IntegerKind.toInt_wide (by omega) (by omega)
  have right : (BitVec.ofInt 128 (second.value y)).toInt = second.value y :=
    IntegerKind.toInt_wide (by omega) (by omega)
  have started : applyBinary operator.operator (.integer first x) (.integer second y) =
      numeric operator.operator (.integer first x) (.integer second y) := by
    cases operator <;> rfl
  rw [started, numeric_integer]
  generalize BitVec.ofInt 128 (first.value x) = n at left
  generalize BitVec.ofInt 128 (second.value y) = m at right
  rw [← left, ← right]
  have zero : m.toInt = 0 ↔ m = 0#128 := by
    rw [← BitVec.toInt_inj]
    rfl
  have narrow : (first.promote second).width ≤ 128 :=
    Nat.le_trans (IntegerKind.width_le _) (by decide)
  cases operator with
  | divide =>
    by_cases none : m = 0#128
    · simp [OrderedOperator.operator, OrderedOperator.apply, integral, none]
    · have quotient := IntegerKind.wrap_toInt_ofInt (first.promote second) narrow (n.toInt.tdiv m.toInt)
      rw [BitVec.toInt_ofInt, ← BitVec.toInt_sdiv] at quotient
      simp [OrderedOperator.operator, OrderedOperator.apply, integral, none, zero, quotient]
  | remainder =>
    by_cases none : m = 0#128
    · simp [OrderedOperator.operator, OrderedOperator.apply, integral, none]
    · simp [OrderedOperator.operator, OrderedOperator.apply, integral, none, zero, BitVec.toInt_srem]
  | less => rfl
  | lessOrEqual => rfl
  | greater => rfl
  | greaterOrEqual => rfl
  | equal => simp [OrderedOperator.operator, OrderedOperator.apply, integral, BitVec.toInt_inj]
  | notEqual => simp [OrderedOperator.operator, OrderedOperator.apply, integral, BitVec.toInt_inj]

end Constant

namespace OrderedOperator

theorem indifferent_of_fixed {kind : IntegerKind} {n m : Int} (left : kind.convert n = n)
    (right : kind.convert m = m) : Indifferent kind n m := by
  intro operator
  rw [left, right]

/-- A negative dividend becomes a great one. As long as it stays below the divisor, it is the
remainder of both divisions. -/
theorem indifferent_ulong_left {n m : Int} (lower : -2 ^ 63 ≤ n) (negative : n < 0) (nonneg : 0 ≤ m)
    (upper : m < 2 ^ 64) : Indifferent .ulong n m ↔ n + 2 ^ 64 < m := by
  have great : IntegerKind.ulong.convert n = n + 2 ^ 64 := by
    rw [IntegerKind.convert_ulong (by omega) (by omega), if_pos negative]
  have same : IntegerKind.ulong.convert m = m := by
    rw [IntegerKind.convert_ulong (by omega) upper, if_neg (by omega)]
  constructor
  · intro indifferent
    have compared := indifferent .less
    rw [great, same] at compared
    simp only [apply, Except.ok.injEq, Constant.bool.injEq, decide_eq_decide] at compared
    exact compared.mp (by omega)
  · intro below operator
    rw [great, same]
    have quotient : n.tdiv m = 0 := by
      have opposite : (-n).tdiv m = 0 := Int.tdiv_eq_zero_of_lt (by omega) (by omega)
      rw [Int.neg_tdiv] at opposite
      omega
    have quotient' : (n + 2 ^ 64).tdiv m = 0 := Int.tdiv_eq_zero_of_lt (by omega) below
    have remainder : n.tmod m = n := by rw [Int.tmod_def, quotient]; omega
    have remainder' : (n + 2 ^ 64).tmod m = n + 2 ^ 64 := Int.tmod_eq_of_lt (by omega) below
    have wrapped : IntegerKind.ulong.wrap (n + 2 ^ 64) = IntegerKind.ulong.wrap n := by
      apply IntegerKind.wrap_congr
      rw [Int.modEq_iff_dvd]
      exact ⟨-1, by simp [IntegerKind.width]⟩
    cases operator with
    | divide => simp only [apply, quotient, quotient']
    | remainder => simp only [apply, remainder, remainder', wrapped]
    | less => simp only [apply, show n < m by omega, below]
    | lessOrEqual => simp only [apply, show n ≤ m by omega, below.le]
    | greater => simp only [apply, show ¬ m < n by omega, show ¬ m < n + 2 ^ 64 by omega]
    | greaterOrEqual => simp only [apply, show ¬ m ≤ n by omega, show ¬ m ≤ n + 2 ^ 64 by omega]
    | equal => simp only [apply, show ¬ n = m by omega, show ¬ n + 2 ^ 64 = m by omega]
    | notEqual => simp only [apply, ne_eq, show ¬ n = m by omega, show ¬ n + 2 ^ 64 = m by omega]

/-- A negative divisor always shows: where the comparisons agree, the quotient is one of the
great divisor but negative of the small one. -/
theorem not_indifferent_ulong_right {n m : Int} (nonneg : 0 ≤ n) (upper : n < 2 ^ 64)
    (lower : -2 ^ 63 ≤ m) (negative : m < 0) : ¬ Indifferent .ulong n m := by
  have great : IntegerKind.ulong.convert m = m + 2 ^ 64 := by
    rw [IntegerKind.convert_ulong (by omega) (by omega), if_pos negative]
  have same : IntegerKind.ulong.convert n = n := by
    rw [IntegerKind.convert_ulong (by omega) upper, if_neg (by omega)]
  intro indifferent
  have compared := indifferent .greater
  have divided := indifferent .divide
  rw [great, same] at compared divided
  simp only [apply, Except.ok.injEq, Constant.bool.injEq, decide_eq_decide] at compared
  have above : m + 2 ^ 64 < n := compared.mp (by omega)
  have once : n.tdiv (m + 2 ^ 64) = 1 := by
    rw [Int.tdiv_eq_ediv_of_nonneg nonneg]
    exact (Int.ediv_eq_iff_of_pos (by omega)).mpr ⟨by omega, by omega⟩
  simp only [apply, if_neg (show ¬ m = 0 by omega), if_neg (show ¬ m + 2 ^ 64 = 0 by omega), once,
    Except.ok.injEq] at divided
  have words : IntegerKind.ulong.convert (n.tdiv m) = IntegerKind.ulong.convert 1 :=
    Option.some.inj (congrArg Constant.integer? divided)
  have small : n.tdiv m = -(n / -m) :=
    calc n.tdiv m = n.tdiv (- -m) := by rw [Int.neg_neg]
      _ = -n.tdiv (-m) := Int.tdiv_neg n (-m)
      _ = -(n / -m) := by rw [Int.tdiv_eq_ediv_of_nonneg nonneg]
  have size : 0 ≤ n / -m ∧ n / -m ≤ n := ⟨Int.ediv_nonneg nonneg (by omega), Int.ediv_le_self _ nonneg⟩
  rw [small, IntegerKind.convert_ulong (by omega) (by omega), IntegerKind.convert_ulong (by omega) (by omega),
    if_neg (show ¬ (1 : Int) < 0 by omega)] at words
  have greatest : n / -m = 2 ^ 64 - 1 := by
    split at words <;> omega
  have product := Int.ediv_mul_le n (show -m ≠ 0 by omega)
  rw [greatest] at product
  omega

variable {first second : IntegerKind} (x : BitVec first.width) (y : BitVec second.width)

/-- When the operands might as well be converted first: they are numbers of the promoted kind,
or the left one is not but becomes one that is still below the right one. -/
theorem indifferent_iff :
    Indifferent (first.promote second) (first.value x) (second.value y) ↔
      ((first.promote second).convert (first.value x) = first.value x ∧
        (first.promote second).convert (second.value y) = second.value y) ∨
      (first.value x < 0 ∧ (first.promote second).convert (first.value x) < second.value y) := by
  obtain ⟨lower, upper⟩ := first.value_within x
  obtain ⟨lower', upper'⟩ := second.value_within y
  rcases IntegerKind.promote_room first second x y with ⟨left, right⟩ | ⟨ulong, signs⟩
  · exact iff_of_true (indifferent_of_fixed left right) (Or.inl ⟨left, right⟩)
  rw [ulong, IntegerKind.convert_ulong (by omega) upper, IntegerKind.convert_ulong (by omega) upper']
  by_cases left : first.value x < 0
  · have right : ¬ second.value y < 0 := by omega
    rw [indifferent_ulong_left lower left (by omega) upper', if_pos left, if_neg right]
    omega
  by_cases right : second.value y < 0
  · have never := not_indifferent_ulong_right (by omega) upper lower' right
    rw [if_neg left, if_pos right]
    exact iff_of_false never (by omega)
  · rw [if_neg left, if_neg right]
    refine iff_of_true (indifferent_of_fixed ?_ ?_) (Or.inl ⟨rfl, rfl⟩)
    · rw [IntegerKind.convert_ulong (by omega) upper, if_neg left]
    · rw [IntegerKind.convert_ulong (by omega) upper', if_neg right]

end OrderedOperator

namespace Expression

variable {resolve : String → Evaluated} {left right : Expression} {first second : IntegerKind}
  {x : BitVec first.width} {y : BitVec second.width}

theorem evaluate_ordered (leftValue : left.evaluate resolve = .ok (.integer first x))
    (rightValue : right.evaluate resolve = .ok (.integer second y)) (operator : OrderedOperator) :
    (binary operator.operator left right).evaluate resolve =
      operator.apply (first.promote second) (first.value x) (second.value y) := by
  have strict : operator.operator ≠ .and ∧ operator.operator ≠ .or := by cases operator <;> decide
  rw [evaluate_binary strict leftValue rightValue, Constant.applyBinary_ordered]

/-- Quotients, remainders and comparisons are those of the operands as they are. They are those
of the operands converted to the promoted kind exactly if both belong to it, or if the left one
is negative and stays below the right one. Only a zero divisor is an error. -/
theorem evaluate_ordered_converted_iff (leftValue : left.evaluate resolve = .ok (.integer first x))
    (rightValue : right.evaluate resolve = .ok (.integer second y)) :
    (∀ operator : OrderedOperator, (binary operator.operator left right).evaluate resolve =
      operator.apply (first.promote second) (first.value x) (second.value y)) ∧
    ((∀ operator : OrderedOperator, (binary operator.operator left right).evaluate resolve =
        operator.apply (first.promote second) ((first.promote second).convert (first.value x))
          ((first.promote second).convert (second.value y))) ↔
      ((first.promote second).convert (first.value x) = first.value x ∧
        (first.promote second).convert (second.value y) = second.value y) ∨
      (first.value x < 0 ∧ (first.promote second).convert (first.value x) < second.value y)) ∧
    (∀ operator : OrderedOperator,
      (binary operator.operator left right).evaluate resolve = .error .divisionByZero ↔
        (operator = .divide ∨ operator = .remainder) ∧ second.value y = 0) := by
  have direct := evaluate_ordered leftValue rightValue
  refine ⟨direct, ?_, ?_⟩
  · rw [← OrderedOperator.indifferent_iff]
    constructor
    · intro converted operator
      rw [← direct, converted]
    · intro indifferent operator
      rw [direct, indifferent]
  · intro operator
    rw [direct, OrderedOperator.apply_eq_divisionByZero]

/-- A negative `long` may become a `ulong` that is still the smaller number. -/
theorem evaluate_ordered_converted_iff_below :
    (literal (.integer .long (BitVec.ofInt 64 (-2)))).evaluate (lookup []) =
      .ok (.integer .long (BitVec.ofInt 64 (-2))) ∧
    (literal (.integer .ulong (BitVec.allOnes 64))).evaluate (lookup []) =
      .ok (.integer .ulong (BitVec.allOnes 64)) ∧
    ∀ operator : OrderedOperator,
      (binary operator.operator (literal (.integer .long (BitVec.ofInt 64 (-2))))
        (literal (.integer .ulong (BitVec.allOnes 64)))).evaluate (lookup []) =
      operator.apply .ulong (IntegerKind.ulong.convert (-2)) (IntegerKind.ulong.convert (2 ^ 64 - 1)) := by
  have leftValue : (literal (.integer .long (BitVec.ofInt 64 (-2)))).evaluate (lookup []) =
      .ok (.integer .long (BitVec.ofInt 64 (-2))) := rfl
  have rightValue : (literal (.integer .ulong (BitVec.allOnes 64))).evaluate (lookup []) =
      .ok (.integer .ulong (BitVec.allOnes 64)) := rfl
  obtain ⟨_, exactly, _⟩ := evaluate_ordered_converted_iff leftValue rightValue
  exact ⟨leftValue, rightValue, exactly.mpr (Or.inr (by decide))⟩

/-- Minus one is less than one also where the promoted kind has no negative numbers. -/
theorem not_always_converted :
    ¬ ∀ (first second : IntegerKind) (x : BitVec first.width) (y : BitVec second.width)
        (operator : OrderedOperator),
      (binary operator.operator (literal (.integer first x)) (literal (.integer second y))).evaluate
          (lookup []) =
        operator.apply (first.promote second) ((first.promote second).convert (first.value x))
          ((first.promote second).convert (second.value y)) := by
  intro always
  have compared := always .int .ulong (BitVec.ofInt 32 (-1)) (BitVec.ofInt 64 1) .less
  revert compared
  decide

end Expression

end Interop
