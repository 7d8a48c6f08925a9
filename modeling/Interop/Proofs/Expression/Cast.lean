import Interop.Proofs.Expression.Arithmetic

/-! Casts to integer types. A type has a width and a sign of its own; for the narrow types they
are not those of the `int` that keeps the value. An integer is cut down to the type first and
wrapped into a kind afterwards, and together the two steps give the only number of the type that
is congruent to it. -/
namespace Interop

theorem Kind.exists_of_isIntegral {kind : Kind} (integral : kind.isIntegral = true) :
    ∃ integer, kind = .integer integer := by
  cases kind with
  | integer integer => exact ⟨integer, rfl⟩
  | _ => cases integral

namespace CastType

def width : CastType → Nat
  | .char | .signedChar | .unsignedChar => 8
  | .short | .unsignedShort => 16
  | .int | .unsignedInt | .float => 32
  | .long | .unsignedLong | .double => 64

def isSigned : CastType → Bool
  | .unsignedChar | .unsignedShort | .unsignedInt | .unsignedLong => false
  | _ => true

def least (type : CastType) : Int :=
  if type.isSigned then -(Nat.pow 2 (type.width - 1)) else 0

def greatest (type : CastType) : Int :=
  if type.isSigned then Nat.pow 2 (type.width - 1) - 1 else Nat.pow 2 type.width - 1

/-- The number of the type's range that is congruent to `exact` modulo the size of the range. -/
structure Represents (type : CastType) (exact value : Int) : Prop where
  lower : type.least ≤ value
  upper : value ≤ type.greatest
  congruent : value ≡ exact [ZMOD 2 ^ type.width]

theorem greatest_eq (type : CastType) : type.greatest + 1 = type.least + 2 ^ type.width := by
  cases type <;> decide

theorem Represents.unique {type : CastType} {exact value other : Int} (first : type.Represents exact value)
    (second : type.Represents exact other) : value = other := by
  have size := type.greatest_eq
  have upper := first.upper
  have upper' := second.upper
  exact IntegerKind.eq_of_congruent first.lower (by omega) second.lower (by omega)
    (first.congruent.trans second.congruent.symm)

/-- What a variable of the type holds after an integer is stored in it. -/
def stored (type : CastType) (n : Int) : Int :=
  if type.isSigned then (BitVec.ofInt type.width n).toInt else (BitVec.ofInt type.width n).toNat

theorem represents_stored (type : CastType) (n : Int) : type.Represents n (type.stored n) := by
  have signed : -2 ^ (type.width - 1) ≤ (BitVec.ofInt type.width n).toInt ∧
      (BitVec.ofInt type.width n).toInt < 2 ^ (type.width - 1) :=
    ⟨BitVec.le_toInt _, BitVec.toInt_lt⟩
  have unsigned : ((BitVec.ofInt type.width n).toNat : Int) < 2 ^ type.width := by
    exact_mod_cast (BitVec.ofInt type.width n).isLt
  unfold stored
  by_cases sign : type.isSigned
  · rw [if_pos sign]
    refine ⟨?_, ?_, IntegerKind.toInt_ofInt_congruent _ n⟩
    · simpa [least, sign] using signed.1
    · simpa [greatest, sign, Int.le_sub_one_iff] using signed.2
  · rw [if_neg sign]
    refine ⟨?_, ?_, IntegerKind.toNat_ofInt_congruent _ n⟩
    · simp [least, sign]
    · rw [greatest, if_neg sign]
      exact Int.le_sub_one_of_lt unsigned

/-- Cutting an integer down and wrapping it into the kind stores it in the type. -/
theorem convert_narrow {type : CastType} {kind : IntegerKind} (integer : type.kind = .integer kind) (n : Int) :
    kind.convert (type.narrow n) = type.stored n := by
  have within := type.represents_stored n
  have lower := within.lower
  have upper := within.upper
  cases type <;> cases integer
  case int | unsignedInt | long | unsignedLong => rfl
  all_goals exact IntegerKind.convert_eq_self (Int.le_trans (by decide) lower) (Int.le_trans upper (by decide))

/-- Storing depends on the last bits only. -/
theorem stored_congr {type : CastType} {n m : Int} (congruent : n ≡ m [ZMOD 2 ^ type.width]) :
    type.stored n = type.stored m := by
  simp only [stored, IntegerKind.ofInt_congr congruent]

/-- A detour through a type that is at least as wide makes no difference. -/
theorem stored_stored {inner outer : CastType} (fits : outer.width ≤ inner.width) (n : Int) :
    outer.stored (inner.stored n) = outer.stored n :=
  stored_congr ((inner.represents_stored n).congruent.of_dvd (pow_dvd_pow 2 fits))

theorem wrap_narrow {type : CastType} {kind : IntegerKind} (integer : type.kind = .integer kind) (n : Int) :
    kind.wrap (type.narrow n) = kind.wrap (type.stored n) := by
  rw [← convert_narrow integer, IntegerKind.wrap, IntegerKind.wrap, IntegerKind.convert, IntegerKind.ofInt_value]

end CastType

namespace Constant

def whole? : Constant → Option Int
  | .integer kind word => some (kind.value word)
  | .bool value => some value.toInt
  | _ => none

/-- A cast starts from it; besides, it takes fractions, which it cuts off. -/
theorem castSource?_of_whole? {constant : Constant} {n : Int} (whole : constant.whole? = some n) :
    constant.castSource? = some n := by
  cases constant with
  | integer kind word => exact whole
  | bool value => cases value <;> exact whole
  | _ => cases whole

/-- A cast stores the integer that the operand stands for. -/
theorem cast_integer {type : CastType} {kind : IntegerKind} (integer : type.kind = .integer kind)
    {operand : Constant} {n : Int} (source : operand.castSource? = some n) :
    operand.cast type = .ok (kind.wrap (type.stored n)) := by
  simp [cast, integer, source, CastType.wrap_narrow]

/-- The result of a cast stands for what was stored. -/
theorem castSource?_wrap {type : CastType} {kind : IntegerKind} (integer : type.kind = .integer kind) (n : Int) :
    (kind.wrap (type.stored n)).castSource? = some (type.stored n) := by
  rw [← CastType.wrap_narrow integer, ← CastType.convert_narrow integer n]
  rfl

end Constant

namespace Expression

variable {resolve : String → Evaluated} {operand : Expression}

/-- The value of an expression is of the kind that keeps the type, and it is the only number of
the type's range that is congruent to `n`. -/
def Converts (resolve : String → Evaluated) (expression : Expression) (type : CastType) (kind : IntegerKind)
    (n : Int) : Prop :=
  ∃ word, expression.evaluate resolve = .ok (.integer kind word) ∧
    type.Represents n (kind.value word) ∧ ∀ value, type.Represents n value → value = kind.value word

theorem evaluate_cast {value : Constant} (type : CastType) (evaluated : operand.evaluate resolve = .ok value) :
    (cast type operand).evaluate resolve = value.cast type := by
  simp only [evaluate, evaluated]
  exact ofExcept_eq _

theorem converts_cast {value : Constant} {n : Int} (evaluated : operand.evaluate resolve = .ok value)
    (source : value.castSource? = some n) {type : CastType} {kind : IntegerKind}
    (integer : type.kind = .integer kind) : Converts resolve (.cast type operand) type kind n := by
  have held : kind.convert (type.stored n) = type.stored n :=
    Option.some.inj (Constant.castSource?_wrap integer n)
  have represents : type.Represents n (kind.convert (type.stored n)) := by
    rw [held]
    exact type.represents_stored n
  refine ⟨_, ?_, represents, fun other same => same.unique represents⟩
  rw [evaluate_cast type evaluated, Constant.cast_integer integer source, IntegerKind.wrap]

theorem evaluate_cast_cast {value : Constant} {n : Int} (evaluated : operand.evaluate resolve = .ok value)
    (source : value.castSource? = some n) {inner outer : CastType} (innerInteger : inner.kind.isIntegral = true)
    (outerInteger : outer.kind.isIntegral = true) (fits : outer.width ≤ inner.width) :
    (cast outer (cast inner operand)).evaluate resolve = (cast outer operand).evaluate resolve := by
  obtain ⟨kind, integer⟩ := Kind.exists_of_isIntegral innerInteger
  obtain ⟨kind', integer'⟩ := Kind.exists_of_isIntegral outerInteger
  have first : (cast inner operand).evaluate resolve = .ok (kind.wrap (inner.stored n)) := by
    rw [evaluate_cast inner evaluated, Constant.cast_integer integer source]
  rw [evaluate_cast outer first, evaluate_cast outer evaluated, Constant.cast_integer integer' source,
    Constant.cast_integer integer' (Constant.castSource?_wrap integer n), CastType.stored_stored fits]

/-- A cast of an integer or a truth value to an integer type has a value, and it is the number of
the type that is congruent to the operand. So a second cast to the same type changes nothing, and
neither does a cast to a type that is at least as wide before another one. -/
theorem cast_converts {value : Constant} {n : Int} (evaluated : operand.evaluate resolve = .ok value)
    (whole : value.whole? = some n) :
    (∀ (type : CastType) (kind : IntegerKind), type.kind = .integer kind →
      Converts resolve (.cast type operand) type kind n) ∧
    (∀ type : CastType, type.kind.isIntegral = true →
      (cast type (cast type operand)).evaluate resolve = (cast type operand).evaluate resolve) ∧
    (∀ inner outer : CastType, inner.kind.isIntegral = true → outer.kind.isIntegral = true →
      outer.width ≤ inner.width →
      (cast outer (cast inner operand)).evaluate resolve = (cast outer operand).evaluate resolve) := by
  have source := Constant.castSource?_of_whole? whole
  refine ⟨fun type kind integer => converts_cast evaluated source integer, ?_, ?_⟩
  · intro type integral
    exact evaluate_cast_cast evaluated source integral integral (Nat.le_refl _)
  · intro inner outer integral integral' fits
    exact evaluate_cast_cast evaluated source integral integral' fits

/-- The greatest `ulong` becomes the greatest `unsigned char`, kept in an `int`; as a `char` it is
minus one, also after a cast to `unsigned short`. -/
theorem cast_converts_allOnes :
    (literal (.integer .ulong (BitVec.allOnes 64))).evaluate (lookup []) =
      .ok (.integer .ulong (BitVec.allOnes 64)) ∧
    (Constant.integer .ulong (BitVec.allOnes 64)).whole? = some (2 ^ 64 - 1) ∧
    CastType.unsignedChar.kind = .integer .int ∧
    Converts (lookup []) (.cast .unsignedChar (literal (.integer .ulong (BitVec.allOnes 64)))) .unsignedChar .int
      (2 ^ 64 - 1) ∧
    CastType.char.width ≤ CastType.unsignedShort.width ∧
    (cast .char (cast .unsignedShort (literal (.integer .ulong (BitVec.allOnes 64))))).evaluate (lookup []) =
      .ok (.integer .int (BitVec.ofInt 32 (-1))) := by
  have evaluated : (literal (.integer .ulong (BitVec.allOnes 64))).evaluate (lookup []) =
      .ok (.integer .ulong (BitVec.allOnes 64)) := rfl
  have whole : (Constant.integer .ulong (BitVec.allOnes 64)).whole? = some (2 ^ 64 - 1) := by decide
  obtain ⟨converts, _, through⟩ := cast_converts evaluated whole
  have direct : (cast .char (literal (.integer .ulong (BitVec.allOnes 64)))).evaluate (lookup []) =
      .ok (.integer .int (BitVec.ofInt 32 (-1))) := by decide
  exact ⟨evaluated, whole, rfl, converts .unsignedChar .int rfl, by decide,
    (through .unsignedShort .char rfl rfl (by decide)).trans direct⟩

end Expression

end Interop
