import Interop.Constant.Basic
import Mathlib.Data.Int.Bitwise
import Mathlib.Data.Int.ModEq
import Mathlib.Tactic.Ring

/-! Numbers of the fixed-width kinds. Each kind has a range of `2 ^ width` numbers, so every
integer is congruent to exactly one number of the range, and a word of the kind stands for
that number. Words of integers respect the ring operations and the bitwise ones. -/
namespace Interop.IntegerKind

/-- The number of the kind's range that is congruent to `exact` modulo the size of the range. -/
structure Represents (kind : IntegerKind) (exact value : Int) : Prop where
  lower : kind.least ≤ value
  upper : value ≤ kind.greatest
  congruent : value ≡ exact [ZMOD 2 ^ kind.width]

def convert (kind : IntegerKind) (n : Int) : Int := kind.value (BitVec.ofInt kind.width n)

theorem width_le (kind : IntegerKind) : kind.width ≤ 64 := by cases kind <;> decide

/-- The range has as many numbers as there are words. -/
theorem greatest_eq (kind : IntegerKind) : (kind.greatest : Int) + 1 = kind.least + 2 ^ kind.width := by
  cases kind <;> decide

theorem value_bounds (kind : IntegerKind) (word : BitVec kind.width) :
    kind.least ≤ kind.value word ∧ kind.value word ≤ kind.greatest := by
  have signed : -2 ^ (kind.width - 1) ≤ word.toInt ∧ word.toInt < 2 ^ (kind.width - 1) :=
    ⟨BitVec.le_toInt word, BitVec.toInt_lt⟩
  have unsigned := word.isLt
  cases kind <;> simp [value, least, greatest, isSigned, width] at signed unsigned ⊢ <;> omega

theorem value_congruent (kind : IntegerKind) (word : BitVec kind.width) :
    kind.value word ≡ word.toNat [ZMOD 2 ^ kind.width] := by
  unfold value
  split
  · rw [BitVec.toInt_eq_toNat_bmod]
    simpa [Int.ModEq] using Int.bmod_emod (x := (word.toNat : Int)) (m := 2 ^ kind.width)
  · rfl

theorem toNat_ofInt_congruent (w : Nat) (n : Int) : ((BitVec.ofInt w n).toNat : Int) ≡ n [ZMOD 2 ^ w] := by
  have positive : (0 : Int) < 2 ^ w := Int.pow_pos (by decide)
  have nonneg : 0 ≤ n % 2 ^ w := Int.emod_nonneg n (ne_of_gt positive)
  rw [BitVec.toNat_ofInt]
  push_cast
  rw [Int.toNat_of_nonneg nonneg]
  exact Int.mod_modEq n _

/-- A word stands for the number of the range that its integer is congruent to. -/
theorem represents_convert (kind : IntegerKind) (n : Int) : kind.Represents n (kind.convert n) := by
  obtain ⟨lower, upper⟩ := kind.value_bounds (BitVec.ofInt kind.width n)
  exact ⟨lower, upper, (kind.value_congruent _).trans (toNat_ofInt_congruent _ n)⟩

/-- Numbers of one range of `size` numbers that are congruent modulo `size` are the same. -/
theorem eq_of_congruent {least size n m : Int} (lower : least ≤ n) (upper : n < least + size) (lower' : least ≤ m)
    (upper' : m < least + size) (congruent : n ≡ m [ZMOD size]) : n = m := by
  have close : n - least ≡ m - least [ZMOD size] := congruent.sub_right least
  rw [Int.ModEq, Int.emod_eq_of_lt (by omega) (by omega), Int.emod_eq_of_lt (by omega) (by omega)] at close
  omega

theorem Represents.unique {kind : IntegerKind} {exact value other : Int}
    (first : kind.Represents exact value) (second : kind.Represents exact other) : value = other := by
  have size := kind.greatest_eq
  have upper := first.upper
  have upper' := second.upper
  exact eq_of_congruent first.lower (by omega) second.lower (by omega)
    (first.congruent.trans second.congruent.symm)

/-- A number of the range is left alone. -/
theorem convert_eq_self {kind : IntegerKind} {n : Int} (lower : kind.least ≤ n) (upper : n ≤ kind.greatest) :
    kind.convert n = n :=
  (kind.represents_convert n).unique ⟨lower, upper, Int.ModEq.refl n⟩

/-- Integers that are congruent become the same word. -/
theorem ofInt_congr {w : Nat} {n m : Int} (congruent : n ≡ m [ZMOD 2 ^ w]) :
    BitVec.ofInt w n = BitVec.ofInt w m := by
  apply BitVec.eq_of_toNat_eq
  rw [BitVec.toNat_ofInt, BitVec.toNat_ofInt]
  push_cast
  rw [congruent]

/-- A word is that of the number it stands for. -/
theorem ofInt_value {kind : IntegerKind} (word : BitVec kind.width) :
    BitVec.ofInt kind.width (kind.value word) = word := by
  unfold value
  split
  · exact BitVec.ofInt_toInt
  · rw [BitVec.ofInt_natCast, BitVec.ofNat_toNat, BitVec.setWidth_eq]

theorem wrap_congr {kind : IntegerKind} {n m : Int} (congruent : n ≡ m [ZMOD 2 ^ kind.width]) :
    kind.wrap n = kind.wrap m := by
  rw [wrap, wrap, ofInt_congr congruent]

theorem toInt_ofInt_congruent (w : Nat) (n : Int) : (BitVec.ofInt w n).toInt ≡ n [ZMOD 2 ^ w] := by
  rw [BitVec.toInt_ofInt]
  simpa [Int.ModEq] using Int.bmod_emod (x := n) (m := 2 ^ w)

/-- A detour through a wider word leaves the word of a kind as it is. -/
theorem wrap_toInt_ofInt (kind : IntegerKind) {w : Nat} (wide : kind.width ≤ w) (n : Int) :
    kind.wrap (BitVec.ofInt w n).toInt = kind.wrap n :=
  wrap_congr ((toInt_ofInt_congruent w n).of_dvd (pow_dvd_pow 2 wide))

/-- The bits of a word are those of its integer. -/
theorem getLsbD_ofInt (w : Nat) (n : Int) (place : Nat) :
    (BitVec.ofInt w n).getLsbD place = (decide (place < w) && n.testBit place) := by
  cases n with
  | ofNat n =>
    have word : BitVec.ofInt w (Int.ofNat n) = BitVec.ofNat w n := BitVec.ofInt_natCast w n
    rw [word, BitVec.getLsbD_ofNat]
    rfl
  | negSucc n =>
    rw [BitVec.ofInt_negSucc_eq_not_ofNat, BitVec.getLsbD_not, BitVec.getLsbD_ofNat]
    by_cases within : place < w <;> simp [within, Int.testBit]

theorem ofInt_sub (w : Nat) (n m : Int) : BitVec.ofInt w (n - m) = BitVec.ofInt w n - BitVec.ofInt w m := by
  rw [Int.sub_eq_add_neg, BitVec.ofInt_add, BitVec.ofInt_neg, BitVec.sub_eq_add_neg]

theorem ofInt_land (w : Nat) (n m : Int) :
    BitVec.ofInt w (n.land m) = BitVec.ofInt w n &&& BitVec.ofInt w m := by
  apply BitVec.eq_of_getLsbD_eq
  intro place within
  simp only [BitVec.getLsbD_and, getLsbD_ofInt, Int.testBit_land, within, decide_true, Bool.true_and]

theorem ofInt_lor (w : Nat) (n m : Int) :
    BitVec.ofInt w (n.lor m) = BitVec.ofInt w n ||| BitVec.ofInt w m := by
  apply BitVec.eq_of_getLsbD_eq
  intro place within
  simp only [BitVec.getLsbD_or, getLsbD_ofInt, Int.testBit_lor, within, decide_true, Bool.true_and]

theorem ofInt_xor (w : Nat) (n m : Int) :
    BitVec.ofInt w (n.xor m) = BitVec.ofInt w n ^^^ BitVec.ofInt w m := by
  apply BitVec.eq_of_getLsbD_eq
  intro place within
  simp only [BitVec.getLsbD_xor, getLsbD_ofInt, Int.testBit_lxor, within, decide_true, Bool.true_and]

end Interop.IntegerKind
