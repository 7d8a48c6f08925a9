import Interop.Declaration.Reader
import Interop.Declaration.Writer

/-! Literals of enumerators as JSON numbers. A number is read as a signed literal if it is one, so an unsigned
literal comes back only where no signed one has its number. -/
namespace Interop.IntegerLiteral

/-- A literal is unsigned only where it is too great for a sign. -/
def IsCanonical : IntegerLiteral → Prop
  | .signed _ => True
  | .unsigned value => Nat.pow 2 63 ≤ value.toNat

instance : DecidablePred IsCanonical
  | .signed _ => isTrue trivial
  | .unsigned value => inferInstanceAs (Decidable (Nat.pow 2 63 ≤ value.toNat))

variable {json : Json} {literal other : IntegerLiteral} {value : Int}

theorem signed_within (value : Int64) : -(Nat.pow 2 63) ≤ value.toInt ∧ value.toInt < Nat.pow 2 63 :=
  ⟨value.le_toInt, value.toInt_lt⟩

theorem unsigned_within (value : UInt64) : 0 ≤ (value.toNat : Int) ∧ (value.toNat : Int) < Nat.pow 2 64 :=
  ⟨Int.natCast_nonneg _, Int.ofNat_lt.mpr value.toNat_lt⟩

theorem toNat_ofNat (nonnegative : 0 ≤ value) (below : value < Nat.pow 2 64) :
    ((UInt64.ofNat value.toNat).toNat : Int) = value := by
  have small : value.toNat < Nat.pow 2 64 := (Int.toNat_lt nonnegative).mpr below
  rw [UInt64.toNat_ofNat_of_lt' small, Int.toNat_of_nonneg nonnegative]

/-- What is read is written as it was, and it is canonical. -/
theorem read_eq_some_iff : read json = some literal ↔ json = literal.write ∧ literal.IsCanonical := by
  constructor
  · intro found
    cases json with
    | integer value =>
      by_cases signed : -(Nat.pow 2 63) ≤ value ∧ value < Nat.pow 2 63
      · rw [read, readSigned, if_pos signed] at found
        obtain rfl := Option.some.inj found
        refine ⟨congrArg Json.integer ?_, trivial⟩
        exact (Int64.toInt_ofInt_of_le signed.1 signed.2).symm
      · rw [read, readSigned, if_neg signed, Option.none_or, readUnsigned] at found
        split at found
        · next unsigned =>
          obtain rfl := Option.some.inj found
          have number := toNat_ofNat unsigned.1 unsigned.2
          refine ⟨congrArg Json.integer number.symm, Int.ofNat_le.mp ?_⟩
          rw [number]
          exact Int.not_lt.mp fun below => signed ⟨Int.le_trans (by decide) unsigned.1, below⟩
        · cases found
    | _ => cases found
  · rintro ⟨rfl, canonical⟩
    cases literal with
    | signed value =>
      rw [read, write, number, readSigned, if_pos (signed_within value), Int64.ofInt_toInt]
      rfl
    | unsigned value =>
      have great : Nat.pow 2 63 ≤ value.toNat := canonical
      have unsigned : ¬ (-(Nat.pow 2 63) ≤ (value.toNat : Int) ∧ (value.toNat : Int) < Nat.pow 2 63) :=
        fun signed => absurd (Int.ofNat_lt.mp signed.2) (Nat.not_lt.mpr great)
      rw [read, write, number, readSigned, if_neg unsigned, readUnsigned, if_pos (unsigned_within value),
        Int.toNat_natCast, UInt64.ofNat_toNat]
      rfl

theorem read_write (canonical : literal.IsCanonical) : read literal.write = some literal :=
  read_eq_some_iff.mpr ⟨rfl, canonical⟩

/-- Canonical literals of one number are equal. -/
theorem IsCanonical.number_inj (canonical : literal.IsCanonical) (canonical' : other.IsCanonical) :
    literal.number = other.number ↔ literal = other := by
  refine ⟨fun same => ?_, congrArg number⟩
  have read := read_write canonical
  rw [write, same, ← write, read_write canonical'] at read
  exact (Option.some.inj read).symm

end Interop.IntegerLiteral
