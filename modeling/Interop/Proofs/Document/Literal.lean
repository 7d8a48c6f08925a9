import Interop.Document.Literal
import Interop.Proofs.Constant.Numeral
import Interop.Proofs.Document.Layout

/-! Constants are written on one line: no digit is a line feed, and a string literal escapes those of its
text. -/
namespace Interop

theorem unbroken_nat (n : Nat) : Unbroken (toString n) := by
  intro member
  rw [Nat.toString_eq_repr, Nat.toList_repr] at member
  exact absurd (Numeral.isDigit_of_mem member) (by decide)

theorem unbroken_int (n : Int) : Unbroken (toString n) := by
  cases n with
  | ofNat n => exact unbroken_nat n
  | negSucc n => exact unbroken_append.mpr ⟨by decide, unbroken_nat (n + 1)⟩

section

open Floating

variable {digits : List Char} (plain : '\n' ∉ digits) (exponent : Int)
include plain

theorem feed_not_mem_positional : '\n' ∉ positional digits exponent := by
  have front (n : Nat) : '\n' ∉ digits.take n := fun member => plain (List.mem_of_mem_take member)
  have back (n : Nat) : '\n' ∉ digits.drop n := fun member => plain (List.mem_of_mem_drop member)
  unfold positional
  split
  · simp [zeros, plain]
  · split <;> simp [zeros, plain, front, back]

theorem feed_not_mem_scientific : '\n' ∉ scientific digits exponent := by
  have power : '\n' ∉ 'e' :: (toString exponent).toList := by
    rw [List.mem_cons, not_or]
    exact ⟨by decide, unbroken_int exponent⟩
  unfold scientific
  split <;> simp_all

end

/-- A floating-point number is written on one line. -/
theorem unbroken_datum (f : Floating.Format) (datum : Floating.Datum) : Unbroken (datum.text f) := by
  have magnitude (significand : Nat) (exponent : Int) : '\n' ∉ Floating.magnitudeText f significand exponent := by
    have digits (n : Nat) : '\n' ∉ Nat.toDigits 10 n :=
      fun member => absurd (Numeral.isDigit_of_mem member) (by decide)
    unfold Floating.magnitudeText
    split
    · decide
    · dsimp only
      split
      · exact feed_not_mem_positional (digits _) _
      · exact feed_not_mem_scientific (digits _) _
  cases datum with
  | nan => exact (by decide : Unbroken "NaN")
  | infinite negative =>
    cases negative
    · exact (by decide : Unbroken "inf")
    · exact (by decide : Unbroken "-inf")
  | finite negative significand exponent =>
    rw [Floating.Datum.text, Unbroken, String.toList_ofList, List.mem_append, not_or]
    exact ⟨by cases negative <;> decide, magnitude significand exponent⟩

theorem feed_not_mem_literalChar (c : Char) : '\n' ∉ literalChar c := by
  unfold literalChar
  split_ifs with _ _ feed _ _ _ control
  all_goals try decide
  · have small : c.toNat < 0xA0 := by
      simp only [isControl, Bool.or_eq_true, Bool.and_eq_true, decide_eq_true_eq] at control
      omega
    have digits : ∀ n : Fin 0xA0, '\n' ∉ Json.hexDigits 4 n := by decide +kernel
    rw [List.mem_cons, List.mem_cons, not_or, not_or]
    exact ⟨by decide, by decide, digits ⟨c.toNat, small⟩⟩
  · exact fun same => feed (List.mem_singleton.mp same).symm

theorem unbroken_stringLiteral (text : String) : Unbroken (stringLiteral text) := by
  simp [Unbroken, stringLiteral, feed_not_mem_literalChar]

theorem unbroken_floatingLiteral {type mark text : String} (named : Unbroken type) (marked : Unbroken mark)
    (digits : Unbroken text) (datum : Floating.Datum) : Unbroken (Constant.floatingLiteral type mark text datum) := by
  match datum with
  | .nan | .infinite true | .infinite false => exact unbroken_append.mpr ⟨named, by decide⟩
  | .finite .. => exact unbroken_append.mpr ⟨digits, marked⟩

theorem unbroken_literal (constant : Constant) : Unbroken constant.literal := by
  cases constant with
  | integer kind word =>
    have digits := unbroken_int (kind.value word)
    cases kind <;> simp only [Constant.literal, Constant.integerLiteral]
    · exact digits
    · exact unbroken_append.mpr ⟨digits, by decide⟩
    · split <;> exact unbroken_append.mpr ⟨unbroken_append.mpr ⟨by decide, digits⟩, by decide⟩
    · split <;> exact unbroken_append.mpr ⟨unbroken_append.mpr ⟨by decide, digits⟩, by decide⟩
  | single value =>
    have digits := unbroken_datum .single (Floating.Format.single.decode value.toBits.toNat)
    rw [Constant.literal, Floating.singleText]
    exact unbroken_floatingLiteral (by decide) (by decide) digits _
  | double value =>
    have digits := unbroken_datum .double (Floating.decodeDouble value)
    exact unbroken_floatingLiteral (by decide) (by decide) digits _
  | bool value => cases value <;> decide
  | string value => exact unbroken_stringLiteral value

end Interop
