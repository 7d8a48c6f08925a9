import Interop.Proofs.Constant.Literal

/-! Decimal numerals. A number written with decimal digits and the suffix of its kind is a
literal, because its digits have no leading zero, and it is read as a constant of that kind,
because the suffix admits its kind first. -/
namespace Interop

def IntegerKind.suffix : IntegerKind → List Char
  | .int => []
  | .uint => ['u']
  | .long => ['L']
  | .ulong => ['U', 'L']

def IntegerKind.numeral (kind : IntegerKind) (n : Nat) : List Char := Nat.toDigits 10 n ++ kind.suffix

/-- A number that is not negative is what its word counts. -/
theorem IntegerKind.wrap_toNat_value {kind : IntegerKind} {word : BitVec kind.width} (nonneg : 0 ≤ kind.value word) :
    kind.wrap (kind.value word).toNat = .integer kind word := by
  rw [Int.toNat_of_nonneg nonneg, IntegerKind.wrap, IntegerKind.ofInt_value]

namespace Numeral

section Digits

variable {n : Nat} {c : Char}

theorem isDigit_of_mem (member : c ∈ Nat.toDigits 10 n) : c.isDigit = true :=
  Nat.isDigit_of_mem_toDigits (by decide) (by decide) member

theorem digitValue_lt_of_isDigit (digit : c.isDigit = true) : digitValue c < 10 := by
  have upper := (Char.isDigit_iff_toNat.mp digit).2
  have small : c.toNat - 48 < 10 := by
    change c.toNat ≤ 57 at upper
    omega
  have read : digit? c = some (c.toNat - 48) := if_pos digit
  rwa [(digit?_eq_some_iff (by omega)).mp read]

theorem digitValue_digitChar {d : Nat} (small : d < 10) : digitValue d.digitChar = d := by
  have all : ∀ d : Fin 10, digitValue d.val.digitChar = d.val := by decide
  exact all ⟨d, small⟩

/-- The digits of a number stand for it. -/
theorem positional_toDigits (n : Nat) : positional 10 ((Nat.toDigits 10 n).map digitValue) = n := by
  induction n using Nat.strongRecOn with
  | ind n ih =>
    by_cases small : n < 10
    · rw [Nat.toDigits_of_lt_base small]
      simp [positional, digitValue_digitChar small]
    · rw [Nat.toDigits_of_base_le (by decide) (by omega), List.map_append, List.map_singleton, positional_concat,
        ih (n / 10) (by omega), digitValue_digitChar (by omega)]
      exact Nat.div_add_mod n 10

/-- A numeral starts with a zero only if it is a zero alone. -/
theorem toDigits_ne_zero_cons (n : Nat) (second : Char) (others : List Char) :
    Nat.toDigits 10 n ≠ '0' :: second :: others := by
  induction n using Nat.strongRecOn generalizing second others with
  | ind n ih =>
    intro leading
    by_cases small : n < 10
    · rw [Nat.toDigits_of_lt_base small] at leading
      exact absurd (congrArg List.length leading) (by simp)
    rw [Nat.toDigits_of_base_le (by decide) (by omega)] at leading
    -- The digits before the last one start with the zero, too, so they are that zero alone.
    cases front : Nat.toDigits 10 (n / 10) with
    | nil => exact Nat.toDigits_ne_nil front
    | cons first digits =>
      rw [front, List.cons_append] at leading
      obtain ⟨rfl, tail⟩ := List.cons.inj leading
      cases digits with
      | cons second digits => exact ih (n / 10) (by omega) second digits front
      | nil =>
        have value := positional_toDigits (n / 10)
        rw [front] at value
        have zero : (0 : Nat) = n / 10 := value
        omega

theorem ne_underscore_of_mem (member : c ∈ Nat.toDigits 10 n) : c ≠ '_' := by
  rintro rfl
  exact Nat.underscore_not_in_toDigits member

end Digits

variable (kind : IntegerKind) (n : Nat)

def Literal.numeral : Literal where
  radix := .decimal
  digits := Nat.toDigits 10 n
  suffix := kind.suffix.map Char.toLower
  ofRadix := fun _ member => Or.inr (digitValue_lt_of_isDigit (isDigit_of_mem member))
  exists_digit := by
    obtain ⟨c, member⟩ := List.exists_mem_of_ne_nil (Nat.toDigits 10 n) Nat.toDigits_ne_nil
    exact ⟨c, member, ne_underscore_of_mem member⟩
  leading := by
    intro _
    have plain := toDigits_ne_zero_cons n
    cases split : Nat.toDigits 10 n with
    | nil => exact absurd split Nat.toDigits_ne_nil
    | cons first others =>
      have visible : first ≠ '_' := ne_underscore_of_mem (n := n) (by rw [split]; exact List.mem_cons_self)
      refine ⟨fun underscore => visible (Option.some.inj underscore), fun zero => ?_⟩
      obtain rfl := Option.some.inj zero
      cases others with
      | nil => rintro c ⟨⟩
      | cons second others => exact absurd split (plain second others)
  letters := by cases kind <;> exact forall_mem_of_all (by decide)
  atMostOne := by cases kind <;> decide
  atMostTwo := by cases kind <;> decide

theorem Literal.spells_numeral : (Literal.numeral kind n).Spells (String.ofList (kind.numeral n)) := by
  have digits : (Nat.toDigits 10 n).map Char.toLower = (Nat.toDigits 10 n).map fun c => c :=
    List.map_congr_left fun c member => toLower_of_isDigit (isDigit_of_mem member)
  rw [Literal.Spells, String.toList_ofList, IntegerKind.numeral, List.map_append, digits, List.map_id']
  rfl

theorem Literal.value_numeral : (Literal.numeral kind n).value = n := by
  have digits : (Nat.toDigits 10 n).filter (· ≠ '_') = Nat.toDigits 10 n :=
    List.filter_eq_self.mpr fun c member => decide_eq_true (ne_underscore_of_mem member)
  change positional 10 (((Nat.toDigits 10 n).filter (· ≠ '_')).map digitValue) = n
  rw [digits, positional_toDigits]

theorem Literal.not_isPaddedZero_numeral : ¬ (Literal.numeral kind n).IsPaddedZero :=
  fun padded => padded.2.elim fun others split => toDigits_ne_zero_cons n '_' others split

variable {kind n}

/-- The suffix of a kind admits it first. -/
theorem firstHolding_numeral (small : n ≤ kind.greatest) : FirstHolding (kind.suffix.map Char.toLower) n kind where
  admits := by cases kind <;> exact ⟨by decide, by decide⟩
  holds := small
  first := by
    rintro other ⟨unsigned, wide⟩ _
    cases kind with
    | int => exact Nat.zero_le _
    | uint => cases other <;> first | decide | exact absurd (unsigned (by decide)) (by decide)
    | long => cases other <;> first | decide | exact absurd (wide (by decide)) (by decide)
    | ulong =>
      cases other <;> first
        | decide
        | exact absurd (unsigned (by decide)) (by decide)
        | exact absurd (wide (by decide)) (by decide)

end Numeral

/-- A number of a kind is read back from its numeral. -/
theorem Constant.ofNumeral_numeral {kind : IntegerKind} {word : BitVec kind.width} (nonneg : 0 ≤ kind.value word) :
    Constant.ofNumeral (String.ofList (kind.numeral (kind.value word).toNat)) = .ok (.integer kind word) := by
  have small : (kind.value word).toNat ≤ kind.greatest := by
    have upper := (kind.value_bounds word).2
    omega
  refine (Numeral.Literal.ofNumeral_eq_ok_iff (Numeral.Literal.spells_numeral kind _)).mpr
    ⟨Numeral.Literal.not_isPaddedZero_numeral kind _, kind, ?_, ?_⟩
  · rw [Numeral.Literal.value_numeral]
    exact Numeral.firstHolding_numeral small
  · rw [Numeral.Literal.value_numeral]
    exact (IntegerKind.wrap_toNat_value nonneg).symm

end Interop
