import Interop.Constant.Numeral
import Interop.Proofs.Constant.Integer
import Mathlib.Data.List.Induction
import Mathlib.Data.List.TakeDrop

/-! Integer literals. A `Literal` is an integer as the grammar of constants has it: the mark of
a radix, digits of that radix with underscores among them, and a suffix. Reading one comes to
its positional value and to the first kind of its suffix that holds it. The other way round, a
text that is read as an integer is such a literal as soon as it starts with a digit and has no
plus sign. -/
namespace Interop.Numeral

inductive Radix where
  | decimal
  | octal
  | hexadecimal
  | binary
  deriving DecidableEq, Repr

def Radix.base : Radix → Nat
  | .decimal => 10
  | .octal => 8
  | .hexadecimal => 16
  | .binary => 2

def Radix.mark : Radix → List Char
  | .decimal => []
  | .octal => ['0']
  | .hexadecimal => ['0', 'x']
  | .binary => ['0', 'b']

def digitRow : List Char :=
  ['0', '1', '2', '3', '4', '5', '6', '7', '8', '9', 'a', 'b', 'c', 'd', 'e', 'f']

/-- The value of a digit; other characters have a value that is none of a digit. -/
def digitValue (c : Char) : Nat := digitRow.idxOf c

/-- What digits stand for: each counts a power of the base by the number of digits after it. -/
def positional (base : Nat) : List Nat → Nat
  | [] => 0
  | digit :: digits => digit * Nat.pow base digits.length + positional base digits

theorem forall_mem_of_all {p : Char → Prop} [DecidablePred p] {letters : List Char}
    (all : letters.all (fun c => decide (p c)) = true) : ∀ c ∈ letters, p c :=
  fun c member => of_decide_eq_true (List.all_eq_true.mp all c member)

/-- An integer literal in small letters. Decimal digits start neither with an underscore nor, if
there are others, with a zero. -/
structure Literal where
  radix : Radix
  digits : List Char
  suffix : List Char
  ofRadix : ∀ c ∈ digits, c = '_' ∨ digitValue c < radix.base
  exists_digit : ∃ c ∈ digits, c ≠ '_'
  leading : radix = .decimal →
    digits.head? ≠ some '_' ∧ (digits.head? = some '0' → ∀ c ∈ digits.tail, c = '_')
  letters : ∀ c ∈ suffix, c = 'u' ∨ c = 'l'
  atMostOne : suffix.count 'u' ≤ 1
  atMostTwo : suffix.count 'l' ≤ 2

namespace Literal

def text (literal : Literal) : List Char := literal.radix.mark ++ literal.digits ++ literal.suffix

/-- The letters of a literal may be capital. -/
def Spells (literal : Literal) (text : String) : Prop := text.toList.map Char.toLower = literal.text

instance (literal : Literal) (text : String) : Decidable (literal.Spells text) :=
  inferInstanceAs (Decidable (text.toList.map Char.toLower = literal.text))

def value (literal : Literal) : Nat :=
  positional literal.radix.base ((literal.digits.filter (· ≠ '_')).map digitValue)

/-- A zero with underscores after it. -/
def IsPaddedZero (literal : Literal) : Prop :=
  literal.radix = .decimal ∧ ∃ others, literal.digits = '0' :: '_' :: others

end Literal

/-- A suffix with `u` asks for an unsigned kind, one with `l` for a wide one. -/
def Admits (suffix : List Char) (kind : IntegerKind) : Prop :=
  ('u' ∈ suffix → kind.isSigned = false) ∧ ('l' ∈ suffix → kind.width = 64)

/-- The first kind that a suffix admits and that holds a number. -/
structure FirstHolding (suffix : List Char) (n : Nat) (kind : IntegerKind) : Prop where
  admits : Admits suffix kind
  holds : n ≤ kind.greatest
  first : ∀ other, Admits suffix other → n ≤ other.greatest → kind.rank ≤ other.rank

def IsLiteral (text : String) : Prop := ∃ literal : Literal, literal.Spells text

section Digits

variable {base n : Nat} {digits : List Char}

theorem positional_concat (base : Nat) (digits : List Nat) (last : Nat) :
    positional base (digits ++ [last]) = base * positional base digits + last := by
  induction digits with
  | nil => simp [positional]
  | cons digit digits ih =>
    rw [List.cons_append, positional, positional, ih, List.length_append, List.length_singleton]
    change digit * (Nat.pow base digits.length * base) + (base * positional base digits + last) = _
    ring

theorem digit?_digitRow : ∀ place : Fin digitRow.length, digit? digitRow[place] = some place.val := by
  decide

theorem mem_digitRow {c : Char} {d : Nat} (digit : digit? c = some d) (small : d < 16) : c ∈ digitRow := by
  have code : 48 ≤ c.toNat ∧ c.toNat ≤ 57 ∨ 97 ≤ c.toNat ∧ c.toNat ≤ 102 := by
    unfold digit? at digit
    split at digit
    · rename_i isDigit
      exact Or.inl (Char.isDigit_iff_toNat.mp isDigit)
    · split at digit
      · rename_i isLower
        obtain rfl := Option.some.inj digit
        delta Char.isLower at isLower
        simp only [Bool.and_eq_true, decide_eq_true_eq, ge_iff_le, UInt32.le_iff_toNat_le] at isLower
        have lower : 97 ≤ c.toNat := isLower.1
        omega
      · cases digit
  have row : ∀ code : Fin 128, 48 ≤ code.val ∧ code.val ≤ 57 ∨ 97 ≤ code.val ∧ code.val ≤ 102 →
      Char.ofNat code.val ∈ digitRow := by decide
  have member := row ⟨c.toNat, by omega⟩ code
  rwa [Char.ofNat_toNat] at member

/-- Reading a digit finds its place in the row. -/
theorem digit?_eq_some_iff {c : Char} {d : Nat} (small : d < 16) : digit? c = some d ↔ digitValue c = d := by
  constructor
  · intro digit
    have within : digitRow.idxOf c < digitRow.length := List.idxOf_lt_length_of_mem (mem_digitRow digit small)
    have found : digit? digitRow[digitRow.idxOf c] = some (digitValue c) := digit?_digitRow ⟨_, within⟩
    rw [List.getElem_idxOf within, digit] at found
    exact (Option.some.inj found).symm
  · rintro rfl
    have found : digit? digitRow[digitRow.idxOf c] = some (digitValue c) := digit?_digitRow ⟨_, small⟩
    rwa [List.getElem_idxOf small] at found

/-- A further digit multiplies what was read by the base. -/
theorem digit?_bind_eq_some_iff (small : base ≤ 16) {c : Char} {start : Nat} :
    ((digit? c).bind fun digit => if digit < base then some (base * start + digit) else none) = some n ↔
      digitValue c < base ∧ n = base * start + digitValue c := by
  rw [Option.bind_eq_some_iff]
  constructor
  · rintro ⟨digit, read, next⟩
    split at next
    · rename_i less
      rw [(digit?_eq_some_iff (Nat.lt_of_lt_of_le less small)).mp read]
      exact ⟨less, (Option.some.inj next).symm⟩
    · cases next
  · rintro ⟨less, rfl⟩
    exact ⟨digitValue c, (digit?_eq_some_iff (Nat.lt_of_lt_of_le less small)).mpr rfl, if_pos less⟩

/-- Digits read from the left stand for their positional value. -/
theorem value?_eq_some_iff (small : base ≤ 16) : value? base digits = some n ↔
    (∀ c ∈ digits, digitValue c < base) ∧ n = positional base (digits.map digitValue) := by
  induction digits using List.reverseRecOn generalizing n with
  | nil => simp [value?, positional, eq_comm]
  | append_singleton digits c ih =>
    have step : value? base (digits ++ [c]) = (value? base digits).bind fun start =>
        (digit? c).bind fun digit => if digit < base then some (base * start + digit) else none := by
      simp [value?, List.foldlM_append]
    rw [step, Option.bind_eq_some_iff, List.map_append, List.map_singleton, positional_concat]
    simp only [digit?_bind_eq_some_iff small, ih]
    constructor
    · rintro ⟨start, ⟨before, rfl⟩, less, rfl⟩
      refine ⟨fun d member => ?_, rfl⟩
      rcases List.mem_append.mp member with member | member
      · exact before d member
      · rwa [List.mem_singleton.mp member]
    · rintro ⟨all, rfl⟩
      exact ⟨_, ⟨fun d member => all d (List.mem_append_left [c] member), rfl⟩, all c (by simp), rfl⟩

/-- What is read as an unsigned number: digits, perhaps after a plus sign. -/
theorem unsigned?_eq_some_iff (small : base ≤ 16) {text : List Char} : unsigned? base text = some n ↔
    ∃ digits, (text = digits ∨ text = '+' :: digits) ∧ digits ≠ [] ∧ (∀ c ∈ digits, digitValue c < base) ∧
      n = positional base (digits.map digitValue) ∧ n < Nat.pow 2 128 := by
  have reads (digits : List Char) :
      (if digits.isEmpty then none else (value? base digits).filter (· < Nat.pow 2 128)) = some n ↔
        digits ≠ [] ∧ (∀ c ∈ digits, digitValue c < base) ∧
          n = positional base (digits.map digitValue) ∧ n < Nat.pow 2 128 := by
    rw [← List.isEmpty_eq_false_iff]
    split
    · rename_i empty
      simp [empty]
    · rename_i nonempty
      rw [Option.filter_eq_some_iff, value?_eq_some_iff small, decide_eq_true_eq, and_assoc]
      exact ⟨fun read => ⟨Bool.eq_false_iff.mpr nonempty, read⟩, And.right⟩
  unfold unsigned?
  split
  · rename_i digits
    refine (reads digits).trans ⟨fun read => ⟨digits, Or.inr rfl, read⟩, ?_⟩
    rintro ⟨other, rfl | same, read⟩
    · have less := read.2.1 '+' List.mem_cons_self
      have value : digitValue '+' = 16 := by decide
      omega
    · rwa [(List.cons.inj same).2]
  · rename_i plain
    refine (reads text).trans ⟨fun read => ⟨text, Or.inl rfl, read⟩, ?_⟩
    rintro ⟨digits, rfl | rfl, read⟩
    · exact read
    · exact absurd rfl (plain digits)

end Digits

section Kinds

variable {unsigned long : Bool} {suffix : List Char} {n : Nat} {kind : IntegerKind} {constant : Constant}

theorem mem_candidates : kind ∈ candidates unsigned long ↔
    (unsigned = true → kind.isSigned = false) ∧ (long = true → kind.width = 64) := by
  cases unsigned <;> cases long <;> cases kind <;> decide

theorem pairwise_candidates (unsigned long : Bool) :
    (candidates unsigned long).Pairwise fun before after => before.rank ≤ after.rank := by
  cases unsigned <;> cases long <;> decide

/-- The kinds that are tried are those that the suffix admits. -/
theorem mem_candidates_suffix :
    kind ∈ candidates (suffix.contains 'u') (suffix.contains 'l') ↔ Admits suffix kind := by
  rw [mem_candidates, List.contains_iff_mem, List.contains_iff_mem]
  rfl

theorem rank_injective {first second : IntegerKind} (same : first.rank = second.rank) : first = second := by
  cases first <;> cases second <;> first | rfl | cases same

/-- Among kinds in order the one that is found comes before all others that would do. -/
theorem find?_eq_some_iff_of_pairwise {holds : IntegerKind → Bool} {kinds : List IntegerKind}
    (ordered : kinds.Pairwise fun before after => before.rank ≤ after.rank) :
    kinds.find? holds = some kind ↔
      kind ∈ kinds ∧ holds kind = true ∧ ∀ other ∈ kinds, holds other = true → kind.rank ≤ other.rank := by
  induction kinds with
  | nil => simp
  | cons front kinds ih =>
    obtain ⟨before, ordered⟩ := List.pairwise_cons.mp ordered
    by_cases found : holds front = true
    · rw [List.find?_cons_of_pos found]
      constructor
      · rintro ⟨⟩
        refine ⟨List.mem_cons_self, found, fun other member _ => ?_⟩
        rcases List.mem_cons.mp member with rfl | member
        · exact Nat.le_refl _
        · exact before other member
      · rintro ⟨member, _, first⟩
        rcases List.mem_cons.mp member with rfl | member
        · rfl
        · have same := Nat.le_antisymm (before kind member) (first front List.mem_cons_self found)
          rw [rank_injective same]
    · rw [List.find?_cons_of_neg found, ih ordered]
      constructor
      · rintro ⟨member, holds, first⟩
        refine ⟨List.mem_cons_of_mem front member, holds, fun other member' holds' => ?_⟩
        rcases List.mem_cons.mp member' with rfl | member'
        · exact absurd holds' found
        · exact first other member' holds'
      · rintro ⟨member, holds, first⟩
        rcases List.mem_cons.mp member with rfl | member
        · exact absurd holds found
        · exact ⟨member, holds, fun other member' => first other (List.mem_cons_of_mem front member')⟩

theorem firstHolding_iff : FirstHolding suffix n kind ↔
    (candidates (suffix.contains 'u') (suffix.contains 'l')).find? (n ≤ ·.greatest) = some kind := by
  rw [find?_eq_some_iff_of_pairwise (pairwise_candidates _ _)]
  simp only [mem_candidates_suffix, decide_eq_true_eq]
  constructor
  · rintro ⟨admits, holds, first⟩
    exact ⟨admits, holds, first⟩
  · rintro ⟨admits, holds, first⟩
    exact ⟨admits, holds, first⟩

theorem typed_eq_ok_iff : typed (candidates (suffix.contains 'u') (suffix.contains 'l')) n = .ok constant ↔
    ∃ kind, FirstHolding suffix n kind ∧ constant = kind.wrap n := by
  simp only [firstHolding_iff]
  unfold typed
  split
  · rename_i kind found
    constructor
    · rintro ⟨⟩
      exact ⟨kind, found, rfl⟩
    · rintro ⟨other, found', rfl⟩
      rw [found] at found'
      cases found'
      rfl
  · rename_i missing
    constructor
    · rintro ⟨⟩
    · rintro ⟨other, found, _⟩
      rw [missing] at found
      cases found

theorem greatest_le (kind : IntegerKind) : kind.greatest ≤ Nat.pow 2 64 - 1 := by cases kind <;> decide

/-- Every suffix admits a kind that holds any number of 64 bits. -/
theorem exists_firstHolding_iff : (∃ kind, FirstHolding suffix n kind) ↔ n ≤ Nat.pow 2 64 - 1 := by
  constructor
  · rintro ⟨kind, first⟩
    exact Nat.le_trans first.holds (greatest_le kind)
  · intro small
    have admits : Admits suffix .ulong := ⟨fun _ => rfl, fun _ => rfl⟩
    have found : ((candidates (suffix.contains 'u') (suffix.contains 'l')).find? (n ≤ ·.greatest)).isSome = true :=
      List.find?_isSome.mpr ⟨.ulong, mem_candidates_suffix.mpr admits, decide_eq_true small⟩
    obtain ⟨kind, found⟩ := Option.isSome_iff_exists.mp found
    exact ⟨kind, firstHolding_iff.mpr found⟩

/-- A number that a kind holds is the value of its word. -/
theorem value_ofInt_of_le (holds : n ≤ kind.greatest) : kind.value (BitVec.ofInt kind.width n) = n := by
  refine IntegerKind.convert_eq_self ?_ (by exact_mod_cast holds)
  have least : kind.least ≤ 0 := by cases kind <;> decide
  omega

end Kinds

section Parts

/-- The letters are split off where the digits end. -/
theorem splitSuffix_append {digits letters : List Char} (plain : ∀ c ∈ digits, isSuffixLetter c = false)
    (marked : ∀ c ∈ letters, isSuffixLetter c = true) :
    splitSuffix (digits ++ letters) = (digits, letters.reverse) := by
  have marked' : ∀ c ∈ letters.reverse, isSuffixLetter c = true := fun c member =>
    marked c (List.mem_reverse.mp member)
  have stops : digits.reverse.takeWhile isSuffixLetter = [] ∧
      digits.reverse.dropWhile isSuffixLetter = digits.reverse := by
    cases reversed : digits.reverse with
    | nil => exact ⟨rfl, rfl⟩
    | cons c others =>
      have last : isSuffixLetter c = false := plain c (List.mem_reverse.mp (by rw [reversed]; exact List.mem_cons_self))
      simp [last]
  simp only [splitSuffix, List.reverse_append, List.span_eq_takeWhile_dropWhile,
    List.takeWhile_append_of_pos marked', List.dropWhile_append_of_pos marked', stops.1, stops.2,
    List.append_nil, List.reverse_reverse]

theorem splitRadix_of_ne {first : Char} (others : List Char) (plain : first ≠ '0') :
    splitRadix (first :: others) = (10, first :: others) := by
  unfold splitRadix
  split
  · rename_i leading
    exact absurd (List.cons.inj leading).1 plain
  · rename_i leading
    exact absurd (List.cons.inj leading).1 plain
  · rename_i leading
    exact absurd (List.cons.inj leading).1 plain
  · rfl

theorem splitRadix_octal {second : Char} (others : List Char) (plain : second ∉ ['x', 'b']) :
    splitRadix ('0' :: second :: others) = (8, second :: others) := by
  unfold splitRadix
  split
  · rename_i same
    cases same
    exact absurd (by decide) plain
  · rename_i same
    cases same
    exact absurd (by decide) plain
  · rename_i same
    cases same
    rfl
  · rename_i other
    exact absurd rfl (other second others)

variable (literal : Literal)

theorem Literal.mem_text {c : Char} (member : c ∈ literal.text) :
    c ∈ literal.radix.mark ∨ c ∈ ['_', 'u', 'l'] ∨ digitValue c < literal.radix.base := by
  rcases List.mem_append.mp member with member | member
  · rcases List.mem_append.mp member with member | member
    · exact Or.inl member
    · rcases literal.ofRadix c member with rfl | digit
      · exact Or.inr (Or.inl List.mem_cons_self)
      · exact Or.inr (Or.inr digit)
  · rcases literal.letters c member with rfl | rfl <;> exact Or.inr (Or.inl (by decide))

theorem base_le (radix : Radix) : radix.base ≤ 16 := by cases radix <;> decide

theorem Literal.isSuffixLetter_body {c : Char} (member : c ∈ literal.radix.mark ++ literal.digits) :
    isSuffixLetter c = false := by
  rcases List.mem_append.mp member with member | member
  · have marks : literal.radix.mark.all (fun c => !isSuffixLetter c) = true := by
      cases literal.radix <;> decide
    simpa using List.all_eq_true.mp marks c member
  · rcases literal.ofRadix c member with rfl | digit
    · decide
    · have small := Nat.lt_of_lt_of_le digit (base_le literal.radix)
      simp only [isSuffixLetter, Bool.or_eq_false_iff, decide_eq_false_iff_not]
      constructor <;> rintro rfl <;> exact absurd small (by decide)

theorem Literal.isSuffixLetter_suffix {c : Char} (member : c ∈ literal.suffix) : isSuffixLetter c = true := by
  rcases literal.letters c member with rfl | rfl <;> rfl

theorem Literal.exists_first : ∃ first others, literal.digits = first :: others ∧
    (first = '_' ∨ digitValue first < literal.radix.base) := by
  cases split : literal.digits with
  | nil =>
    obtain ⟨c, member, _⟩ := literal.exists_digit
    rw [split] at member
    cases member
  | cons first others => exact ⟨first, others, rfl, literal.ofRadix first (by rw [split]; exact List.mem_cons_self)⟩

/-- The radix is that of the mark, but a padded zero looks like an octal mark. -/
theorem Literal.splitRadix_body (plain : ¬ literal.IsPaddedZero) :
    splitRadix (literal.radix.mark ++ literal.digits) = (literal.radix.base, literal.digits) := by
  obtain ⟨first, others, split, valid⟩ := literal.exists_first
  cases kind : literal.radix with
  | hexadecimal => rfl
  | binary => rfl
  | octal =>
    rw [split]
    refine splitRadix_octal others fun member => ?_
    rw [kind] at valid
    simp only [List.mem_cons, List.not_mem_nil, or_false] at member
    rcases member with rfl | rfl <;> exact absurd valid (by decide)
  | decimal =>
    obtain ⟨_, zero⟩ := literal.leading kind
    rw [split] at zero ⊢
    by_cases leads : first = '0'
    · subst leads
      cases others with
      | nil => rfl
      | cons second others =>
        have underscore : second = '_' := zero rfl second List.mem_cons_self
        exact absurd ⟨kind, others, by rw [split, underscore]⟩ plain
    · exact splitRadix_of_ne others leads

theorem Literal.digitValue_lt {c : Char} (member : c ∈ literal.digits.filter (· ≠ '_')) :
    digitValue c < literal.radix.base := by
  obtain ⟨member, other⟩ := List.mem_filter.mp member
  exact (literal.ofRadix c member).resolve_left (of_decide_eq_true other)

theorem Literal.unsigned?_digits {n : Nat} :
    unsigned? literal.radix.base (literal.digits.filter (· ≠ '_')) = some n ↔
      n = literal.value ∧ n < Nat.pow 2 128 := by
  rw [unsigned?_eq_some_iff (base_le literal.radix)]
  constructor
  · rintro ⟨digits, rfl | signed, _, _, value⟩
    · exact value
    · have less := literal.digitValue_lt (c := '+') (by rw [signed]; exact List.mem_cons_self)
      exact absurd (Nat.lt_of_lt_of_le less (base_le literal.radix)) (by decide)
  · intro value
    refine ⟨_, Or.inl rfl, fun empty => ?_, fun c => literal.digitValue_lt, value⟩
    obtain ⟨c, member, other⟩ := literal.exists_digit
    exact List.filter_eq_nil_iff.mp empty c member (decide_eq_true other)

theorem Literal.splitSuffix_text :
    splitSuffix literal.text = (literal.radix.mark ++ literal.digits, literal.suffix.reverse) :=
  splitSuffix_append (fun _ => literal.isSuffixLetter_body) (fun _ => literal.isSuffixLetter_suffix)

theorem Literal.suffix_few : ¬ (1 < literal.suffix.count 'u' ∨ 2 < literal.suffix.count 'l') := by
  have one := literal.atMostOne
  have two := literal.atMostTwo
  omega

theorem Literal.integer_text (plain : ¬ literal.IsPaddedZero) {constant : Constant} :
    integer literal.text = .ok constant ↔
      ∃ kind, FirstHolding literal.suffix literal.value kind ∧ constant = kind.wrap literal.value := by
  simp only [integer, literal.splitSuffix_text, List.count_reverse, List.contains_reverse,
    if_neg literal.suffix_few, literal.splitRadix_body plain]
  split
  · rename_i missing
    constructor
    · rintro ⟨⟩
    · rintro ⟨kind, first, _⟩
      have small := exists_firstHolding_iff.mp ⟨kind, first⟩
      have bound : Nat.pow 2 64 - 1 < Nat.pow 2 128 := by decide
      have read := literal.unsigned?_digits.mpr ⟨rfl, Nat.lt_of_le_of_lt small bound⟩
      rw [missing] at read
      cases read
  · rename_i n read
    obtain ⟨rfl, _⟩ := literal.unsigned?_digits.mp read
    exact typed_eq_ok_iff

/-- The digits of a padded zero are taken for octal ones, of which there are none. -/
theorem Literal.integer_paddedZero (padded : literal.IsPaddedZero) : integer literal.text = .error .integer := by
  obtain ⟨kind, others, split⟩ := padded
  obtain ⟨_, zero⟩ := literal.leading kind
  have underscores : ∀ c ∈ '_' :: others, c = '_' := by
    rw [split] at zero
    exact zero rfl
  have none : ('_' :: others).filter (· ≠ '_') = [] :=
    List.filter_eq_nil_iff.mpr fun c member => by simp [underscores c member]
  have body : literal.radix.mark ++ literal.digits = '0' :: '_' :: others := by rw [kind, split]; rfl
  simp only [integer, literal.splitSuffix_text, List.count_reverse, if_neg literal.suffix_few, body,
    splitRadix_octal others (by decide : '_' ∉ ['x', 'b']), none]
  rfl

/-- No literal looks like a floating one. -/
theorem Literal.isFloating_text : isFloating literal.text = false := by
  by_cases narrow : literal.radix.base ≤ 10
  · have absent {c : Char} (large : 10 ≤ digitValue c) (other : c ∉ ['_', 'u', 'l']) (other' : c ∉ ['0', 'x', 'b']) :
        c ∉ literal.text := by
      intro member
      rcases literal.mem_text member with mark | mark | digit
      · refine other' ?_
        have marks : literal.radix.mark ⊆ ['0', 'x', 'b'] := by cases literal.radix <;> decide
        exact marks mark
      · exact other mark
      · omega
    have point : '.' ∉ literal.text := absent (by decide) (by decide) (by decide)
    have exponent : 'e' ∉ literal.text := absent (by decide) (by decide) (by decide)
    have last : literal.text.getLast? ≠ some 'f' := fun last =>
      absent (by decide) (by decide) (by decide) (List.mem_of_getLast? last)
    simp [isFloating, point, exponent, last]
  · unfold isFloating text
    cases kind : literal.radix with
    | hexadecimal => rfl
    | binary => rfl
    | _ => rw [kind] at narrow; exact absurd (by decide) narrow

end Parts

/-- A literal is read as its value in the first kind of its suffix, unless it is a padded zero. -/
theorem Literal.ofNumeral_eq_ok_iff {literal : Literal} {text : String} (spelled : literal.Spells text)
    {constant : Constant} : Constant.ofNumeral text = .ok constant ↔
      ¬ literal.IsPaddedZero ∧
        ∃ kind, FirstHolding literal.suffix literal.value kind ∧ constant = kind.wrap literal.value := by
  have read : Constant.ofNumeral text = integer literal.text := by
    simp only [Constant.ofNumeral, show text.toList.map Char.toLower = literal.text from spelled,
      literal.isFloating_text, Bool.false_eq_true, if_false]
  rw [read]
  by_cases padded : literal.IsPaddedZero
  · rw [literal.integer_paddedZero padded]
    constructor
    · rintro ⟨⟩
    · exact fun plain => absurd padded plain.1
  · exact (literal.integer_text padded).trans ⟨fun read => ⟨padded, read⟩, And.right⟩

/-- A literal is accepted exactly if 64 bits hold its value, a padded zero apart, and it gets the
first kind of its suffix that holds the value. -/
theorem ofNumeral_spelling (literal : Literal) (text : String) (spelled : literal.Spells text) :
    ((∃ constant, Constant.ofNumeral text = .ok constant) ↔
      literal.value ≤ Nat.pow 2 64 - 1 ∧ ¬ literal.IsPaddedZero) ∧
    ∀ constant, Constant.ofNumeral text = .ok constant → ∃ kind word,
      constant = .integer kind word ∧ kind.value word = literal.value ∧
        FirstHolding literal.suffix literal.value kind := by
  constructor
  · rw [← exists_firstHolding_iff]
    constructor
    · rintro ⟨constant, read⟩
      obtain ⟨plain, kind, first, _⟩ := (Literal.ofNumeral_eq_ok_iff spelled).mp read
      exact ⟨⟨kind, first⟩, plain⟩
    · rintro ⟨⟨kind, first⟩, plain⟩
      exact ⟨_, (Literal.ofNumeral_eq_ok_iff spelled).mpr ⟨plain, kind, first, rfl⟩⟩
  · intro constant read
    obtain ⟨_, kind, first, rfl⟩ := (Literal.ofNumeral_eq_ok_iff spelled).mp read
    exact ⟨kind, _, rfl, value_ofInt_of_le first.holds, first⟩

def Literal.mask : Literal where
  radix := .hexadecimal
  digits := ['_', 'f', 'f', 'f', 'f', '_', 'f', 'f', 'f', 'f']
  suffix := ['u']
  ofRadix := forall_mem_of_all (by decide)
  exists_digit := ⟨'f', by decide, by decide⟩
  leading := by rintro ⟨⟩
  letters := forall_mem_of_all (by decide)
  atMostOne := by decide
  atMostTwo := by decide

theorem ofNumeral_spelling_mask : Literal.mask.Spells "0X_FFFF_ffffU" ∧
    ∃ word, Constant.ofNumeral "0X_FFFF_ffffU" = .ok (.integer .uint word) ∧
      IntegerKind.uint.value word = 4294967295 := by
  have spelled : Literal.mask.Spells "0X_FFFF_ffffU" := by decide
  have value : Literal.mask.value = 4294967295 := by decide
  obtain ⟨accepted, typed⟩ := ofNumeral_spelling Literal.mask "0X_FFFF_ffffU" spelled
  obtain ⟨constant, read⟩ := accepted.mpr ⟨by rw [value]; decide, fun padded => absurd padded.1 (by decide)⟩
  obtain ⟨kind, word, rfl, exact, first⟩ := typed constant read
  have least := first.first .uint ⟨fun _ => rfl, fun wide => absurd wide (by decide)⟩ (by rw [value]; decide)
  have unsigned := first.admits.1 (by decide)
  rw [value] at exact
  cases kind with
  | uint => exact ⟨spelled, word, read, exact⟩
  | ulong => exact absurd least (by decide)
  | int => cases unsigned
  | long => cases unsigned

def Literal.paddedZero : Literal where
  radix := .decimal
  digits := ['0', '_']
  suffix := []
  ofRadix := forall_mem_of_all (by decide)
  exists_digit := ⟨'0', by decide, by decide⟩
  leading := fun _ => ⟨by decide, fun _ => forall_mem_of_all (by decide)⟩
  letters := by rintro c ⟨⟩
  atMostOne := by decide
  atMostTwo := by decide

/-- A padded zero is refused although 64 bits hold it. -/
theorem not_always_accepted : ¬ ∀ (literal : Literal) (text : String), literal.Spells text →
    ((∃ constant, Constant.ofNumeral text = .ok constant) ↔ literal.value ≤ Nat.pow 2 64 - 1) := by
  intro always
  have spelled : Literal.paddedZero.Spells "0_" := by decide
  obtain ⟨constant, read⟩ := (always Literal.paddedZero "0_" spelled).mpr (by decide)
  exact ((Literal.ofNumeral_eq_ok_iff spelled).mp read).1 ⟨rfl, [], rfl⟩

section Recognition

/-- Only small letters come from other characters. -/
theorem eq_of_toLower_eq {c d : Char} (plain : d.isLower = false) (same : c.toLower = d) : c = d := by
  subst same
  revert plain
  delta Char.toLower
  split
  · rename_i upper
    intro plain
    delta Char.isLower at plain
    simp only [ge_iff_le, UInt32.le_iff_toNat_le] at upper
    simp only [ge_iff_le, UInt32.le_iff_toNat_le, UInt32.toNat_add, Bool.and_eq_false_iff,
      decide_eq_false_iff_not] at plain
    have low : 'A'.val.toNat = 65 := rfl
    have high : 'Z'.val.toNat = 90 := rfl
    have shift : ('a'.val - 'A'.val).toNat = 32 := rfl
    have low' : 'a'.val.toNat = 97 := rfl
    have high' : 'z'.val.toNat = 122 := rfl
    omega
  · intro _
    rfl

theorem not_isLower_of_isDigit {c : Char} (digit : c.isDigit = true) : c.isLower = false := by
  have upper := (Char.isDigit_iff_toNat.mp digit).2
  rw [Bool.eq_false_iff]
  intro lower
  delta Char.isLower at lower
  simp only [Bool.and_eq_true, decide_eq_true_eq, ge_iff_le, UInt32.le_iff_toNat_le] at lower
  exact absurd (Nat.le_trans lower.1 upper) (by decide)

theorem toLower_of_isDigit {c : Char} (digit : c.isDigit = true) : c.toLower = c := by
  delta Char.toLower
  rw [dif_neg]
  rintro ⟨lower, _⟩
  have upper := (Char.isDigit_iff_toNat.mp digit).2
  have lower : 65 ≤ c.toNat := lower
  exact absurd (Nat.le_trans lower upper) (by decide)

theorem isDigit_of_digitValue_lt {c : Char} (small : digitValue c < 10) : c.isDigit = true := by
  have all : ∀ place : Fin 10, (digitRow[place.val]).isDigit = true := by decide
  have digit := all ⟨digitRow.idxOf c, small⟩
  rwa [List.getElem_idxOf] at digit

/-- Every literal starts with a digit. -/
theorem Literal.first_text (literal : Literal) :
    ∃ first others, literal.text = first :: others ∧ first.isDigit = true := by
  obtain ⟨first, others, split, valid⟩ := literal.exists_first
  unfold Literal.text
  cases kind : literal.radix with
  | decimal =>
    refine ⟨first, others ++ literal.suffix, by rw [split]; rfl, isDigit_of_digitValue_lt ?_⟩
    obtain ⟨plain, _⟩ := literal.leading kind
    rw [split] at plain
    rw [kind] at valid
    exact valid.resolve_left fun underscore => plain (by rw [underscore]; rfl)
  | _ => exact ⟨'0', _, rfl, by decide⟩

theorem Literal.plus_not_mem_text (literal : Literal) : '+' ∉ literal.text := by
  intro member
  rcases literal.mem_text member with mark | mark | digit
  · have marks : '+' ∉ literal.radix.mark := by cases literal.radix <;> decide
    exact marks mark
  · exact absurd mark (by decide)
  · exact absurd (Nat.lt_of_lt_of_le digit (base_le literal.radix)) (by decide)

/-- The parts of a text: what is not split off as a suffix, and the letters that are. -/
theorem splitSuffix_eq (text : List Char) : text = (splitSuffix text).1 ++ (splitSuffix text).2.reverse ∧
    ∀ c ∈ (splitSuffix text).2, isSuffixLetter c = true := by
  simp only [splitSuffix, List.span_eq_takeWhile_dropWhile]
  constructor
  · rw [← List.reverse_append, List.takeWhile_append_dropWhile, List.reverse_reverse]
  · exact List.all_eq_true.mp List.all_takeWhile

/-- What is taken for a mark and for digits. -/
theorem splitRadix_eq (body : List Char) : ∃ radix : Radix, ∃ digits : List Char,
    splitRadix body = (radix.base, digits) ∧ body = radix.mark ++ digits ∧
      (radix = .decimal → ∀ second others, digits ≠ '0' :: second :: others) := by
  unfold splitRadix
  split
  · rename_i digits
    exact ⟨.hexadecimal, digits, rfl, rfl, by rintro ⟨⟩⟩
  · rename_i digits
    exact ⟨.binary, digits, rfl, rfl, by rintro ⟨⟩⟩
  · rename_i second digits _ _
    exact ⟨.octal, second :: digits, rfl, rfl, by rintro ⟨⟩⟩
  · rename_i plain
    exact ⟨.decimal, body, rfl, rfl, fun _ => plain⟩

/-- Without a sign all that is read as a number are digits. -/
theorem digits_of_unsigned? {base n : Nat} {digits : List Char} (small : base ≤ 16)
    (read : unsigned? base (digits.filter (· ≠ '_')) = some n) (unsigned : '+' ∉ digits) :
    (∀ c ∈ digits, c = '_' ∨ digitValue c < base) ∧ ∃ c ∈ digits, c ≠ '_' := by
  obtain ⟨written, signed, nonempty, valid, _⟩ := (unsigned?_eq_some_iff small).mp read
  have plain : digits.filter (· ≠ '_') = written := by
    refine signed.resolve_right fun plus => ?_
    have member : '+' ∈ digits.filter (· ≠ '_') := by rw [plus]; exact List.mem_cons_self
    exact unsigned (List.mem_filter.mp member).1
  subst plain
  constructor
  · intro c member
    by_cases underscore : c = '_'
    · exact Or.inl underscore
    · exact Or.inr (valid c (List.mem_filter.mpr ⟨member, decide_eq_true underscore⟩))
  · obtain ⟨c, member⟩ := List.exists_mem_of_ne_nil _ nonempty
    obtain ⟨member, other⟩ := List.mem_filter.mp member
    exact ⟨c, member, of_decide_eq_true other⟩

/-- A text that is read as an integer is a literal if no sign misleads the reader. -/
theorem exists_literal {text : List Char} {constant : Constant} (read : integer text = .ok constant)
    {first : Char} {others : List Char} (front : text = first :: others) (digit : first.isDigit = true)
    (unsigned : '+' ∉ text) : ∃ literal : Literal, literal.text = text := by
  obtain ⟨whole, marked⟩ := splitSuffix_eq text
  obtain ⟨radix, digits, split, body, leading⟩ := splitRadix_eq (splitSuffix text).1
  simp only [integer, split] at read
  split at read
  · cases read
  rename_i few
  rw [not_or, Nat.not_lt, Nat.not_lt] at few
  split at read
  · cases read
  rename_i n number
  rw [body] at whole
  have absent : '+' ∉ digits := fun member => unsigned (by
    rw [whole]
    exact List.mem_append_left _ (List.mem_append_right radix.mark member))
  obtain ⟨ofRadix, exists_digit⟩ := digits_of_unsigned? (base_le radix) number absent
  have starts : radix = .decimal →
      digits.head? ≠ some '_' ∧ (digits.head? = some '0' → ∀ c ∈ digits.tail, c = '_') := by
    rintro rfl
    cases digits with
    | nil =>
      obtain ⟨c, member, _⟩ := exists_digit
      cases member
    | cons c rest =>
      obtain rfl : first = c := (List.cons.inj (front.symm.trans whole)).1
      refine ⟨fun underscore => ?_, fun zero => ?_⟩
      · obtain rfl := Option.some.inj underscore
        cases digit
      · obtain rfl := Option.some.inj zero
        cases rest with
        | nil => rintro d ⟨⟩
        | cons second rest => exact absurd rfl (leading rfl second rest)
  have letters : ∀ c ∈ (splitSuffix text).2.reverse, c = 'u' ∨ c = 'l' := fun c member => by
    have letter := marked c (List.mem_reverse.mp member)
    simpa only [isSuffixLetter, Bool.or_eq_true, decide_eq_true_eq] using letter
  refine ⟨⟨radix, digits, (splitSuffix text).2.reverse, ofRadix, exists_digit, starts, letters, ?_, ?_⟩, whole.symm⟩
  · rw [List.count_reverse]
    exact few.1
  · rw [List.count_reverse]
    exact few.2

theorem floating_ne_integer (text : List Char) (kind : IntegerKind) (word : BitVec kind.width) :
    floating text ≠ .ok (.integer kind word) := by
  intro read
  simp only [floating] at read
  split at read
  · rename_i constant number
    cases read
    split at number <;>
      (obtain ⟨_, _, fraction⟩ := Option.map_eq_some_iff.mp number
       cases fraction)
  · cases read

end Recognition

/-- What is read as an integer is an integer literal exactly if it starts with a digit and has no
plus sign. -/
theorem isLiteral_iff_of_ofNumeral {text : String} {kind : IntegerKind} {word : BitVec kind.width}
    (read : Constant.ofNumeral text = .ok (.integer kind word)) : IsLiteral text ↔
      (∃ first others, text.toList = first :: others ∧ first.isDigit = true) ∧ '+' ∉ text.toList := by
  constructor
  · rintro ⟨literal, spelled⟩
    constructor
    · obtain ⟨first, others, split, digit⟩ := literal.first_text
      obtain ⟨c, rest, front, same, _⟩ := List.map_eq_cons_iff.mp ((show _ = _ from spelled).trans split)
      refine ⟨c, rest, front, ?_⟩
      rwa [eq_of_toLower_eq (not_isLower_of_isDigit digit) same]
    · intro member
      have plus : '+' ∈ text.toList.map Char.toLower := List.mem_map_of_mem member
      rw [show text.toList.map Char.toLower = literal.text from spelled] at plus
      exact literal.plus_not_mem_text plus
  · rintro ⟨⟨first, others, front, digit⟩, unsigned⟩
    simp only [Constant.ofNumeral] at read
    split at read
    · exact absurd read (floating_ne_integer _ kind word)
    · have same : first.toLower = first := Numeral.toLower_of_isDigit digit
      obtain ⟨literal, spelled⟩ := exists_literal read (by rw [front]; rfl) (by rw [same]; exact digit) (by
        intro member
        obtain ⟨c, member, plus⟩ := List.mem_map.mp member
        exact unsigned (eq_of_toLower_eq (by decide) plus ▸ member))
      exact ⟨literal, spelled.symm⟩

theorem isLiteral_iff_of_ofNumeral_mask :
    (∃ kind word, Constant.ofNumeral "0X_FFFF_ffffU" = .ok (.integer kind word)) ∧ IsLiteral "0X_FFFF_ffffU" := by
  have spelled : Literal.mask.Spells "0X_FFFF_ffffU" := by decide
  have value : Literal.mask.value = 4294967295 := by decide
  obtain ⟨kind, first⟩ := exists_firstHolding_iff.mpr
    (show Literal.mask.value ≤ Nat.pow 2 64 - 1 by rw [value]; decide)
  have read := (Literal.ofNumeral_eq_ok_iff spelled).mpr
    ⟨fun padded => absurd padded.1 (by decide), kind, first, rfl⟩
  exact ⟨⟨kind, _, read⟩, (isLiteral_iff_of_ofNumeral read).mpr ⟨⟨'0', _, rfl, by decide⟩, by decide⟩⟩

/-- A number with a sign is read as an integer. -/
theorem not_only_literals : ¬ ∀ (text : String) (kind : IntegerKind) (word : BitVec kind.width),
    Constant.ofNumeral text = .ok (.integer kind word) → IsLiteral text := by
  intro only
  have read : Constant.ofNumeral "+5" = .ok (.integer .int 5) := by decide
  obtain ⟨literal, spelled⟩ := only "+5" .int 5 read
  refine literal.plus_not_mem_text ?_
  rw [← show "+5".toList.map Char.toLower = literal.text from spelled]
  decide

end Interop.Numeral
