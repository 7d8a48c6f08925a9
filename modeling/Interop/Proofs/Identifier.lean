import Mathlib.Data.List.Nodup
import Interop.Identifier
import Interop.Proofs.Constant.Numeral

/-! Identifiers of members. A declared name is written as it is unless it is reserved, and a member
without a name is called after its position; nothing keeps these apart from the declared names. Different
members get the same identifier exactly if a name is declared beside its escaped form, or beside a
position that is called so. -/
namespace Interop.Identifier

/-- The identifier of a member at a position, where members without a name have a stem in common. -/
def positional (stem name : String) (index : Nat) : String :=
  if name = "" then stem ++ toString index else escape name

theorem parameter_eq : parameter = positional "arg" := rfl

def identifiers (stem : String) (names : List String) : List String :=
  names.mapIdx fun index name => positional stem name index

/-- Two members become one identifier although their declared names are different. -/
inductive Clashes (stem : String) (names : List String) : Prop where
  | escaped {word : String} : isReserved word → word ∈ names → "_" ++ word ∈ names → Clashes stem names
  | unnamed {index : Nat} : names[index]? = some "" → stem ++ toString index ∈ names → Clashes stem names

theorem clashes_iff {stem : String} {names : List String} : Clashes stem names ↔
    (∃ word ∈ names, isReserved word ∧ "_" ++ word ∈ names) ∨
      ∃ index ∈ List.range names.length, names[index]? = some "" ∧ stem ++ toString index ∈ names := by
  constructor
  · rintro (⟨reserved, present, escaped⟩ | ⟨unnamed, present⟩)
    · exact .inl ⟨_, present, reserved, escaped⟩
    · have within := (List.getElem?_eq_some_iff.mp unnamed).1
      exact .inr ⟨_, List.mem_range.mpr within, unnamed, present⟩
  · rintro (⟨word, present, reserved, escaped⟩ | ⟨index, -, unnamed, present⟩)
    · exact .escaped reserved present escaped
    · exact .unnamed unnamed present

instance (stem : String) (names : List String) : Decidable (Clashes stem names) := decidable_of_iff _ clashes_iff.symm

section

variable {text name other : String} {c : Char}

theorem isLower_of_isReserved (reserved : isReserved text) (member : c ∈ text.toList) : c.isLower := by
  have all : (reservedWords.all fun word => word.toList.all Char.isLower) = true := by decide +kernel
  have lower := List.all_eq_true.mp all text (List.contains_iff_mem.mp reserved)
  exact List.all_eq_true.mp lower c member

theorem not_isReserved_underscore (name : String) : isReserved ("_" ++ name) = false := by
  rw [Bool.eq_false_iff]
  intro reserved
  have lower := isLower_of_isReserved reserved (c := '_') (by simp)
  exact absurd lower (by decide)

theorem escape_reserved (reserved : isReserved name) : escape name = "_" ++ name := if_pos reserved

theorem escape_other (other : isReserved name = false) : escape name = name := by
  rw [escape, other]
  rfl

/-- Reserved words and their escaped forms consist of small letters and underscores; any other text is the
identifier of one name only. -/
theorem escape_eq_iff_of_mem (member : c ∈ text.toList) (large : c.isLower = false) (other : c ≠ '_') :
    escape name = text ↔ name = text := by
  cases reserved : isReserved name with
  | false => rw [escape_other reserved]
  | true =>
    have large (lower : c.isLower) : False := by
      rw [large] at lower
      cases lower
    rw [escape_reserved reserved]
    constructor
    · rintro rfl
      rw [String.toList_append, List.mem_append] at member
      rcases member with underscore | letter
      · exact absurd (List.mem_singleton.mp underscore) other
      · exact absurd (isLower_of_isReserved reserved letter) large
    · rintro rfl
      exact absurd (isLower_of_isReserved reserved member) large

/-- Two names become one identifier if they are the same or one of them is the other's escaped form. -/
theorem escape_eq_escape_iff : escape name = escape other ↔
    name = other ∨ (isReserved name ∧ other = "_" ++ name) ∨ (isReserved other ∧ name = "_" ++ other) := by
  cases reserved : isReserved name <;> cases reserved' : isReserved other
  · simp [escape_other reserved, escape_other reserved']
  · rw [escape_other reserved, escape_reserved reserved']
    have different : name ≠ other := by
      rintro rfl
      rw [reserved] at reserved'
      cases reserved'
    simp [different]
  · rw [escape_reserved reserved, escape_other reserved']
    have different : name ≠ other := by
      rintro rfl
      rw [reserved] at reserved'
      cases reserved'
    simp [different, eq_comm]
  · rw [escape_reserved reserved, escape_reserved reserved', String.append_right_inj]
    have apart (first second : String) (word : isReserved first) : first ≠ "_" ++ second := by
      rintro rfl
      rw [not_isReserved_underscore] at word
      cases word
    simp [apart _ _ reserved, apart _ _ reserved']

end

section

variable {stem name : String} {names : List String} {i j : Nat} {c : Char}

theorem toString_injective (same : stem ++ toString i = stem ++ toString j) : i = j := by
  have digits := congrArg String.toList ((String.append_right_inj stem).mp same)
  simp only [Nat.toString_eq_repr, Nat.toList_repr] at digits
  rw [← Nat.ofDigitChars_ten_toDigits (n := i), digits, Nat.ofDigitChars_ten_toDigits]

theorem positional_of_ne (nonempty : name ≠ "") : positional stem name i = escape name := if_neg nonempty

theorem mem_numbered (member : c ∈ Nat.toDigits 10 i) : c ∈ (stem ++ toString i).toList := by
  rw [String.toList_append, Nat.toString_eq_repr, Nat.toList_repr]
  exact List.mem_append_right _ member

theorem numbered_ne_empty : stem ++ toString i ≠ "" := by
  intro empty
  obtain ⟨c, member⟩ := List.exists_mem_of_ne_nil (Nat.toDigits 10 i) Nat.toDigits_ne_nil
  have member : c ∈ (stem ++ toString i).toList := mem_numbered member
  rw [empty] at member
  cases member

/-- A name called after a position is the identifier of itself only. -/
theorem escape_eq_numbered_iff : escape name = stem ++ toString i ↔ name = stem ++ toString i := by
  obtain ⟨c, member⟩ := List.exists_mem_of_ne_nil (Nat.toDigits 10 i) Nat.toDigits_ne_nil
  exact escape_eq_iff_of_mem (mem_numbered member)
    (Numeral.not_isLower_of_isDigit (Numeral.isDigit_of_mem member)) (Numeral.ne_underscore_of_mem member)

/-- Entries of a list at different positions are related if the relation is symmetric. -/
theorem pairwise_iff_getElem? {α : Type} {relation : α → α → Prop} {items : List α}
    (symm : ∀ a b, relation a b → relation b a) : items.Pairwise relation ↔
      ∀ (i j : Nat) (a b : α), items[i]? = some a → items[j]? = some b → ¬ relation a b → i = j := by
  rw [List.pairwise_iff_getElem]
  constructor
  · intro related i j a b first second unrelated
    obtain ⟨before, rfl⟩ := List.getElem?_eq_some_iff.mp first
    obtain ⟨within, rfl⟩ := List.getElem?_eq_some_iff.mp second
    rcases Nat.lt_trichotomy i j with less | same | greater
    · exact absurd (related i j before within less) unrelated
    · exact same
    · exact absurd (symm _ _ (related j i within before greater)) unrelated
  · intro apart i j before within less
    by_contra unrelated
    exact Nat.ne_of_lt less
      (apart i j _ _ (List.getElem?_eq_getElem before) (List.getElem?_eq_getElem within) unrelated)

/-- Members have different identifiers if their names are different and no two names fall together. -/
theorem nodup_identifiers_iff : (identifiers stem names).Nodup ↔
    (names.filter (· ≠ "")).Nodup ∧ ¬ Clashes stem names := by
  have position (i : Nat) : (identifiers stem names)[i]? = names[i]?.map (positional stem · i) :=
    List.getElem?_mapIdx
  unfold List.Nodup
  rw [List.pairwise_filter, pairwise_iff_getElem? (fun _ _ => Ne.symm), pairwise_iff_getElem? (by grind)]
  simp only [position, Option.map_eq_some_iff, decide_eq_true_eq, not_not]
  constructor
  · intro apart
    have apart {i j : Nat} {name other : String} (first : names[i]? = some name) (second : names[j]? = some other)
        (same : positional stem name i = positional stem other j) : i = j :=
      apart i j _ _ ⟨name, first, rfl⟩ ⟨other, second, rfl⟩ same
    constructor
    · intro i j name other first second alike
      obtain ⟨nonempty, -, rfl⟩ : name ≠ "" ∧ other ≠ "" ∧ name = other := by
        simpa only [Classical.not_imp, not_not] using alike
      exact apart first second (by rw [positional_of_ne nonempty, positional_of_ne nonempty])
    · rintro (@⟨word, reserved, present, escaped⟩ | @⟨index, unnamed, present⟩)
      · obtain ⟨i, first⟩ := List.mem_iff_getElem?.mp present
        obtain ⟨j, second⟩ := List.mem_iff_getElem?.mp escaped
        have nonempty : word ≠ "" := by
          rintro rfl
          cases reserved
        have behind : "_" ++ word ≠ "" := by simp
        have same : positional stem word i = positional stem ("_" ++ word) j := by
          rw [positional_of_ne nonempty, positional_of_ne behind, escape_reserved reserved,
            escape_other (not_isReserved_underscore word)]
        obtain rfl := apart first second same
        have equal := Option.some.inj (first.symm.trans second)
        rw [equal, not_isReserved_underscore] at reserved
        cases reserved
      · obtain ⟨j, second⟩ := List.mem_iff_getElem?.mp present
        have same : positional stem "" index = positional stem (stem ++ toString index) j := by
          rw [positional_of_ne numbered_ne_empty, escape_eq_numbered_iff.mpr rfl]
          rfl
        obtain rfl := apart unnamed second same
        exact absurd (Option.some.inj (second.symm.trans unnamed)) numbered_ne_empty
  · rintro ⟨distinct, free⟩ i j _ _ ⟨name, first, rfl⟩ ⟨other, second, rfl⟩ same
    by_cases unnamed : name = "" <;> by_cases unnamed' : other = ""
    · subst unnamed unnamed'
      exact toString_injective same
    · subst unnamed
      rw [positional_of_ne unnamed'] at same
      have called := escape_eq_numbered_iff.mp same.symm
      exact absurd (.unnamed first (called ▸ List.mem_of_getElem? second)) free
    · subst unnamed'
      rw [positional_of_ne unnamed] at same
      have called := escape_eq_numbered_iff.mp same
      exact absurd (.unnamed second (called ▸ List.mem_of_getElem? first)) free
    · rw [positional_of_ne unnamed, positional_of_ne unnamed', escape_eq_escape_iff] at same
      rcases same with rfl | ⟨reserved, rfl⟩ | ⟨reserved, rfl⟩
      · exact distinct i j name name first second (by simp [unnamed])
      · exact absurd (.escaped reserved (List.mem_of_getElem? first) (List.mem_of_getElem? second)) free
      · exact absurd (.escaped reserved (List.mem_of_getElem? second) (List.mem_of_getElem? first)) free

/-- A text that is nobody's escaped form or position is an identifier if it is declared. -/
theorem mem_identifiers_iff {text : String} (member : c ∈ text.toList) (large : c.isLower = false) (other : c ≠ '_')
    (unnumbered : ∀ i : Nat, stem ++ toString i ≠ text) : text ∈ identifiers stem names ↔ text ∈ names := by
  have nonempty : text ≠ "" := by
    rintro rfl
    cases member
  rw [identifiers, List.mem_mapIdx, List.mem_iff_getElem]
  refine exists_congr fun i => exists_congr fun _ => ?_
  by_cases unnamed : names[i] = ""
  · rw [unnamed, positional, if_pos rfl]
    exact iff_of_false (unnumbered i) nonempty.symm
  · rw [positional_of_ne unnamed, escape_eq_iff_of_mem member large other]

end

end Interop.Identifier
