import Interop.Document.Literal
import Interop.Json.Parser

/-! String literals read back. A literal stands on one line, so a character that ends a line has to be
written as an escape; which characters do is a parameter of the reader. The writer escapes quotes,
backslashes and controls, and every text is read back from its literal but for the two separators that
end a line and are no controls. -/
namespace Interop.StringLiteral

def escapes : List (Char × Char) :=
  [('\\', '\\'), ('"', '"'), ('n', '\n'), ('r', '\r'), ('t', '\t'), ('0', '\x00')]

/-- The characters that end a line of source text. -/
def lineTerminators : List Char := ['\r', '\n', '\u0085', '\u2028', '\u2029']

/-- The character of four hexadecimal digits; half of a surrogate pair is none. -/
def codePoint? (a b c d : Char) : Option Char := do
  let value ← Json.unit? a b c d
  if value.isValidChar then some (Char.ofNat value) else none

/-- What the characters between two quotes stand for, if they are escapes and characters that may stand
for themselves. -/
def decode? (terminators : List Char) : List Char → Option (List Char)
  | [] => some []
  | '\\' :: 'u' :: a :: b :: c :: d :: rest =>
    (codePoint? a b c d).bind fun decoded => (decode? terminators rest).map (decoded :: ·)
  | '\\' :: letter :: rest =>
    (escapes.lookup letter).bind fun decoded => (decode? terminators rest).map (decoded :: ·)
  | c :: rest =>
    if c = '"' ∨ c = '\\' ∨ c ∈ terminators then none
    else (decode? terminators rest).map (c :: ·)

def content? (terminators : List Char) (token : String) : Option String :=
  match token.toList with
  | '"' :: rest =>
    if rest.getLast? = some '"' then (decode? terminators rest.dropLast).map String.ofList else none
  | _ => none

def unescaped (terminators : List Char) : List Char := terminators.filter fun c => literalChar c = [c]

section

variable {terminators rest : List Char} {a b d e letter c : Char}

theorem decode?_escape (escape : escapes.lookup letter = some c) :
    decode? terminators ('\\' :: letter :: rest) = (decode? terminators rest).map (c :: ·) := by
  rw [decode?]
  · rw [escape, Option.bind_some]
  · rintro _ _ _ _ _ rfl
    cases escape

theorem decode?_unicode (read : codePoint? a b d e = some c) :
    decode? terminators ('\\' :: 'u' :: a :: b :: d :: e :: rest) = (decode? terminators rest).map (c :: ·) := by
  rw [decode?, read, Option.bind_some]

theorem decode?_plain (noQuote : c ≠ '"') (noBackslash : c ≠ '\\') :
    decode? terminators (c :: rest) =
      if c ∈ terminators then none else (decode? terminators rest).map (c :: ·) := by
  rw [decode?]
  · simp only [noQuote, noBackslash, false_or]
  · exact fun _ _ _ _ _ backslash => absurd backslash noBackslash
  · exact fun _ _ backslash => absurd backslash noBackslash

/-- A control is written with four digits, the first two of them zeros, that stand for it. -/
theorem hexDigits_of_isControl (control : isControl c = true) :
    ∃ d e, Json.hexDigits 4 c.toNat = ['0', '0', d, e] ∧ codePoint? '0' '0' d e = some c := by
  have small : c.toNat < 0xA0 := by
    simp only [isControl, Bool.or_eq_true, Bool.and_eq_true, decide_eq_true_eq] at control
    omega
  have read : ∀ n : Fin 0xA0,
      Json.hexDigits 4 n = ['0', '0', Nat.digitChar (n / 16), Nat.digitChar (n % 16)] ∧
      codePoint? '0' '0' (Nat.digitChar (n / 16)) (Nat.digitChar (n % 16)) = some (Char.ofNat n) := by
    decide +kernel
  have digits := read ⟨c.toNat, small⟩
  rw [Char.ofNat_toNat] at digits
  exact ⟨_, _, digits⟩

/-- A written character is read back, unless it stands for itself and ends a line. -/
theorem decode?_literalChar : decode? terminators (literalChar c ++ rest) =
    if c ∈ unescaped terminators then none else (decode? terminators rest).map (c :: ·) := by
  simp only [unescaped, List.mem_filter, decide_eq_true_eq]
  by_cases own : ∃ letter, literalChar c = ['\\', letter] ∧ escapes.lookup letter = some c
  · obtain ⟨letter, written, escape⟩ := own
    rw [written, List.cons_append, List.cons_append, List.nil_append, decode?_escape escape, if_neg]
    rintro ⟨-, same⟩
    cases same
  · have other (letter d : Char) (escape : escapes.lookup letter = some d)
        (written : literalChar d = ['\\', letter]) : c ≠ d := by
      rintro rfl
      exact own ⟨letter, written, escape⟩
    have backslash := other '\\' '\\' rfl rfl
    have quote := other '"' '"' rfl rfl
    have newline := other 'n' '\n' rfl rfl
    have ret := other 'r' '\r' rfl rfl
    have tab := other 't' '\t' rfl rfl
    have zero : c.toNat ≠ 0 := fun zero => other '0' '\x00' rfl rfl (Char.toNat_inj.mp zero)
    by_cases control : isControl c = true
    · obtain ⟨d, e, digits, read⟩ := hexDigits_of_isControl control
      have written : literalChar c = ['\\', 'u', '0', '0', d, e] := by
        simp only [literalChar, backslash, quote, newline, ret, tab, zero, control, digits, if_true, if_false]
      rw [written, if_neg (by simp)]
      exact decode?_unicode read
    · have written : literalChar c = [c] := by
        simp only [literalChar, backslash, quote, newline, ret, tab, zero, control, Bool.false_eq_true, if_false]
      rw [written, List.singleton_append, decode?_plain quote backslash]
      simp only [and_true]

/-- A text is read back unless a character of it ends a line and is not escaped. -/
theorem decode?_flatMap (text : List Char) : decode? terminators (text.flatMap literalChar) =
    if text.any (· ∈ unescaped terminators) then none else some text := by
  induction text with
  | nil => simp [decode?]
  | cons c text ih =>
    rw [List.flatMap_cons, decode?_literalChar, ih]
    by_cases stops : c ∈ unescaped terminators
    · simp [stops]
    · simp only [stops, if_false, List.any_cons, decide_false, Bool.false_or]
      split <;> rfl

end

/-- A literal is quoted, and there is nothing else to it. -/
theorem content?_eq (terminators : List Char) (text : String) : content? terminators (stringLiteral text) =
    if text.toList.any (· ∈ unescaped terminators) then none else some text := by
  have inside : content? terminators (stringLiteral text) =
      (decode? terminators (text.toList.flatMap literalChar)).map String.ofList := by
    simp only [content?, stringLiteral, String.toList_ofList, List.cons_append, List.getLast?_concat,
      List.dropLast_concat, if_true]
  rw [inside, decode?_flatMap]
  split
  · rfl
  · rw [Option.map_some, String.ofList_toList]

/-- Every text is read back from its literal, unless a line or paragraph separator in it ends the line: then
the literal is none. -/
theorem content?_stringLiteral (text : String) :
    content? ['\r', '\n', '\u0085'] (stringLiteral text) = some text ∧
    content? lineTerminators (stringLiteral text) =
      if '\u2028' ∈ text.toList ∨ '\u2029' ∈ text.toList then none else some text := by
  have controls : unescaped ['\r', '\n', '\u0085'] = [] := by decide
  have separators : unescaped lineTerminators = ['\u2028', '\u2029'] := by decide
  rw [content?_eq, content?_eq, controls, separators]
  simp [and_or_left, exists_or]

theorem not_always_literal : ¬ ∀ text, content? lineTerminators (stringLiteral text) = some text := by
  intro always
  have refused : content? lineTerminators (stringLiteral "\u2028") = none := by decide +kernel
  rw [always] at refused
  cases refused

end Interop.StringLiteral
