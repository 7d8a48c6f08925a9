import Interop.Expression.Parser
import Interop.Proofs.Constant.Numeral
import Interop.Proofs.Grammar

/-! Expressions as they are written in C. Parentheses stand only around an operand that is
looser than its place allows, binary operators and the marks of a conditional stand between
single spaces, and there are no other spaces but those of strings and type names. No written
expression starts with a space, and one with an operator of its own is not taken for a list of
words up to its closing parenthesis. -/
namespace Interop

open Grammar

/-- The place of an operator among the levels, from the tightest to the loosest. -/
def BinaryOperator.level : BinaryOperator → Nat
  | .multiply | .divide | .remainder => 0
  | .add | .subtract => 1
  | .shiftLeft | .shiftRight => 2
  | .less | .lessOrEqual | .greater | .greaterOrEqual => 3
  | .equal | .notEqual => 4
  | .bitAnd => 5
  | .bitXor => 6
  | .bitOr => 7
  | .and => 8
  | .or => 9

theorem BinaryOperator.level_lt (operator : BinaryOperator) : operator.level < 10 := by
  cases operator <;> decide

namespace Expression

/-- How loose an expression is: what a unary operator or a cast may precede, then the levels of
binary operators, then the conditional. -/
def looseness : Expression → Nat
  | .literal _ | .identifier _ | .unary .. | .cast .. => 0
  | .binary operator .. => operator.level + 1
  | .conditional .. => 11

def escapedCharacter (c : Char) : List Char := if c = '\\' ∨ c = '"' then ['\\', c] else [c]

/-- A string between double quotes, and other constants as they are named. Numbers with a
fraction are not written. -/
def writtenConstant : Constant → List Char
  | .integer kind word => kind.numeral (kind.value word).toNat
  | .bool value => if value then ['t', 'r', 'u', 'e'] else ['f', 'a', 'l', 's', 'e']
  | .string text => '"' :: (text.toList.flatMap escapedCharacter ++ ['"'])
  | .single _ | .double _ => []

/-- A text of some looseness at a place that allows one up to a limit. -/
def enclose (limit looseness : Nat) (text : List Char) : List Char :=
  if looseness ≤ limit then text else '(' :: (text ++ [')'])

def written : Expression → List Char
  | .literal value => writtenConstant value
  | .identifier name => name.toList
  | .unary operator operand => operator.symbol.toList ++ enclose 0 operand.looseness operand.written
  | .cast type operand => '(' :: (type.name.toList ++ ')' :: enclose 0 operand.looseness operand.written)
  | .binary operator left right =>
    enclose (operator.level + 1) left.looseness left.written ++
      ' ' :: (operator.symbol.toList ++ ' ' :: enclose operator.level right.looseness right.written)
  | .conditional condition accepted rejected =>
    enclose 10 condition.looseness condition.written ++
      ' ' :: '?' :: ' ' :: (accepted.written ++ ' ' :: ':' :: ' ' :: rejected.written)

def writtenWithin (limit : Nat) (expression : Expression) : List Char :=
  enclose limit expression.looseness expression.written

def isName (name : String) : Bool :=
  match name.toList with
  | [] => false
  | c :: others => isIdentifierStart c && others.all isIdentifierPart && name != "true" && name != "false"

/-- Numbers have no sign of their own and no fraction. -/
def isWritableConstant : Constant → Bool
  | .integer kind word => 0 ≤ kind.value word
  | .bool _ | .string _ => true
  | .single _ | .double _ => false

def isWritable : Expression → Bool
  | .literal value => isWritableConstant value
  | .identifier name => isName name
  | .unary _ operand | .cast _ operand => operand.isWritable
  | .binary _ left right => left.isWritable && right.isWritable
  | .conditional condition accepted rejected =>
    condition.isWritable && accepted.isWritable && rejected.isWritable

section Places

variable {expression : Expression} {limit : Nat}

theorem writtenWithin_of_le (tight : expression.looseness ≤ limit) :
    expression.writtenWithin limit = expression.written :=
  if_pos tight

theorem writtenWithin_of_lt (loose : limit < expression.looseness) :
    expression.writtenWithin limit = '(' :: (expression.written ++ [')']) :=
  if_neg (Nat.not_le.mpr loose)

/-- A place that allows one more level writes only the operators of that level in another way. -/
theorem writtenWithin_succ (other : expression.looseness ≠ limit + 1) :
    expression.writtenWithin (limit + 1) = expression.writtenWithin limit := by
  by_cases tight : expression.looseness ≤ limit
  · rw [writtenWithin_of_le tight, writtenWithin_of_le (Nat.le_succ_of_le tight)]
  · have loose : limit < expression.looseness := Nat.lt_of_not_le tight
    rw [writtenWithin_of_lt loose, writtenWithin_of_lt (Nat.lt_of_le_of_ne loose other.symm)]

end Places

section Characters

variable {c : Char}

theorem not_isBlank_of_isIdentifierPart (part : isIdentifierPart c = true) : Text.isBlank c = false := by
  have letters : (65 ≤ c.toNat ∧ c.toNat ≤ 90 ∨ 97 ≤ c.toNat ∧ c.toNat ≤ 122) ∨
      48 ≤ c.toNat ∧ c.toNat ≤ 57 ∨ c.toNat = 95 := by
    delta isIdentifierPart Char.isAlphanum Char.isAlpha Char.isUpper Char.isLower Char.isDigit at part
    simp only [Bool.or_eq_true, Bool.and_eq_true, decide_eq_true_eq, beq_iff_eq, ge_iff_le,
      UInt32.le_iff_toNat_le] at part
    rcases part with ((part | part) | part) | rfl
    · exact Or.inl (Or.inl part)
    · exact Or.inl (Or.inr part)
    · exact Or.inr (Or.inl part)
    · exact Or.inr (Or.inr rfl)
  simp only [Text.isBlank, Text.blankRanges, List.any_cons, List.any_nil, Bool.or_eq_false_iff,
    Bool.and_eq_false_iff, decide_eq_false_iff_not, and_true]
  omega

theorem isIdentifierPart_of_isDigit (digit : c.isDigit = true) : isIdentifierPart c = true := by
  simp [isIdentifierPart, Char.isAlphanum, digit]

theorem isIdentifierPart_of_isIdentifierStart (start : isIdentifierStart c = true) : isIdentifierPart c = true := by
  simp only [isIdentifierStart, isIdentifierPart, Char.isAlphanum, Bool.or_eq_true] at start ⊢
  rcases start with alpha | underscore
  · exact Or.inl (Or.inl alpha)
  · exact Or.inr underscore

theorem not_isDigit_of_isIdentifierStart (start : isIdentifierStart c = true) : c.isDigit = false := by
  rw [Bool.eq_false_iff]
  intro digit
  delta isIdentifierStart Char.isAlpha Char.isUpper Char.isLower at start
  delta Char.isDigit at digit
  simp only [Bool.or_eq_true, Bool.and_eq_true, decide_eq_true_eq, beq_iff_eq, ge_iff_le,
    UInt32.le_iff_toNat_le] at start digit
  have upper : c.val.toNat ≤ 57 := digit.2
  rcases start with (start | start) | rfl
  · exact absurd (Nat.le_trans start.1 upper) (by decide)
  · exact absurd (Nat.le_trans start.1 upper) (by decide)
  · exact absurd upper (by decide)

theorem isIdentifierPart_of_mem_numeral {kind : IntegerKind} {n : Nat} (member : c ∈ kind.numeral n) :
    isIdentifierPart c = true := by
  rcases List.mem_append.mp member with member | member
  · exact isIdentifierPart_of_isDigit (Numeral.isDigit_of_mem member)
  · have letters : kind.suffix.all isIdentifierPart = true := by cases kind <;> decide
    exact List.all_eq_true.mp letters c member

end Characters

section Front

variable {expression : Expression}

theorem isName_iff {name : String} : isName name = true ↔
    ∃ c others, name.toList = c :: others ∧ isIdentifierStart c = true ∧
      (∀ d ∈ others, isIdentifierPart d = true) ∧ name ≠ "true" ∧ name ≠ "false" := by
  unfold isName
  split
  · rename_i empty
    simp [empty]
  · rename_i c others letters
    simp only [letters, Bool.and_eq_true, List.all_eq_true, bne_iff_ne]
    constructor
    · rintro ⟨⟨⟨start, parts⟩, other⟩, other'⟩
      exact ⟨c, others, rfl, start, parts, other, other'⟩
    · rintro ⟨d, rest, same, start, parts, other, other'⟩
      obtain ⟨rfl, rfl⟩ := List.cons.inj same
      exact ⟨⟨⟨start, parts⟩, other⟩, other'⟩

theorem numeral_eq_cons (kind : IntegerKind) (n : Nat) :
    ∃ c others, kind.numeral n = c :: others ∧ c.isDigit = true := by
  cases digits : Nat.toDigits 10 n with
  | nil => exact absurd digits Nat.toDigits_ne_nil
  | cons c others =>
    refine ⟨c, others ++ kind.suffix, by rw [IntegerKind.numeral, digits, List.cons_append], ?_⟩
    exact Numeral.isDigit_of_mem (n := n) (by rw [digits]; exact List.mem_cons_self)

theorem visible_numeral (kind : IntegerKind) (n : Nat) : Visible (kind.numeral n) := by
  obtain ⟨c, others, split, digit⟩ := numeral_eq_cons kind n
  exact ⟨c, others, split, not_isBlank_of_isIdentifierPart (isIdentifierPart_of_isDigit digit)⟩

theorem visible_symbol (operator : BinaryOperator) : Visible operator.symbol.toList := by
  cases operator <;> exact ⟨_, _, rfl, by decide⟩

theorem visible_enclose {text : List Char} (visible : Visible text) (limit looseness : Nat) :
    Visible (enclose limit looseness text) := by
  unfold enclose
  split
  · exact visible
  · exact ⟨'(', text ++ [')'], rfl, by decide⟩

theorem visible_written (writable : expression.isWritable = true) : Visible expression.written := by
  induction expression with
  | literal value =>
    cases value with
    | integer kind word => exact visible_numeral kind _
    | bool value => cases value <;> exact ⟨_, _, rfl, by decide⟩
    | string text => exact ⟨'"', _, rfl, by decide⟩
    | _ => cases writable
  | identifier name =>
    obtain ⟨c, others, letters, start, _⟩ := isName_iff.mp writable
    exact ⟨c, others, letters, not_isBlank_of_isIdentifierPart (isIdentifierPart_of_isIdentifierStart start)⟩
  | unary operator operand _ => cases operator <;> exact ⟨_, _, rfl, by decide⟩
  | cast type operand _ => exact ⟨'(', _, rfl, by decide⟩
  | binary operator left right ih _ =>
    simp only [isWritable, Bool.and_eq_true] at writable
    exact (visible_enclose (ih writable.1) _ _).append _
  | conditional condition accepted rejected ih _ _ =>
    simp only [isWritable, Bool.and_eq_true] at writable
    exact (visible_enclose (ih writable.1.1) _ _).append _

theorem visible_writtenWithin (writable : expression.isWritable = true) (limit : Nat) :
    Visible (expression.writtenWithin limit) :=
  visible_enclose (visible_written writable) limit _

end Front

section Words

def isForeign (c : Char) : Bool := !(isIdentifierPart c || Text.isBlank c)

/-- The first character that is no part of words does not close a parenthesis. -/
def Opens (text : List Char) : Prop := ∀ c ∈ text.find? isForeign, c ≠ ')'

theorem opens_words {text : List Char} (words : ∀ c ∈ text, isIdentifierPart c = true) : Opens text := by
  intro c found
  have foreign := List.find?_some found
  simp [isForeign, words c (List.mem_of_find?_eq_some found)] at foreign

theorem opens_cons {c : Char} (text : List Char) (foreign : isForeign c = true) (other : c ≠ ')') :
    Opens (c :: text) := by
  intro d found
  rw [List.find?_cons, foreign] at found
  cases found
  exact other

theorem Opens.append {first second : List Char} (opens : Opens first) (opens' : Opens second) :
    Opens (first ++ second) := by
  intro c found
  rw [List.find?_append] at found
  cases front : first.find? isForeign with
  | some d =>
    rw [front] at found
    cases found
    exact opens c front
  | none =>
    rw [front] at found
    exact opens' c found

theorem opens_enclose {text : List Char} (opens : Opens text) (limit looseness : Nat) :
    Opens (enclose limit looseness text) := by
  unfold enclose
  split
  · exact opens
  · exact opens_cons _ (by decide) (by decide)

theorem opens_space {text : List Char} (opens : Opens text) : Opens (' ' :: text) := by
  have space : isForeign ' ' = false := by decide
  intro c found
  rw [List.find?_cons, space] at found
  exact opens c found

theorem isForeign_symbol (operator : BinaryOperator) :
    ∃ c others, operator.symbol.toList = c :: others ∧ isForeign c = true ∧ c ≠ ')' := by
  cases operator <;> exact ⟨_, _, rfl, by decide, by decide⟩

theorem opens_written {expression : Expression} (writable : expression.isWritable = true) :
    Opens expression.written := by
  induction expression with
  | literal value =>
    cases value with
    | integer kind word => exact opens_words fun c => isIdentifierPart_of_mem_numeral
    | bool value =>
      have letters : (writtenConstant (.bool value)).all isIdentifierPart = true := by cases value <;> decide
      exact opens_words (List.all_eq_true.mp letters)
    | string text => exact opens_cons _ (by decide) (by decide)
    | _ => cases writable
  | identifier name =>
    obtain ⟨c, others, letters, start, parts, _⟩ := isName_iff.mp writable
    refine opens_words fun d member => ?_
    rw [written, letters] at member
    rcases List.mem_cons.mp member with rfl | member
    · exact isIdentifierPart_of_isIdentifierStart start
    · exact parts d member
  | unary operator operand _ => cases operator <;> exact opens_cons _ (by decide) (by decide)
  | cast type operand _ => exact opens_cons _ (by decide) (by decide)
  | binary operator left right ih _ =>
    simp only [isWritable, Bool.and_eq_true] at writable
    obtain ⟨c, others, symbol, foreign, other⟩ := isForeign_symbol operator
    rw [written, symbol]
    exact (opens_enclose (ih writable.1) _ _).append (opens_space (opens_cons _ foreign other))
  | conditional condition accepted rejected ih _ _ =>
    simp only [isWritable, Bool.and_eq_true] at writable
    exact (opens_enclose (ih writable.1.1) _ _).append (opens_space (opens_cons _ (by decide) (by decide)))

def Interrupted (input : List Char) : Prop := ∃ c, input.find? isForeign = some c ∧ c ≠ ')'

/-- Within parentheses an expression with an operator of its own is no list of words. -/
theorem interrupted_written {expression : Expression} (writable : expression.isWritable = true)
    (loose : 0 < expression.looseness) (rest : List Char) : Interrupted (expression.written ++ rest) := by
  have mark : ∃ c ∈ expression.written, isForeign c = true := by
    cases expression with
    | binary operator left right =>
      obtain ⟨c, others, symbol, foreign, _⟩ := isForeign_symbol operator
      exact ⟨c, by simp [written, symbol], foreign⟩
    | conditional condition accepted rejected => exact ⟨'?', by simp [written], by decide⟩
    | _ => exact absurd loose (Nat.lt_irrefl 0)
  obtain ⟨c, found⟩ := Option.isSome_iff_exists.mp (List.find?_isSome.mpr mark)
  refine ⟨c, ?_, opens_written writable c found⟩
  rw [List.find?_append, found, Option.some_or]

end Words

end Expression

end Interop
