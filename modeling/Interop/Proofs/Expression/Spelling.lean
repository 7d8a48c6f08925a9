import Interop.Proofs.Expression.Token

/-! Expressions as tokens, and tokens as texts. `Spells` lists the tokens of an expression with
every compound in parentheses, and `Spaced` puts them into a text with any white space before,
between and after them; only two words in a row need some. What the text says of its tokens is
here: where the first one starts, where a word ends, and where a list of words is interrupted. -/
namespace Interop.Expression

open Grammar

structure Word where
  letters : List Char
  nonempty : letters ≠ []
  parts : letters.all isIdentifierPart = true

def Word.text (word : Word) : String := String.ofList word.letters

inductive Token where
  | word (name : Word)
  | string (text : String)
  | opening
  | closing
  | question
  | colon
  | unary (operator : UnaryOperator)
  | binary (operator : BinaryOperator)

namespace Token

def letters : Token → List Char
  | .word name => name.letters
  | .string text => writtenConstant (.string text)
  | .opening => ['(']
  | .closing => [')']
  | .question => ['?']
  | .colon => [':']
  | .unary operator => operator.symbol.toList
  | .binary operator => operator.symbol.toList

def isWord : Token → Bool
  | .word _ => true
  | _ => false

theorem visible (token : Token) : Visible token.letters := by
  cases token with
  | word name =>
    obtain ⟨c, others, split⟩ := List.exists_cons_of_ne_nil name.nonempty
    have part : isIdentifierPart c = true := List.all_eq_true.mp name.parts c (by rw [split]; exact List.mem_cons_self)
    exact ⟨c, others, split, not_isBlank_of_isIdentifierPart part⟩
  | unary operator => cases operator <;> exact ⟨_, _, rfl, by decide⟩
  | binary operator => exact visible_symbol operator
  | _ => exact ⟨_, _, rfl, by decide⟩

variable {token : Token}

theorem parts_of_isWord (word : token.isWord = true) : ∀ c ∈ token.letters, isIdentifierPart c = true := by
  cases token with
  | word name => exact List.all_eq_true.mp name.parts
  | _ => cases word

/-- A token that is no word starts with a character that no word has. -/
theorem front_of_mark (mark : token.isWord = false) :
    ∀ c ∈ token.letters.head?, isForeign c = true ∧ isNumberPart c = false := by
  cases token with
  | word => cases mark
  | string => exact forall_head?_cons (by decide)
  | unary operator => cases operator <;> exact forall_head?_cons (by decide)
  | binary operator => cases operator <;> exact forall_head?_cons (by decide)
  | _ => exact forall_head?_cons (by decide)

theorem front_ne_closing (mark : token.isWord = false) (other : token ≠ .closing) :
    ∀ c ∈ token.letters.head?, c ≠ ')' := by
  cases token with
  | word => cases mark
  | string => exact forall_head?_cons (by decide)
  | unary operator => cases operator <;> exact forall_head?_cons (by decide)
  | binary operator => cases operator <;> exact forall_head?_cons (by decide)
  | closing => exact absurd rfl other
  | _ => exact forall_head?_cons (by decide)

end Token

/-- Tokens in a text with white space around them, which only two words in a row need. -/
inductive Spaced : List Token → List Char → Prop where
  | finish {gap : List Char} (blank : gap.all Text.isBlank = true) : Spaced [] gap
  | next {token : Token} {tokens : List Token} (gap : List Char) {rest : List Char}
      (blank : gap.all Text.isBlank = true)
      (apart : token.isWord = true → tokens.head?.any Token.isWord = true → rest.head?.any Text.isBlank = true)
      (others : Spaced tokens rest) : Spaced (token :: tokens) (gap ++ (token.letters ++ rest))

section Texts

variable {token : Token} {tokens : List Token} {text gap : List Char}

theorem not_isNumberPart_of_isBlank {c : Char} (blank : Text.isBlank c = true) : isNumberPart c = false := by
  rw [Bool.eq_false_iff]
  intro part
  by_cases point : c = '.'
  · subst point
    exact absurd blank (by decide)
  · have part : isIdentifierPart c = true := by
      simpa only [isNumberPart, isIdentifierPart, Bool.or_eq_true, beq_iff_eq, point, or_false] using part
    exact absurd blank (Bool.eq_false_iff.mp (not_isBlank_of_isIdentifierPart part))

theorem interrupted_append {front : List Char} (part : ∀ c ∈ front, isForeign c = false)
    (interrupted : Interrupted text) : Interrupted (front ++ text) := by
  obtain ⟨c, found, other⟩ := interrupted
  have none : front.find? isForeign = none :=
    List.find?_eq_none.mpr fun c member => Bool.eq_false_iff.mp (part c member)
  exact ⟨c, by rw [List.find?_append, none, Option.none_or, found], other⟩

theorem skipBlank_gap (blank : gap.all Text.isBlank = true) (text : List Char) :
    skipBlank (gap ++ text) = skipBlank text :=
  List.dropWhile_append_of_pos (List.all_eq_true.mp blank)

namespace Spaced

theorem skipBlank_eq_nil (spaced : Spaced [] text) : skipBlank text = [] := by
  cases spaced with
  | finish blank =>
    have nothing := skipBlank_gap blank []
    rwa [List.append_nil] at nothing

/-- White space at the front may be left out. -/
theorem skipBlank (spaced : Spaced tokens text) : Spaced tokens (skipBlank text) := by
  cases spaced with
  | finish blank =>
    rw [(Spaced.finish blank).skipBlank_eq_nil]
    exact .finish rfl
  | @next token _ _ rest blank apart others =>
    rw [skipBlank_gap blank, (token.visible.append rest).skipBlank]
    exact .next [] rfl apart others

theorem length_le (spaced : Spaced tokens text) : tokens.length ≤ text.length := by
  induction spaced with
  | finish => exact Nat.zero_le _
  | @next token tokens gap rest _ _ _ ih =>
    obtain ⟨c, others, split, _⟩ := token.visible
    rw [split, List.length_append, List.length_append, List.length_cons, List.length_cons]
    omega

/-- A text starts with white space or with its first token. -/
theorem front (spaced : Spaced (token :: tokens) text) :
    ∃ c others, text = c :: others ∧ (Text.isBlank c = true ∨ c ∈ token.letters.head?) := by
  cases spaced with
  | @next _ _ gap rest blank =>
    cases gap with
    | cons c gap => exact ⟨c, _, rfl, .inl (List.all_eq_true.mp blank c List.mem_cons_self)⟩
    | nil =>
      obtain ⟨c, others, split, _⟩ := token.visible
      exact ⟨c, others ++ rest, by rw [split]; rfl, .inr (by rw [split]; rfl)⟩

/-- What comes where two words would be apart does not continue a word. -/
theorem ends (spaced : Spaced tokens text)
    (apart : tokens.head?.any Token.isWord = true → text.head?.any Text.isBlank = true) : Ends text := by
  cases tokens with
  | nil =>
    cases spaced with
    | finish blank =>
      intro c front
      exact not_isNumberPart_of_isBlank (List.all_eq_true.mp blank c (List.mem_of_head? front))
  | cons token tokens =>
    obtain ⟨c, others, rfl, blank | start⟩ := spaced.front
    · exact forall_head?_cons (not_isNumberPart_of_isBlank blank)
    · refine forall_head?_cons ?_
      cases kind : token.isWord with
      | true => exact not_isNumberPart_of_isBlank (apart kind)
      | false => exact (Token.front_of_mark kind c start).2

/-- The first token of a text, and what comes after it. -/
theorem uncons (spaced : Spaced (token :: tokens) text) :
    ∃ rest, Grammar.skipBlank text = token.letters ++ rest ∧ rest.length < text.length ∧ Spaced tokens rest ∧
      (token.isWord = true → Ends rest) := by
  cases spaced with
  | @next _ _ gap rest blank apart others =>
    have shorter : rest.length < (gap ++ (token.letters ++ rest)).length := by
      obtain ⟨c, letters, split, _⟩ := token.visible
      simp only [split, List.length_append, List.length_cons]
      omega
    refine ⟨rest, ?_, shorter, others, fun word => others.ends (apart word)⟩
    rw [skipBlank_gap blank, (token.visible.append rest).skipBlank]

theorem head?_skipBlank (spaced : Spaced (token :: tokens) text) :
    (Grammar.skipBlank text).head? = token.letters.head? := by
  obtain ⟨rest, start, _⟩ := spaced.uncons
  obtain ⟨c, others, split, _⟩ := token.visible
  rw [start, split]
  rfl

/-- A text is no list of words if its first token of another kind is not a closing parenthesis. -/
theorem interrupted (spaced : Spaced tokens text)
    (first : ∃ token, tokens.find? (fun token => !token.isWord) = some token ∧ token ≠ .closing) :
    Interrupted text := by
  obtain ⟨token, first, other⟩ := first
  induction spaced with
  | finish => cases first
  | @next front tokens gap rest blank _ _ ih =>
    have gapped : ∀ c ∈ gap, isForeign c = false := fun c member => by
      simp [isForeign, List.all_eq_true.mp blank c member]
    refine interrupted_append gapped ?_
    cases kind : front.isWord with
    | true =>
      rw [List.find?_cons_of_neg (by rw [kind]; exact Bool.false_ne_true)] at first
      have named : ∀ c ∈ front.letters, isForeign c = false := fun c member => by
        simp [isForeign, Token.parts_of_isWord kind c member]
      exact interrupted_append named (ih first)
    | false =>
      rw [List.find?_cons_of_pos (by rw [kind]; rfl)] at first
      obtain rfl := Option.some.inj first
      obtain ⟨c, others, split, _⟩ := front.visible
      have start : c ∈ front.letters.head? := by rw [split]; rfl
      refine ⟨c, ?_, Token.front_ne_closing kind other c start⟩
      rw [split, List.cons_append, List.find?_cons_of_pos (Token.front_of_mark kind c start).1]

end Spaced

end Texts

section Tokens

def enclosed (tokens : List Token) : List Token := .opening :: (tokens ++ [.closing])

/-- The tokens of an expression: constants and names alone, everything else in one pair of
parentheses. A cast may name its type in any way that is read as the type. -/
inductive Spells : Expression → List Token → Prop where
  | integer {kind : IntegerKind} {word : BitVec kind.width} {name : Word} (nonneg : 0 ≤ kind.value word)
      (letters : name.letters = kind.numeral (kind.value word).toNat) :
      Spells (.literal (.integer kind word)) [.word name]
  | truth {value : Bool} {name : Word} (letters : name.letters = writtenConstant (.bool value)) :
      Spells (.literal (.bool value)) [.word name]
  | string (text : String) : Spells (.literal (.string text)) [.string text]
  | identifier {name : Word} (free : isName name.text = true) : Spells (.identifier name.text) [.word name]
  | unary (operator : UnaryOperator) {operand : Expression} {tokens : List Token} (inner : Spells operand tokens) :
      Spells (.unary operator operand) (enclosed (.unary operator :: tokens))
  | cast {type : CastType} {words : List Word} (nonempty : words ≠ [])
      (known : CastType.ofWords? (words.map Word.text) = some type) {operand : Expression} {tokens : List Token}
      (inner : Spells operand tokens) :
      Spells (.cast type operand) (enclosed (enclosed (words.map .word) ++ tokens))
  | binary (operator : BinaryOperator) {left right : Expression} {first second : List Token}
      (inner : Spells left first) (inner' : Spells right second) :
      Spells (.binary operator left right) (enclosed (first ++ .binary operator :: second))
  | conditional {condition accepted rejected : Expression} {first second third : List Token}
      (inner : Spells condition first) (inner' : Spells accepted second) (inner'' : Spells rejected third) :
      Spells (.conditional condition accepted rejected)
        (enclosed (first ++ .question :: (second ++ .colon :: third)))

theorem exists_word {text : String} (word : IsWord text.toList) : ∃ name : Word, name.text = text := by
  obtain ⟨c, others, split, start, parts⟩ := word
  have nonempty : text.toList ≠ [] := by rw [split]; exact List.cons_ne_nil c others
  have parts : ∀ d ∈ text.toList, isIdentifierPart d = true := by
    rw [split]
    exact List.forall_mem_cons.mpr ⟨isIdentifierPart_of_isIdentifierStart start, parts⟩
  exact ⟨⟨text.toList, nonempty, List.all_eq_true.mpr parts⟩, String.ofList_toList⟩

theorem exists_words {texts : List String} (words : ∀ text ∈ texts, IsWord text.toList) :
    ∃ names : List Word, names.map Word.text = texts := by
  induction texts with
  | nil => exact ⟨[], rfl⟩
  | cons text texts ih =>
    obtain ⟨word, others⟩ := List.forall_mem_cons.mp words
    obtain ⟨name, rfl⟩ := exists_word word
    obtain ⟨names, rfl⟩ := ih others
    exact ⟨name :: names, rfl⟩

namespace Spells

variable {expression : Expression} {tokens : List Token}

/-- An expression is one token that is no mark, or in parentheses. -/
theorem shape (spells : Spells expression tokens) :
    (∃ name, tokens = [.word name]) ∨ (∃ text, tokens = [.string text]) ∨ ∃ inner, tokens = enclosed inner := by
  cases spells with
  | integer | truth | identifier => exact .inl ⟨_, rfl⟩
  | string => exact .inr (.inl ⟨_, rfl⟩)
  | _ => exact .inr (.inr ⟨_, rfl⟩)

/-- Before a mark an expression is no list of words. -/
theorem find_mark (spells : Spells expression tokens) {mark : Token} (other : mark.isWord = false)
    (other' : mark ≠ .closing) (rest : List Token) :
    ∃ token, (tokens ++ mark :: rest).find? (fun token => !token.isWord) = some token ∧ token ≠ .closing := by
  rcases spells.shape with ⟨name, rfl⟩ | ⟨text, rfl⟩ | ⟨inner, rfl⟩
  · refine ⟨mark, ?_, other'⟩
    rw [List.singleton_append, List.find?_cons_of_neg (by exact Bool.false_ne_true),
      List.find?_cons_of_pos (by rw [other]; rfl)]
  · exact ⟨.string text, rfl, Token.noConfusion⟩
  · exact ⟨.opening, rfl, Token.noConfusion⟩

/-- Just the expressions that are written are spelled. -/
theorem exists_iff : (∃ tokens, Spells expression tokens) ↔ expression.isWritable = true := by
  constructor
  · rintro ⟨tokens, spells⟩
    induction spells with
    | integer nonneg => exact decide_eq_true nonneg
    | truth | string => rfl
    | identifier free => exact free
    | unary _ _ ih | cast _ _ _ ih => exact ih
    | binary _ _ _ ih ih' => exact Bool.and_eq_true_iff.mpr ⟨ih, ih'⟩
    | conditional _ _ _ ih ih' ih'' =>
      exact Bool.and_eq_true_iff.mpr ⟨Bool.and_eq_true_iff.mpr ⟨ih, ih'⟩, ih''⟩
  · intro writable
    induction expression with
    | literal value =>
      cases value with
      | integer kind word =>
        obtain ⟨c, others, split, _⟩ := numeral_eq_cons kind (kind.value word).toNat
        have nonempty : kind.numeral (kind.value word).toNat ≠ [] := by rw [split]; exact List.cons_ne_nil c others
        exact ⟨_, @integer kind word ⟨_, nonempty, List.all_eq_true.mpr fun c => isIdentifierPart_of_mem_numeral⟩
          (of_decide_eq_true writable) rfl⟩
      | bool value =>
        have nonempty : writtenConstant (.bool value) ≠ [] := by cases value <;> exact List.cons_ne_nil _ _
        have parts : (writtenConstant (.bool value)).all isIdentifierPart = true := by cases value <;> decide
        exact ⟨_, @truth value ⟨_, nonempty, parts⟩ rfl⟩
      | string text => exact ⟨_, string text⟩
      | _ => cases writable
    | identifier name =>
      obtain ⟨c, others, letters, start, parts, _⟩ := isName_iff.mp writable
      obtain ⟨name, rfl⟩ := exists_word ⟨c, others, letters, start, parts⟩
      exact ⟨_, identifier writable⟩
    | unary operator operand ih =>
      obtain ⟨tokens, inner⟩ := ih writable
      exact ⟨_, unary operator inner⟩
    | cast type operand ih =>
      obtain ⟨tokens, inner⟩ := ih writable
      have known := ofWords?_typeWords type
      obtain ⟨words, texts⟩ := exists_words (isWord_of_ofWords? known)
      rw [← texts] at known
      have nonempty : words ≠ [] := by
        rintro rfl
        cases type <;> cases texts
      exact ⟨_, cast nonempty known inner⟩
    | binary operator left right ih ih' =>
      obtain ⟨writable, writable'⟩ := Bool.and_eq_true_iff.mp writable
      obtain ⟨first, inner⟩ := ih writable
      obtain ⟨second, inner'⟩ := ih' writable'
      exact ⟨_, binary operator inner inner'⟩
    | conditional condition accepted rejected ih ih' ih'' =>
      obtain ⟨writable, writable''⟩ := Bool.and_eq_true_iff.mp writable
      obtain ⟨writable, writable'⟩ := Bool.and_eq_true_iff.mp writable
      obtain ⟨first, inner⟩ := ih writable
      obtain ⟨second, inner'⟩ := ih' writable'
      obtain ⟨third, inner''⟩ := ih'' writable''
      exact ⟨_, conditional inner inner' inner''⟩

end Spells

end Tokens

end Interop.Expression
