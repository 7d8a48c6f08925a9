import Interop.Proofs.Expression.Written
import Mathlib.Tactic.IntervalCases

/-! Tokens read back. Each token of a written expression is read as what was written, whatever
follows it in one: names and numbers end where no letter, digit, point or underscore comes next,
and a string where no other string does. -/
namespace Interop.Expression

open Grammar Grammar.Parser

/-- A name or number that ends here is not continued. -/
def Ends (rest : List Char) : Prop := ∀ c ∈ rest.head?, isNumberPart c = false

theorem Ends.not_isIdentifierPart {rest : List Char} (ends : Ends rest) :
    ∀ c ∈ rest.head?, isIdentifierPart c = false := by
  intro c front
  have ends := ends c front
  simp only [isNumberPart, isIdentifierPart, Bool.or_eq_false_iff] at ends ⊢
  exact ⟨ends.1.1, ends.2⟩

section Names

def IsWord (letters : List Char) : Prop :=
  ∃ c others, letters = c :: others ∧ isIdentifierStart c = true ∧ ∀ d ∈ others, isIdentifierPart d = true

theorem IsWord.visible {letters : List Char} (word : IsWord letters) : Visible letters := by
  obtain ⟨c, others, rfl, start, _⟩ := word
  exact ⟨c, others, rfl, not_isBlank_of_isIdentifierPart (isIdentifierPart_of_isIdentifierStart start)⟩

theorem accepts_identifierName {letters rest : List Char} (word : IsWord letters) (ends : Ends rest) :
    Accepts identifierName (letters ++ rest) (String.ofList letters) rest := by
  obtain ⟨c, others, rfl, start, parts⟩ := word
  exact (accepts_satisfy _ start).bind
    ((repeats_satisfy parts ends.not_isIdentifierPart).many.bind (accepts_pure _ rest))

theorem rejects_identifierName {input : List Char} (other : ∀ c ∈ input.head?, isIdentifierStart c = false) :
    Rejects identifierName input :=
  (rejects_satisfy other).bind

end Names

section Numbers

variable {letters rest : List Char}

theorem rejects_signedExponent {input : List Char} (other : ∀ c ∈ input.head?, c ≠ 'e' ∧ c ≠ 'E') :
    Rejects signedExponent input := by
  refine (rejects_satisfy fun c front => ?_).bind
  simp [other c front]

theorem rejects_numberPart (ends : Ends rest) : Rejects numberPart rest := by
  refine (rejects_signedExponent fun c front => ?_).orElse_rejects (rejects_satisfy ends).bind
  have ends := ends c front
  constructor <;> rintro rfl <;> exact absurd ends (by decide)

/-- Without an exponent letter a number is read character by character. -/
theorem repeats_numberPart (parts : ∀ c ∈ letters, isNumberPart c = true ∧ c ≠ 'e' ∧ c ≠ 'E')
    (ends : Ends rest) : Repeats numberPart (letters ++ rest) (letters.map fun c => [c]) rest := by
  induction letters with
  | nil => exact .done (rejects_numberPart ends)
  | cons c letters ih =>
    obtain ⟨part, plain⟩ := parts c List.mem_cons_self
    have alone : Accepts numberPart (c :: (letters ++ rest)) [c] (letters ++ rest) := by
      refine (rejects_signedExponent fun d front => ?_).orElse
        ((accepts_satisfy _ part).bind (accepts_pure [c] _))
      obtain rfl := Option.some.inj front
      exact plain
    exact .next alone (Nat.lt_succ_self _) (ih fun d member => parts d (List.mem_cons_of_mem c member))

theorem numberPart_of_mem {kind : IntegerKind} {n : Nat} {c : Char} (member : c ∈ kind.numeral n) :
    isNumberPart c = true ∧ c ≠ 'e' ∧ c ≠ 'E' := by
  rcases List.mem_append.mp member with member | member
  · have digit := Numeral.isDigit_of_mem member
    refine ⟨by simp [isNumberPart, Char.isAlphanum, digit], ?_, ?_⟩ <;>
      (rintro rfl; exact absurd digit (by decide))
  · have letters : kind.suffix.all (fun c => isNumberPart c && (c != 'e' && c != 'E')) = true := by
      cases kind <;> decide
    have letter := List.all_eq_true.mp letters c member
    simpa only [Bool.and_eq_true, bne_iff_ne] using letter

theorem accepts_number {kind : IntegerKind} {word : BitVec kind.width} (nonneg : 0 ≤ kind.value word)
    (ends : Ends rest) :
    Accepts number (kind.numeral (kind.value word).toNat ++ rest) (.literal (.integer kind word)) rest := by
  have value := Constant.ofNumeral_numeral nonneg
  have parts : ∀ c ∈ kind.numeral (kind.value word).toNat, isNumberPart c = true ∧ c ≠ 'e' ∧ c ≠ 'E' :=
    fun c => numberPart_of_mem
  obtain ⟨c, others, split, digit⟩ := numeral_eq_cons kind (kind.value word).toNat
  rw [split] at value parts ⊢
  have whole : (others.map fun c => [c]).flatten = others := List.flatMap_singleton' others
  have read : Accepts (do
      let first ← satisfy Char.isDigit
      let others ← many numberPart
      return String.ofList (first :: others.flatten))
      (c :: (others ++ rest)) (String.ofList (c :: others)) rest := by
    refine (accepts_satisfy _ digit).bind
      ((repeats_numberPart (fun d member => parts d (List.mem_cons_of_mem c member)) ends).many.bind ?_)
    rw [whole]
    exact accepts_pure _ rest
  exact read.checked (by rw [value])

theorem rejects_number {input : List Char} (other : ∀ c ∈ input.head?, c.isDigit = false) : Rejects number input :=
  (rejects_satisfy other).bind.checked

end Numbers

section Strings

theorem accepts_quotable (c : Char) (rest : List Char) :
    Accepts (quotable '"') (escapedCharacter c ++ rest) c rest := by
  unfold escapedCharacter
  split
  · rename_i special
    rcases special with rfl | rfl <;> exact fun position => ⟨_, _, rfl⟩
  · rename_i plain
    refine (accepts_satisfy rest ?_).orElse
    simpa only [Bool.and_eq_true, bne_iff_ne, not_or] using plain

theorem repeats_quotable (letters rest : List Char) :
    Repeats (quotable '"') (letters.flatMap escapedCharacter ++ '"' :: rest) letters ('"' :: rest) := by
  induction letters with
  | nil => exact .done fun position => ⟨_, rfl⟩
  | cons c letters ih =>
    rw [List.flatMap_cons, List.append_assoc]
    refine .next (accepts_quotable c _) ?_ ih
    have some : 0 < (escapedCharacter c).length := by
      unfold escapedCharacter
      split <;> simp
    simp only [List.length_append, List.length_cons]
    omega

/-- A string is one literal where no other string follows it. -/
theorem accepts_stringLiteral (text : String) {rest : List Char} (alone : ∀ c ∈ (skipBlank rest).head?, c ≠ '"') :
    Accepts stringLiteral (writtenConstant (.string text) ++ rest) (.literal (.string text)) (skipBlank rest) := by
  have quoted : Accepts (between (char '"') (char '"') (many (quotable '"')))
      (skipBlank (writtenConstant (.string text) ++ rest)) text.toList rest := by
    have visible : Visible (writtenConstant (.string text)) := ⟨'"', _, rfl, by decide⟩
    rw [(visible.append rest).skipBlank, writtenConstant, List.cons_append, List.append_assoc]
    exact (accepts_char '"' _).between (repeats_quotable text.toList rest).many (accepts_char '"' rest)
  have ends : Rejects (padded (between (char '"') (char '"') (many (quotable '"')))) (skipBlank rest) := by
    refine Rejects.padded (Rejects.bind (rejects_char ?_))
    rwa [skipBlank_skipBlank]
  have shorter : (skipBlank rest).length < (writtenConstant (.string text) ++ rest).length := by
    have le := length_skipBlank_le rest
    simp only [writtenConstant, List.length_append, List.length_cons]
    omega
  refine (Repeats.next quoted.padded shorter (.done ends)).atLeastOne.bind ?_
  have whole : String.ofList [text.toList].flatten = text := by
    rw [List.flatten_singleton, String.ofList_toList]
  rw [whole]
  exact accepts_pure _ _

theorem rejects_stringLiteral {input : List Char} (other : ∀ c ∈ (skipBlank input).head?, c ≠ '"') :
    Rejects stringLiteral input :=
  (Rejects.padded (rejects_char other).bind).atLeastOne.bind

theorem rejects_characterLiteral {input : List Char} (other : ∀ c ∈ input.head?, c ≠ '\'') :
    Rejects characterLiteral input :=
  (rejects_char other).bind.bind

end Strings

section Types

def typeWords : CastType → List String
  | .char => ["char"]
  | .signedChar => ["signed", "char"]
  | .unsignedChar => ["unsigned", "char"]
  | .short => ["short"]
  | .unsignedShort => ["unsigned", "short"]
  | .int => ["int"]
  | .unsignedInt => ["unsigned", "int"]
  | .long => ["long"]
  | .unsignedLong => ["unsigned", "long"]
  | .float => ["float"]
  | .double => ["double"]

theorem ofWords?_typeWords (type : CastType) : CastType.ofWords? (typeWords type) = some type := by
  cases type <;> decide

theorem name_eq_typeWords (type : CastType) :
    ' ' :: type.name.toList = (typeWords type).flatMap fun word => ' ' :: word.toList := by
  cases type <;> decide

def specifierWords : List String :=
  ["unsigned", "signed", "long", "const", "char", "short", "int", "float", "double"]

theorem isWord_specifierWords {word : String} (member : word ∈ specifierWords) : IsWord word.toList := by
  have letters : ∀ word ∈ specifierWords, word.toList.head?.any isIdentifierStart = true ∧
      word.toList.tail.all isIdentifierPart = true := by
    decide
  obtain ⟨start, parts⟩ := letters word member
  cases split : word.toList with
  | nil =>
    rw [split] at start
    cases start
  | cons c others =>
    rw [split] at start parts
    exact ⟨c, others, rfl, start, List.all_eq_true.mp parts⟩

theorem mem_specifierWords_of_add {before after : CastType.Specifiers} {word : String}
    (added : before.add word = some after) : word ∈ specifierWords := by
  by_contra other
  simp only [specifierWords, List.mem_cons, List.not_mem_nil, or_false, not_or] at other
  obtain ⟨notUnsigned, notSigned, notLong, notConst, notChar, notShort, notInt, notFloat, notDouble⟩ := other
  have noBase : CastType.Base.ofWord? word = none := by
    unfold CastType.Base.ofWord?
    split <;> first | contradiction | rfl
  simp [CastType.Specifiers.add, notUnsigned, notSigned, notLong, notConst, notInt, noBase] at added

theorem isWord_of_ofWords? {words : List String} {type : CastType} (known : CastType.ofWords? words = some type) :
    ∀ word ∈ words, IsWord word.toList := by
  have taken {before after : CastType.Specifiers} (added : words.foldlM CastType.Specifiers.add before = some after) :
      ∀ word ∈ words, IsWord word.toList := by
    clear known
    induction words generalizing before with
    | nil => rintro word ⟨⟩
    | cons first words ih =>
      obtain ⟨middle, one, others⟩ := Option.bind_eq_some_iff.mp added
      exact List.forall_mem_cons.mpr ⟨isWord_specifierWords (mem_specifierWords_of_add one), ih others⟩
  obtain ⟨specifiers, added, _⟩ := Option.bind_eq_some_iff.mp known
  exact taken added

/-- One word more before those that are read after it. -/
theorem repeats_word {letters after rest : List Char} {words : List String} (word : IsWord letters) (ends : Ends after)
    (others : Repeats (padded identifierName) (skipBlank after) words rest) :
    Repeats (padded identifierName) (letters ++ after) (String.ofList letters :: words) rest := by
  have shorter : (skipBlank after).length < (letters ++ after).length := by
    have le := length_skipBlank_le after
    obtain ⟨c, others, split, _⟩ := word
    rw [List.length_append, split, List.length_cons]
    omega
  exact .next ((word.visible.append after).accepts_padded (accepts_identifierName word ends)) shorter others

theorem repeats_no_word (rest : List Char) : Repeats (padded identifierName) (')' :: rest) [] (')' :: rest) := by
  refine .done (Rejects.padded (rejects_identifierName ?_))
  rw [skipBlank_cons rest (by decide)]
  exact forall_head?_cons (by decide)

/-- Words with a space before each are read up to the closing parenthesis. -/
theorem repeats_words {words : List String} (all : ∀ word ∈ words, IsWord word.toList) (rest : List Char) :
    Repeats (padded identifierName) (skipBlank ((words.flatMap fun word => ' ' :: word.toList) ++ ')' :: rest))
      words (')' :: rest) := by
  induction words with
  | nil =>
    rw [List.flatMap_nil, List.nil_append, skipBlank_cons rest (by decide)]
    exact repeats_no_word rest
  | cons word words ih =>
    have first := all word List.mem_cons_self
    have others := ih fun other member => all other (List.mem_cons_of_mem word member)
    revert others
    generalize following : (words.flatMap fun word => ' ' :: word.toList) ++ ')' :: rest = after
    intro others
    have ends : Ends after := by
      subst following
      intro c front
      cases words <;> (cases front; decide)
    have read := repeats_word first ends others
    rw [String.ofList_toList] at read
    rwa [List.flatMap_cons, List.append_assoc, following, List.cons_append,
      (first.visible.append after).skipBlank_space]

/-- Words in parentheses that name a type are one. -/
theorem accepts_castType_of_repeats {words : List String} (nonempty : words ≠ []) {type : CastType}
    (known : CastType.ofWords? words = some type) {input rest : List Char}
    (repeats : Repeats (padded identifierName) (skipBlank input) words (')' :: rest)) :
    Accepts castType ('(' :: input) type rest := by
  obtain ⟨first, others, rfl⟩ := List.exists_cons_of_ne_nil nonempty
  have read := ((ignoresBlank_padded identifierName).bind _).accepts repeats.atLeastOne
  exact ((accepts_char '(' input).between read (accepts_char ')' rest)).checked (by rw [known])

/-- A type's name in parentheses. -/
theorem accepts_castType (type : CastType) (rest : List Char) :
    Accepts castType ('(' :: (type.name.toList ++ ')' :: rest)) type rest := by
  have words := repeats_words (isWord_of_ofWords? (ofWords?_typeWords type)) rest
  have visible : Visible type.name.toList := by cases type <;> exact ⟨_, _, rfl, by decide⟩
  rw [← name_eq_typeWords, List.cons_append, (visible.append _).skipBlank_space,
    ← (visible.append (')' :: rest)).skipBlank] at words
  have nonempty : typeWords type ≠ [] := by cases type <;> exact List.cons_ne_nil _ _
  exact accepts_castType_of_repeats nonempty (ofWords?_typeWords type) words

theorem rejects_castType {input : List Char} (other : ∀ c ∈ input.head?, c ≠ '(') : Rejects castType input :=
  (rejects_char other).bind.checked

theorem Interrupted.tail {c : Char} {input : List Char} (interrupted : Interrupted (c :: input))
    (part : isForeign c = false) : Interrupted input := by
  obtain ⟨d, found, other⟩ := interrupted
  rw [List.find?_cons, part] at found
  exact ⟨d, found, other⟩

theorem Interrupted.skipBlank {input : List Char} (interrupted : Interrupted input) :
    Interrupted (skipBlank input) := by
  induction input with
  | nil => exact interrupted
  | cons c input ih =>
    by_cases blank : Text.isBlank c = true
    · rw [skipBlank_cons_blank input blank]
      exact ih (interrupted.tail (by simp [isForeign, blank]))
    · rwa [skipBlank_cons input (Bool.not_eq_true _ ▸ blank)]

/-- Reading words never gets past what interrupts them. -/
theorem preserves_identifierName : Preserves Interrupted identifierName := by
  have step {test : Char → Bool} (part : ∀ c, test c = true → isIdentifierPart c = true) :
      Preserves Interrupted (satisfy test) :=
    preserves_satisfy fun c _ holds interrupted => interrupted.tail (by simp [isForeign, part c holds])
  exact (step fun c => isIdentifierPart_of_isIdentifierStart).bind fun first =>
    (step fun c => id).many.bind fun others => preserves_pure _

/-- What is in parentheses is a type only if nothing else than words comes before the end. -/
theorem rejects_castType_of_interrupted {input : List Char} (interrupted : Interrupted input) :
    Rejects castType ('(' :: input) := by
  have words : Preserves Interrupted (atLeastOne (padded identifierName)) :=
    (preserves_identifierName.padded fun _ => Interrupted.skipBlank).atLeastOne
  refine Rejects.checked ((accepts_char '(' input).bind_rejects ?_)
  refine words.bind_rejects interrupted fun _ rest still => (rejects_char fun c front => ?_).bind
  rintro rfl
  obtain ⟨d, found, other⟩ := still
  cases rest with
  | nil => cases front
  | cons c rest =>
    obtain rfl := Option.some.inj front
    cases found
    exact other rfl

end Types

section Operators

theorem accepts_unaryOperator (operator : UnaryOperator) (rest : List Char) :
    Accepts unaryOperator (operator.symbol.toList ++ rest) operator rest := by
  cases operator <;> exact fun position => ⟨_, _, rfl⟩

theorem rejects_unaryOperator {input : List Char} (other : ∀ c ∈ input.head?, c ∉ ['-', '+', '~', '!']) :
    Rejects unaryOperator input := by
  have refused {c : Char} (operator : UnaryOperator) (member : c ∈ ['-', '+', '~', '!']) :
      Rejects (do
        let _ ← char c
        return operator) input := by
    refine (rejects_char fun d front => ?_).bind
    rintro rfl
    exact other d front member
  refine rejects_choice (fun parser member => ?_) (refused .not (by decide))
  simp only [List.mem_cons, List.not_mem_nil, or_false] at member
  rcases member with rfl | rfl | rfl
  · exact refused .negate (by decide)
  · exact refused .plus (by decide)
  · exact refused .complement (by decide)

variable {place : Nat}

theorem accepts_word (letters rest : List Char) : Accepts (word letters) (letters ++ rest) () rest := by
  induction letters with
  | nil => exact accepts_pure () rest
  | cons c letters ih => exact (accepts_char c (letters ++ rest)).bind ih

theorem rejects_word_of_second {c d : Char} {letters rest : List Char} (other : c ≠ d) (first : Char) :
    Rejects (word (first :: d :: letters)) (first :: c :: rest) :=
  (accepts_char first (c :: rest)).bind_rejects (rejects_char (forall_head?_cons other)).bind

theorem accepts_lone {c d : Char} (operator : BinaryOperator) (other : d ≠ c) (rest : List Char) :
    Accepts (lone c operator) (c :: d :: rest) operator (d :: rest) := by
  have next : Accepts (notNext c) (d :: rest) () (d :: rest) := by
    have passes : Accepts (satisfy (· != c)) (d :: rest) d rest := accepts_satisfy rest (bne_iff_ne.mpr other)
    intro position
    obtain ⟨stop, missed, read⟩ := passes position
    exact ⟨position, none, by simp only [notNext, read]⟩
  exact (accepts_char c (d :: rest)).bind (next.bind (accepts_pure operator (d :: rest)))

/-- Characters that may be the second of an operator. -/
def doubling : List Char := ['<', '>', '=', '&', '|']

/-- An operator is read at its level where no character comes next that would make it another. -/
theorem accepts_operator (operator : BinaryOperator) (known : operator.level < levels.length) {c : Char}
    (single : c ∉ doubling) (rest : List Char) :
    Accepts levels[operator.level] (operator.symbol.toList ++ c :: rest) operator (c :: rest) := by
  have read : Accepts (spelled operator) (operator.symbol.toList ++ c :: rest) operator (c :: rest) :=
    (accepts_word _ _).bind (accepts_pure operator _)
  have other {d : Char} (member : d ∈ doubling) : c ≠ d := fun same => single (same ▸ member)
  cases operator with
  | less =>
    have noEqual : Rejects (spelled .lessOrEqual) ('<' :: c :: rest) :=
      (rejects_word_of_second (other (by decide)) '<').bind
    have noGreater : Rejects (spelled .greaterOrEqual) ('<' :: c :: rest) := fun position => ⟨_, rfl⟩
    exact noEqual.orElse (noGreater.orElse read.orElse)
  | greater =>
    have noLess : Rejects (spelled .lessOrEqual) ('>' :: c :: rest) := fun position => ⟨_, rfl⟩
    have noEqual : Rejects (spelled .greaterOrEqual) ('>' :: c :: rest) :=
      (rejects_word_of_second (other (by decide)) '>').bind
    have noLess' : Rejects (spelled .less) ('>' :: c :: rest) := fun position => ⟨_, rfl⟩
    exact noLess.orElse (noEqual.orElse (noLess'.orElse read))
  | bitAnd => exact accepts_lone .bitAnd (other (by decide)) rest
  | bitOr => exact accepts_lone .bitOr (other (by decide)) rest
  | _ => exact fun position => ⟨_, _, rfl⟩

/-- Tighter levels do not read an operator. -/
theorem rejects_operator (operator : BinaryOperator) (below : place < operator.level) (known : place < levels.length)
    {c : Char} (single : c ∉ doubling) (rest : List Char) :
    Rejects levels[place] (operator.symbol.toList ++ c :: rest) := by
  have shift (operator : BinaryOperator) {first d : Char} (symbol : operator.symbol.toList = [first, d])
      (member : d ∈ doubling) : Rejects (spelled operator) (first :: c :: rest) := by
    have other : c ≠ d := fun same => single (same ▸ member)
    refine Rejects.bind ?_
    rw [symbol]
    exact rejects_word_of_second other first
  cases operator with
  | less =>
    have noRight : Rejects (spelled .shiftRight) ('<' :: c :: rest) := fun position => ⟨_, rfl⟩
    have shifts := (shift .shiftLeft rfl (by decide)).orElse_rejects noRight
    simp only [BinaryOperator.level] at below
    interval_cases place
    · exact fun position => ⟨_, rfl⟩
    · exact fun position => ⟨_, rfl⟩
    · exact shifts
  | greater =>
    have noLeft : Rejects (spelled .shiftLeft) ('>' :: c :: rest) := fun position => ⟨_, rfl⟩
    have shifts := noLeft.orElse_rejects (shift .shiftRight rfl (by decide))
    simp only [BinaryOperator.level] at below
    interval_cases place
    · exact fun position => ⟨_, rfl⟩
    · exact fun position => ⟨_, rfl⟩
    · exact shifts
  | _ =>
    simp only [BinaryOperator.level] at below
    interval_cases place <;> exact fun position => ⟨_, rfl⟩

/-- No level reads a parenthesis or a mark of a conditional. -/
theorem rejects_level {input : List Char} (mark : ∀ c ∈ input.head?, c ∈ [')', '?', ':'])
    (known : place < levels.length) : Rejects levels[place] input := by
  change place < 10 at known
  cases input with
  | nil => interval_cases place <;> exact fun position => ⟨_, rfl⟩
  | cons c rest =>
    have mark := mark c rfl
    simp only [List.mem_cons, List.not_mem_nil, or_false] at mark
    rcases mark with rfl | rfl | rfl <;> interval_cases place <;> exact fun position => ⟨_, rfl⟩

end Operators

end Interop.Expression
