import Interop.Proofs.Expression.Precedence
import Interop.Proofs.Expression.Spelling

/-! White space between tokens makes no difference. `Scans` says that a parser reads the tokens
of an expression however they are spaced and leaves those after them, as long as these do not
continue the expression. An expression that is spelled is an operand, whatever its own operator:
the levels read it and stop, and inside its parentheses one of them reads it as two. -/
namespace Interop.Expression

open Grammar Grammar.Parser

inductive Fronts : List Token → Prop where
  | word (name : Word) (tokens : List Token) : Fronts (.word name :: tokens)
  | string (text : String) (tokens : List Token) : Fronts (.string text :: tokens)
  | opening (tokens : List Token) : Fronts (.opening :: tokens)

/-- What may come after an expression at a place that allows a looseness up to a limit. -/
inductive Stops (limit : Nat) : List Token → Prop where
  | finish : Stops limit []
  | closing (tokens : List Token) : Stops limit (.closing :: tokens)
  | colon (tokens : List Token) : Stops limit (.colon :: tokens)
  | question (tokens : List Token) (tighter : limit ≤ 10) : Stops limit (.question :: tokens)
  | binary (operator : BinaryOperator) {tokens : List Token} (fronts : Fronts tokens)
      (looser : limit ≤ operator.level) : Stops limit (.binary operator :: tokens)

/-- The parser reads the tokens as a value however they are spaced, and leaves what comes after. -/
def Scans {α : Type} (parser : Parser α) (limit : Nat) (tokens : List Token) (value : α) : Prop :=
  ∀ tail text, Stops limit tail → Spaced (tokens ++ tail) text →
    ∃ rest, Spaced tail rest ∧ rest.length ≤ text.length ∧ Accepts parser text value (skipBlank rest)

section Marks

variable {tokens : List Token} {text : List Char} {limit lower : Nat}

/-- An operand starts with no character that would make another operator of the one before it. -/
theorem Fronts.single (fronts : Fronts tokens) (spaced : Spaced tokens text) :
    ∃ c others, text = c :: others ∧ c ∉ doubling := by
  cases fronts with
  | word name tokens =>
    obtain ⟨c, others, rfl, blank | start⟩ := spaced.front
    · exact ⟨c, others, rfl, not_mem_of_class blank (by decide)⟩
    · exact ⟨c, others, rfl, not_mem_of_class (List.all_eq_true.mp name.parts c (List.mem_of_head? start)) (by decide)⟩
  | string | opening =>
    obtain ⟨c, others, rfl, blank | start⟩ := spaced.front
    · exact ⟨c, others, rfl, not_mem_of_class blank (by decide)⟩
    · cases start
      exact ⟨_, others, rfl, by decide⟩

theorem Spells.fronts {expression : Expression} (spells : Spells expression tokens) (tail : List Token) :
    Fronts (tokens ++ tail) := by
  rcases spells.shape with ⟨name, rfl⟩ | ⟨text, rfl⟩ | ⟨inner, rfl⟩
  · exact .word name tail
  · exact .string text tail
  · exact .opening _

namespace Stops

theorem mono (stops : Stops limit tokens) (le : lower ≤ limit) : Stops lower tokens := by
  cases stops with
  | finish => exact .finish
  | closing => exact .closing _
  | colon => exact .colon _
  | question _ tighter => exact .question _ (Nat.le_trans le tighter)
  | binary operator fronts looser => exact .binary operator fronts (Nat.le_trans le looser)

theorem not_quote (stops : Stops limit tokens) (spaced : Spaced tokens text) :
    ∀ c ∈ (skipBlank text).head?, c ≠ '"' := by
  cases stops with
  | finish =>
    rw [spaced.skipBlank_eq_nil]
    rintro c ⟨⟩
  | binary operator =>
    rw [spaced.head?_skipBlank]
    cases operator <;> exact forall_head?_cons (by decide)
  | _ =>
    rw [spaced.head?_skipBlank]
    exact forall_head?_cons (by decide)

/-- The operators of tighter levels do not read what is left. -/
theorem rejects_levels (stops : Stops limit tokens) (spaced : Spaced tokens text) {place : Nat}
    (tighter : place < limit) (known : place < levels.length) : Rejects levels[place] (skipBlank text) := by
  cases stops with
  | finish =>
    rw [spaced.skipBlank_eq_nil]
    exact rejects_level (by rintro c ⟨⟩) known
  | binary operator fronts looser =>
    obtain ⟨rest, start, _, others, _⟩ := spaced.uncons
    obtain ⟨c, rest, rfl, single⟩ := fronts.single others
    rw [start]
    exact rejects_operator operator (Nat.lt_of_lt_of_le tighter looser) known single rest
  | _ =>
    refine rejects_level ?_ known
    rw [spaced.head?_skipBlank]
    exact forall_head?_cons (by decide)

/-- After a whole expression there is no conditional. -/
theorem rejects_question (stops : Stops 11 tokens) (spaced : Spaced tokens text) :
    Rejects (char '?') (skipBlank text) := by
  refine rejects_char ?_
  cases stops with
  | finish =>
    rw [spaced.skipBlank_eq_nil]
    rintro c ⟨⟩
  | question _ tighter => exact absurd tighter (by decide)
  | binary operator =>
    rw [spaced.head?_skipBlank]
    cases operator <;> exact forall_head?_cons (by decide)
  | _ =>
    rw [spaced.head?_skipBlank]
    exact forall_head?_cons (by decide)

end Stops

end Marks

section Operands

variable {whole : Parser Expression} {bound limit : Nat} {tokens : List Token} {value : Expression}

theorem ignoresBlank_operand (whole : Parser Expression) (bound : Nat) : IgnoresBlank (operand whole (bound + 1)) := by
  rw [operand_succ]
  exact ((ignoresBlank_padded castType).bind _).orElse
    (((ignoresBlank_padded unaryOperator).bind _).orElse (ignoresBlank_padded _))

theorem scans_word {name : Word} (reads : ∀ rest, Ends rest →
      Accepts (operand whole (bound + 1)) (name.letters ++ rest) value (skipBlank rest)) :
    Scans (operand whole (bound + 1)) limit [.word name] value := by
  intro tail text _ spaced
  obtain ⟨rest, start, shorter, others, ends⟩ := spaced.uncons
  refine ⟨rest, others, Nat.le_of_lt shorter, (ignoresBlank_operand whole bound).accepts ?_⟩
  rw [start]
  exact reads rest (ends rfl)

theorem scans_string (text : String) :
    Scans (operand whole (bound + 1)) limit [.string text] (.literal (.string text)) := by
  intro tail input stops spaced
  obtain ⟨rest, start, shorter, others, _⟩ := spaced.uncons
  refine ⟨rest, others, Nat.le_of_lt shorter, (ignoresBlank_operand whole bound).accepts ?_⟩
  rw [start]
  exact accepts_string text (stops.not_quote others)

theorem scans_enclosed (inner : Scans whole 11 tokens value)
    (opens : ∃ token, tokens.find? (fun token => !token.isWord) = some token ∧ token ≠ .closing) :
    Scans (operand whole (bound + 1)) limit (enclosed tokens) value := by
  intro tail text stops spaced
  have split : enclosed tokens ++ tail = .opening :: (tokens ++ .closing :: tail) := by
    rw [enclosed, List.cons_append, List.append_assoc, List.singleton_append]
  rw [split] at spaced
  obtain ⟨before, start, shorter, spaced, _⟩ := spaced.uncons
  obtain ⟨after, spaced', le, read⟩ := inner (.closing :: tail) before (.closing tail) spaced
  obtain ⟨rest, start', shorter', others, _⟩ := spaced'.uncons
  have interrupted : Interrupted before := by
    obtain ⟨token, found, other⟩ := opens
    exact spaced.interrupted ⟨token, by rw [List.find?_append, found, Option.some_or], other⟩
  refine ⟨rest, others, by omega, (ignoresBlank_operand whole bound).accepts ?_⟩
  rw [start'] at read
  rw [start]
  exact accepts_parenthesized interrupted read

theorem Scans.unary (operator : UnaryOperator) (scans : Scans (operand whole bound) limit tokens value) :
    Scans (operand whole (bound + 1)) limit (.unary operator :: tokens) (.unary operator value) := by
  intro tail text stops spaced
  obtain ⟨before, start, shorter, spaced, _⟩ := Spaced.uncons spaced
  obtain ⟨rest, others, le, read⟩ := scans tail (skipBlank before) stops spaced.skipBlank
  have le' := length_skipBlank_le before
  refine ⟨rest, others, by omega, (ignoresBlank_operand whole bound).accepts ?_⟩
  rw [start]
  exact accepts_unary operator read

/-- Words however they are spaced are read up to the closing parenthesis. -/
theorem repeats_spaced_words {words : List Word} (all : ∀ word ∈ words, IsWord word.letters) {tail : List Token}
    {text : List Char} (spaced : Spaced (words.map .word ++ .closing :: tail) text) :
    ∃ rest, Spaced tail rest ∧ rest.length < text.length ∧
      Repeats (padded identifierName) (skipBlank text) (words.map Word.text) (')' :: rest) := by
  induction words generalizing text with
  | nil =>
    obtain ⟨rest, start, shorter, others, _⟩ := spaced.uncons
    refine ⟨rest, others, shorter, ?_⟩
    rw [start]
    exact repeats_no_word rest
  | cons word words ih =>
    obtain ⟨first, following⟩ := List.forall_mem_cons.mp all
    obtain ⟨after, start, shorter, spaced, ends⟩ := Spaced.uncons spaced
    obtain ⟨rest, others, shorter', repeats⟩ := ih following spaced
    refine ⟨rest, others, by omega, ?_⟩
    rw [start]
    exact repeats_word first (ends rfl) repeats

theorem Scans.cast {type : CastType} {words : List Word} (nonempty : words ≠ [])
    (known : CastType.ofWords? (words.map Word.text) = some type)
    (scans : Scans (operand whole bound) limit tokens value) :
    Scans (operand whole (bound + 1)) limit (enclosed (words.map .word) ++ tokens) (.cast type value) := by
  intro tail text stops spaced
  have split : enclosed (words.map .word) ++ tokens ++ tail =
      .opening :: (words.map .word ++ .closing :: (tokens ++ tail)) := by
    simp only [enclosed, List.cons_append, List.append_assoc, List.nil_append]
  rw [split] at spaced
  have all : ∀ word ∈ words, IsWord word.letters := by
    intro word member
    have read := isWord_of_ofWords? known word.text (List.mem_map_of_mem member)
    rwa [Word.text, String.toList_ofList] at read
  obtain ⟨before, start, shorter, spaced, _⟩ := spaced.uncons
  obtain ⟨middle, spaced, shorter', repeats⟩ := repeats_spaced_words all spaced
  obtain ⟨rest, others, le, read⟩ := scans tail (skipBlank middle) stops spaced.skipBlank
  have le' := length_skipBlank_le middle
  have nonempty : words.map Word.text ≠ [] := fun none => nonempty (List.map_eq_nil_iff.mp none)
  refine ⟨rest, others, by omega, (ignoresBlank_operand whole bound).accepts ?_⟩
  rw [start]
  exact accepts_cast ⟨'(', before, rfl, by decide⟩ (accepts_castType_of_repeats nonempty known repeats) read

end Operands

section Levels

variable {tighter operands : Parser Expression} {limit count : Nat} {first second : List Token} {left right : Expression}

theorem rejects_further {tail : List Token} {rest : List Char} (stops : Stops (limit + 1) tail)
    (spaced : Spaced tail rest) (known : limit < levels.length) :
    Rejects (further tighter levels[limit]) (skipBlank rest) := by
  refine (Rejects.padded ?_).bind
  rw [skipBlank_skipBlank]
  exact stops.rejects_levels spaced (Nat.lt_succ_self limit) known

/-- A level reads what the tighter one reads. -/
theorem Scans.looser (scans : Scans tighter limit first left) (known : limit < levels.length) :
    Scans (level tighter levels[limit]) (limit + 1) first left := by
  intro tail text stops spaced
  obtain ⟨rest, others, le, read⟩ := scans tail text (stops.mono (Nat.le_succ limit)) spaced
  have none : Repeats (further tighter levels[limit]) (skipBlank rest) [] (skipBlank rest) :=
    .done (rejects_further stops others known)
  rw [level_eq]
  exact ⟨rest, others, le, read.bind (none.many.bind (accepts_pure left _))⟩

/-- A level reads its own operators. -/
theorem Scans.joined {operator : BinaryOperator} (scans : Scans tighter operator.level first left)
    (scans' : Scans tighter operator.level second right) (fronts : ∀ tail, Fronts (second ++ tail))
    (known : operator.level < levels.length) :
    Scans (level tighter levels[operator.level]) (operator.level + 1) (first ++ .binary operator :: second)
      (.binary operator left right) := by
  intro tail text stops spaced
  rw [List.append_assoc, List.cons_append] at spaced
  obtain ⟨middle, spaced, le, read⟩ := scans _ text (.binary operator (fronts tail) (Nat.le_refl _)) spaced
  obtain ⟨before, start, _, spaced, _⟩ := spaced.uncons
  obtain ⟨rest, others, le', read'⟩ :=
    scans' tail (skipBlank before) (stops.mono (Nat.le_succ _)) spaced.skipBlank
  have mark : Accepts (padded levels[operator.level]) (skipBlank middle) operator (skipBlank before) := by
    obtain ⟨c, after, rfl, single⟩ := (fronts tail).single spaced
    rw [start]
    exact ((visible_symbol operator).append _).accepts_padded (accepts_operator operator known single after)
  have item : Accepts (further tighter levels[operator.level]) (skipBlank middle) (operator, right) (skipBlank rest) :=
    mark.bind (read'.bind (accepts_pure (operator, right) _))
  have shorter : rest.length < (skipBlank middle).length := by
    obtain ⟨c, letters, split, _⟩ := visible_symbol operator
    have le := length_skipBlank_le before
    rw [start, Token.letters, split, List.length_append, List.length_cons]
    omega
  have once : Repeats (further tighter levels[operator.level]) (skipBlank middle) [(operator, right)] (skipBlank rest) :=
    .next item (Nat.lt_of_le_of_lt (length_skipBlank_le rest) shorter) (.done (rejects_further stops others known))
  have le'' := length_skipBlank_le middle
  rw [level_eq]
  exact ⟨rest, others, by omega, read.bind (once.many.bind (accepts_pure _ _))⟩

/-- Looser levels read what a tighter one reads. -/
theorem Scans.outer (lower : Nat) (scans : Scans ((levels.take lower).foldl level operands) lower first left)
    (le : lower ≤ count) (known : count ≤ levels.length) :
    Scans ((levels.take count).foldl level operands) count first left := by
  induction count, le using Nat.le_induction with
  | base => exact scans
  | succ count le ih =>
    rw [List.take_succ_eq_append_getElem known, List.foldl_append]
    exact (ih (Nat.le_of_succ_le known)).looser known

theorem Scans.unjoined (scans : Scans operands 0 first left) : Scans (levels.foldl level operands) 10 first left :=
  Scans.outer 0 scans (Nat.zero_le 10) (Nat.le_refl 10)

theorem Scans.binary (operator : BinaryOperator) (scans : Scans operands 0 first left)
    (scans' : Scans operands 0 second right) (fronts : ∀ tail, Fronts (second ++ tail)) :
    Scans (levels.foldl level operands) 10 (first ++ .binary operator :: second) (.binary operator left right) := by
  have known : operator.level < levels.length := operator.level_lt
  have below : operator.level ≤ levels.length := Nat.le_of_lt known
  have joined := (Scans.outer 0 scans (Nat.zero_le _) below).joined
    (Scans.outer 0 scans' (Nat.zero_le _) below) fronts known
  have own : (levels.take (operator.level + 1)).foldl level operands =
      level ((levels.take operator.level).foldl level operands) levels[operator.level] := by
    rw [List.take_succ_eq_append_getElem known, List.foldl_append]
    rfl
  rw [← own] at joined
  exact Scans.outer _ joined known (Nat.le_refl 10)

end Levels

section Whole

variable {bound : Nat} {first second third : List Token} {condition accepted rejected expression : Expression}

/-- An expression without a conditional of its own is a whole one. -/
theorem Scans.alone (scans : Scans (levels.foldl level (operand (within bound) (bound + 1))) 10 first expression) :
    Scans (within (bound + 1)) 11 first expression := by
  intro tail text stops spaced
  obtain ⟨rest, others, le, read⟩ := scans tail text (stops.mono (by decide)) spaced
  have none : Rejects (branches (within bound)) (skipBlank rest) := by
    refine (Rejects.padded ?_).bind
    rw [skipBlank_skipBlank]
    exact stops.rejects_question others
  rw [within_succ]
  exact ⟨rest, others, le, read.bind (none.optional.bind (accepts_pure expression _))⟩

theorem accepts_spaced_mark {token : Token} {tokens : List Token} {text : List Char} {c : Char}
    (letters : token.letters = [c]) (spaced : Spaced (token :: tokens) text) :
    ∃ rest, Spaced tokens rest ∧ rest.length < text.length ∧ Accepts (padded (char c)) text c (skipBlank rest) := by
  obtain ⟨rest, start, shorter, others, _⟩ := spaced.uncons
  refine ⟨rest, others, shorter, Accepts.padded ?_⟩
  rw [start, letters]
  exact accepts_char c rest

theorem Scans.conditional (scans : Scans (levels.foldl level (operand (within bound) (bound + 1))) 10 first condition)
    (scans' : Scans (within bound) 11 second accepted) (scans'' : Scans (within bound) 11 third rejected) :
    Scans (within (bound + 1)) 11 (first ++ .question :: (second ++ .colon :: third))
      (.conditional condition accepted rejected) := by
  intro tail text stops spaced
  simp only [List.append_assoc, List.cons_append] at spaced
  obtain ⟨before, spaced, le, read⟩ := scans _ text (.question _ (by decide)) spaced
  obtain ⟨middle, spaced, shorter, mark⟩ := accepts_spaced_mark rfl spaced.skipBlank
  obtain ⟨after, spaced, le', read'⟩ := scans' _ (skipBlank middle) (.colon _) spaced.skipBlank
  obtain ⟨last, spaced, shorter', mark'⟩ := accepts_spaced_mark rfl spaced.skipBlank
  obtain ⟨rest, others, le'', read''⟩ := scans'' tail (skipBlank last) stops spaced.skipBlank
  have le₁ := length_skipBlank_le before
  have le₂ := length_skipBlank_le middle
  have le₃ := length_skipBlank_le after
  have le₄ := length_skipBlank_le last
  have both : Accepts (branches (within bound)) (skipBlank before) (accepted, rejected) (skipBlank rest) :=
    mark.bind (read'.bind (mark'.bind (read''.bind (accepts_pure (accepted, rejected) _))))
  rw [within_succ]
  exact ⟨rest, others, by omega, read.bind (both.optional.bind (accepts_pure _ _))⟩

/-- An expression that is spelled is read as an operand. The induction is on how it is spelled,
and the depth allowed is at least the number of tokens. -/
theorem Spells.scans {tokens : List Token} (spells : Spells expression tokens) {depth : Nat}
    (fits : tokens.length ≤ depth) (bound : Nat) : Scans (operand (within depth) (bound + 1)) 0 tokens expression := by
  induction spells generalizing depth bound with
  | integer nonneg letters =>
    refine scans_word fun rest ends => ?_
    rw [letters]
    exact accepts_numeral nonneg ends
  | @truth value name letters =>
    have word : IsWord (writtenConstant (.bool value)) := by
      cases value <;> exact ⟨_, _, rfl, by decide, List.all_eq_true.mp (by decide)⟩
    refine scans_word fun rest ends => ?_
    rw [letters]
    cases value <;> exact accepts_name word ends
  | string text => exact scans_string text
  | @identifier name free =>
    refine scans_word fun rest ends => ?_
    obtain ⟨c, others, letters, start, parts, other, other'⟩ := isName_iff.mp free
    rw [Word.text, String.toList_ofList] at letters
    have read : Accepts (operand (within depth) (bound + 1)) (name.letters ++ rest) (ofName name.text)
        (skipBlank rest) := accepts_name ⟨c, others, letters, start, parts⟩ ends
    rwa [ofName, if_neg other, if_neg other'] at read
  | @unary operator operand tokens inner ih =>
    simp only [enclosed, List.length_cons, List.length_append, List.length_nil] at fits
    obtain ⟨depth, rfl⟩ := Nat.exists_eq_add_of_le' (by omega : 2 ≤ depth)
    have read := (ih (by omega : tokens.length ≤ depth + 1) depth).unary operator
    exact scans_enclosed read.unjoined.alone ⟨.unary operator, rfl, Token.noConfusion⟩
  | @cast type words nonempty known operand tokens inner ih =>
    simp only [enclosed, List.length_cons, List.length_append, List.length_nil] at fits
    obtain ⟨depth, rfl⟩ := Nat.exists_eq_add_of_le' (by omega : 2 ≤ depth)
    have read := (ih (by omega : tokens.length ≤ depth + 1) depth).cast nonempty known
    exact scans_enclosed read.unjoined.alone ⟨.opening, rfl, Token.noConfusion⟩
  | @binary operator left right first second inner inner' ih ih' =>
    simp only [enclosed, List.length_cons, List.length_append, List.length_nil] at fits
    obtain ⟨depth, rfl⟩ := Nat.exists_eq_add_of_le' (by omega : 1 ≤ depth)
    have read := (ih (by omega : first.length ≤ depth) depth).binary operator
      (ih' (by omega : second.length ≤ depth) depth) inner'.fronts
    exact scans_enclosed read.alone (inner.find_mark rfl Token.noConfusion second)
  | @conditional condition accepted rejected first second third inner inner' inner'' ih ih' ih'' =>
    simp only [enclosed, List.length_cons, List.length_append, List.length_nil] at fits
    obtain ⟨depth, rfl⟩ := Nat.exists_eq_add_of_le' (by omega : 2 ≤ depth)
    have read := (ih (by omega : first.length ≤ depth + 1) (depth + 1)).unjoined
    have read' := (ih' (by omega : second.length ≤ depth) depth).unjoined.alone
    have read'' := (ih'' (by omega : third.length ≤ depth) depth).unjoined.alone
    exact scans_enclosed (read.conditional read' read'') (inner.find_mark rfl Token.noConfusion _)

/-- White space before, between and after the tokens of an expression makes no difference. -/
theorem parse_spaced (expression : Expression) :
    ((∃ tokens, Spells expression tokens) ↔ expression.isWritable = true) ∧
    ∀ tokens text, Spells expression tokens → Spaced tokens text.toList → parse text = .ok expression := by
  refine ⟨Spells.exists_iff, fun tokens text spells spaced => ?_⟩
  have fits := spaced.length_le
  have scans := (spells.scans fits text.toList.length).unjoined.alone
  rw [← List.append_nil tokens] at spaced
  obtain ⟨rest, others, _, read⟩ := scans [] (skipBlank text.toList) .finish spaced.skipBlank
  rw [others.skipBlank_eq_nil] at read
  exact parse_of_accepts (read.padded.bind (accepts_finish.bind (accepts_pure expression [])))

/-- Operators, parentheses and type words with and without white space between them. -/
theorem parse_spaced_cast :
    (cast .unsignedInt (unary .negate (identifier "x"))).isWritable = true ∧
    parse "( (unsigned\n int)(-\tx) )" = .ok (cast .unsignedInt (unary .negate (identifier "x"))) := by
  let unsigned : Word := ⟨['u', 'n', 's', 'i', 'g', 'n', 'e', 'd'], by decide, by decide⟩
  let int : Word := ⟨['i', 'n', 't'], by decide, by decide⟩
  let name : Word := ⟨['x'], by decide, by decide⟩
  have spells : Spells (cast .unsignedInt (unary .negate (identifier "x")))
      [.opening, .opening, .word unsigned, .word int, .closing, .opening, .unary .negate, .word name, .closing,
        .closing] :=
    @Spells.cast _ [unsigned, int] (by decide) (by decide) _ _ (.unary .negate (@Spells.identifier name (by decide)))
  have spaced : Spaced
      [.opening, .opening, .word unsigned, .word int, .closing, .opening, .unary .negate, .word name, .closing,
        .closing]
      "( (unsigned\n int)(-\tx) )".toList := by
    refine .next [] (by decide) (by decide) ?_
    refine .next [' '] (by decide) (by decide) ?_
    refine .next [] (by decide) (by decide) ?_
    refine .next ['\n', ' '] (by decide) (by decide) ?_
    refine .next [] (by decide) (by decide) ?_
    refine .next [] (by decide) (by decide) ?_
    refine .next [] (by decide) (by decide) ?_
    refine .next ['\t'] (by decide) (by decide) ?_
    refine .next [] (by decide) (by decide) ?_
    refine .next [' '] (by decide) (by decide) ?_
    exact .finish (by decide)
  have read := parse_spaced (cast .unsignedInt (unary .negate (identifier "x")))
  exact ⟨read.1.mp ⟨_, spells⟩, read.2 _ _ spells spaced⟩

end Whole

end Interop.Expression
