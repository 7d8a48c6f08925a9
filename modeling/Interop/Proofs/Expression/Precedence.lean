import Interop.Proofs.Expression.Token

/-! Written expressions are read back. `Follows` lists what may come after an expression of
some looseness; none of it continues the expression, so a parser for one level reads exactly the
operands and operators of its level. That is carried from the operands through the ten levels to
the conditional, and from there into parentheses and branches, whose texts are shorter. -/
namespace Interop.Expression

open Grammar Grammar.Parser

/-- What may come after an expression at a place that allows a looseness up to a limit. -/
inductive Follows : Nat → List Char → Prop where
  | finish (limit : Nat) : Follows limit []
  | closing (limit : Nat) (rest : List Char) : Follows limit (')' :: rest)
  | operator {limit : Nat} (operator : BinaryOperator) (rest : List Char) (looser : limit ≤ operator.level) :
      Follows limit (' ' :: (operator.symbol.toList ++ ' ' :: rest))
  | accepted {limit : Nat} (rest : List Char) (tighter : limit ≤ 10) : Follows limit (' ' :: '?' :: ' ' :: rest)
  | rejected (limit : Nat) (rest : List Char) : Follows limit (' ' :: ':' :: ' ' :: rest)

namespace Follows

variable {limit : Nat} {rest : List Char}

theorem mono {lower : Nat} (follows : Follows limit rest) (le : lower ≤ limit) : Follows lower rest := by
  cases follows with
  | finish => exact .finish lower
  | closing => exact .closing lower _
  | operator operator rest looser => exact .operator operator rest (Nat.le_trans le looser)
  | accepted rest tighter => exact .accepted rest (Nat.le_trans le tighter)
  | rejected => exact .rejected lower _

theorem ends (follows : Follows limit rest) : Ends rest := by
  intro c front
  cases follows <;> cases front <;> decide

theorem skipBlank_operator (operator : BinaryOperator) (rest : List Char) :
    skipBlank (' ' :: (operator.symbol.toList ++ rest)) = operator.symbol.toList ++ rest := by
  rw [((visible_symbol operator).append rest).skipBlank_space]

theorem not_quote (follows : Follows limit rest) : ∀ c ∈ (skipBlank rest).head?, c ≠ '"' := by
  intro c front
  cases follows with
  | operator operator rest looser =>
    rw [skipBlank_operator] at front
    cases operator <;> cases front <;> decide
  | _ => cases front <;> decide

/-- The operators of tighter levels do not read what follows. -/
theorem rejects_levels (follows : Follows limit rest) {place : Nat} (tighter : place < limit)
    (known : place < levels.length) : Rejects levels[place] (skipBlank rest) := by
  cases follows with
  | operator operator rest looser =>
    rw [skipBlank_operator]
    exact rejects_operator operator (Nat.lt_of_lt_of_le tighter looser) known (by decide) rest
  | finish => exact rejects_level (by rintro c ⟨⟩) known
  | closing => exact rejects_level (forall_head?_cons (by decide)) known
  | accepted => exact rejects_level (forall_head?_cons (by decide)) known
  | rejected => exact rejects_level (forall_head?_cons (by decide)) known

/-- After a whole expression there is no conditional. -/
theorem rejects_question (follows : Follows 11 rest) : Rejects (char '?') (skipBlank rest) := by
  cases follows with
  | operator operator rest looser => exact absurd looser (Nat.not_le.mpr (Nat.lt_succ_of_lt operator.level_lt))
  | accepted rest tighter => exact absurd tighter (by decide)
  | _ => exact fun position => ⟨_, rfl⟩

end Follows

/-- The parser reads every expression whose text is not too long back at a place of some limit. -/
def Reads (parser : Parser Expression) (limit size : Nat) : Prop :=
  ∀ expression : Expression, expression.isWritable = true → (expression.writtenWithin limit).length ≤ size →
    ∀ rest, Follows limit rest → Accepts parser (expression.writtenWithin limit ++ rest) expression (skipBlank rest)

theorem writtenWithin_eleven (expression : Expression) : expression.writtenWithin 11 = expression.written := by
  refine writtenWithin_of_le ?_
  cases expression with
  | binary operator => exact Nat.le_succ_of_le operator.level_lt
  | conditional => exact Nat.le_refl 11
  | _ => exact Nat.zero_le 11

section Operands

variable {whole : Parser Expression} {input rest : List Char}

theorem operand_succ (whole : Parser Expression) (bound : Nat) :
    operand whole (bound + 1) = choice [
      (do
        let type ← padded castType
        return .cast type (← operand whole bound)),
      (do
        let operator ← padded unaryOperator
        return .unary operator (← operand whole bound))] (atom whole) := rfl

theorem rejects_literalForm (visible : Visible input)
    (other : ∀ c ∈ input.head?, c.isDigit = false ∧ c ≠ '\'' ∧ c ≠ '"') : Rejects literalForm input := by
  have string : Rejects stringLiteral input := by
    refine rejects_stringLiteral fun c front => ?_
    rw [visible.skipBlank] at front
    exact (other c front).2.2
  exact (rejects_number fun c front => (other c front).1).orElse_rejects
    ((rejects_characterLiteral fun c front => (other c front).2.1).orElse_rejects string)

theorem accepts_atom {value : Expression} (visible : Visible input)
    (accepts : Accepts (choice [literalForm, ofName <$> identifierName] (parenthesized whole)) input value rest) :
    Accepts (atom whole) input value (skipBlank rest) :=
  visible.accepts_padded accepts

/-- Where neither a cast nor a unary operator starts there is an atom. -/
theorem accepts_operand_of_atom {bound : Nat} {value : Expression} (visible : Visible input)
    (noCast : Rejects castType input) (noOperator : ∀ c ∈ input.head?, c ∉ ['-', '+', '~', '!'])
    (accepts : Accepts (choice [literalForm, ofName <$> identifierName] (parenthesized whole)) input value rest) :
    Accepts (operand whole (bound + 1)) input value (skipBlank rest) := by
  have cast : Rejects (padded castType) input := visible.rejects_padded noCast
  have unary : Rejects (padded unaryOperator) input := visible.rejects_padded (rejects_unaryOperator noOperator)
  rw [operand_succ]
  exact cast.bind.orElse (unary.bind.orElse (accepts_atom visible accepts))

theorem accepts_cast {bound : Nat} {type : CastType} {value : Expression} {middle : List Char} (visible : Visible input)
    (read : Accepts castType input type middle) (accepts : Accepts (operand whole bound) (skipBlank middle) value rest) :
    Accepts (operand whole (bound + 1)) input (.cast type value) rest := by
  rw [operand_succ]
  exact ((visible.accepts_padded read).bind (accepts.bind (accepts_pure (Expression.cast type value) rest))).orElse

theorem accepts_unary {bound : Nat} {value : Expression} (operator : UnaryOperator)
    (accepts : Accepts (operand whole bound) (skipBlank input) value rest) :
    Accepts (operand whole (bound + 1)) (operator.symbol.toList ++ input) (.unary operator value) rest := by
  have symbol : Visible operator.symbol.toList := by cases operator <;> exact ⟨_, _, rfl, by decide⟩
  have noCast : Rejects (padded castType) (operator.symbol.toList ++ input) := by
    refine (symbol.append input).rejects_padded (rejects_castType fun c front => ?_)
    cases operator <;> cases front <;> decide
  have read := (symbol.append input).accepts_padded (accepts_unaryOperator operator input)
  rw [operand_succ]
  exact noCast.bind.orElse ((read.bind (accepts.bind (accepts_pure (Expression.unary operator value) rest))).orElse)

theorem accepts_literal {bound : Nat} {c : Char} {value : Expression} (visible : Text.isBlank c = false)
    (noParenthesis : c ≠ '(') (noOperator : c ∉ ['-', '+', '~', '!'])
    (accepts : Accepts literalForm (c :: input) value rest) :
    Accepts (operand whole (bound + 1)) (c :: input) value (skipBlank rest) :=
  accepts_operand_of_atom ⟨c, input, rfl, visible⟩ (rejects_castType (forall_head?_cons noParenthesis))
    (forall_head?_cons noOperator) accepts.orElse

theorem accepts_numeral {bound : Nat} {kind : IntegerKind} {word : BitVec kind.width}
    (nonneg : 0 ≤ kind.value word) (ends : Ends rest) :
    Accepts (operand whole (bound + 1)) (kind.numeral (kind.value word).toNat ++ rest)
      (.literal (.integer kind word)) (skipBlank rest) := by
  have read := accepts_number nonneg ends
  obtain ⟨c, others, split, digit⟩ := numeral_eq_cons kind (kind.value word).toNat
  have noMark : c ∉ ['(', '-', '+', '~', '!'] := not_mem_of_class digit (by decide)
  rw [split] at read ⊢
  exact accepts_literal (not_isBlank_of_isIdentifierPart (isIdentifierPart_of_isDigit digit))
    (List.ne_of_not_mem_cons noMark) (List.not_mem_of_not_mem_cons noMark) read.orElse

theorem accepts_string {bound : Nat} (text : String) (alone : ∀ c ∈ (skipBlank rest).head?, c ≠ '"') :
    Accepts (operand whole (bound + 1)) (writtenConstant (.string text) ++ rest) (.literal (.string text))
      (skipBlank rest) := by
  have read := accepts_stringLiteral text alone
  have noNumber : Rejects number (writtenConstant (.string text) ++ rest) :=
    rejects_number (forall_head?_cons (by decide))
  have noCharacter : Rejects characterLiteral (writtenConstant (.string text) ++ rest) :=
    rejects_characterLiteral (forall_head?_cons (by decide))
  rw [← skipBlank_skipBlank]
  exact accepts_literal (by decide) (by decide) (by decide) (noNumber.orElse (noCharacter.orElse read))

/-- A name is a truth value or an identifier. -/
theorem accepts_name {bound : Nat} {letters : List Char} (word : IsWord letters) (ends : Ends rest) :
    Accepts (operand whole (bound + 1)) (letters ++ rest) (ofName (String.ofList letters)) (skipBlank rest) := by
  have visible := word.visible.append rest
  have name := (accepts_identifierName word ends).map ofName
  obtain ⟨c, others, rfl, start, _⟩ := word
  have noQuote : c ∉ ['\'', '"'] := not_mem_of_class start (by decide)
  have noMark : c ∉ ['(', '-', '+', '~', '!'] := not_mem_of_class start (by decide)
  have noLiteral : Rejects literalForm ((c :: others) ++ rest) :=
    rejects_literalForm visible (forall_head?_cons ⟨not_isDigit_of_isIdentifierStart start,
      List.ne_of_not_mem_cons noQuote, List.ne_of_not_mem_cons (List.not_mem_of_not_mem_cons noQuote)⟩)
  exact accepts_operand_of_atom visible (rejects_castType (forall_head?_cons (List.ne_of_not_mem_cons noMark)))
    (forall_head?_cons (List.not_mem_of_not_mem_cons noMark)) (noLiteral.orElse name.orElse)

/-- Parentheses hold a whole expression where it is not taken for a type. -/
theorem accepts_parenthesized {bound : Nat} {expression : Expression} (interrupted : Interrupted input)
    (inner : Accepts whole input expression (')' :: rest)) :
    Accepts (operand whole (bound + 1)) ('(' :: input) expression (skipBlank rest) := by
  have visible : Visible ('(' :: input) := ⟨'(', _, rfl, by decide⟩
  have noLiteral := rejects_literalForm visible (forall_head?_cons (by decide))
  have noName : Rejects (ofName <$> identifierName) ('(' :: input) :=
    (rejects_identifierName (forall_head?_cons (by decide))).map ofName
  exact accepts_operand_of_atom visible (rejects_castType_of_interrupted interrupted) (forall_head?_cons (by decide))
    (noLiteral.orElse (noName.orElse ((accepts_char '(' _).between inner (accepts_char ')' rest))))

/-- Every operand is read: names, constants and parentheses at once, the others after what
stands in front of them. -/
theorem reads_operand {room : Nat} (nested : Reads whole 11 room) {bound : Nat} (within : bound ≤ room + 1) :
    Reads (operand whole bound) 0 bound := by
  induction bound with
  | zero =>
    intro expression writable fits rest follows
    obtain ⟨c, others, split, _⟩ := visible_writtenWithin writable 0
    rw [split] at fits
    cases fits
  | succ bound ih =>
    have inner := ih (Nat.le_of_succ_le within)
    intro expression writable fits rest follows
    have ends := follows.ends
    by_cases loose : 0 < expression.looseness
    · rw [writtenWithin_of_lt loose] at fits ⊢
      simp only [List.length_cons, List.length_append, List.length_nil] at fits
      have inner : Accepts whole (expression.written ++ ')' :: rest) expression (')' :: rest) := by
        have read := nested expression writable (by rw [writtenWithin_eleven]; omega) (')' :: rest) (.closing 11 rest)
        rwa [writtenWithin_eleven, skipBlank_cons _ (by decide)] at read
      rw [List.cons_append, List.append_assoc]
      exact accepts_parenthesized (interrupted_written writable loose _) inner
    cases expression with
    | literal value =>
      cases value with
      | integer kind word => exact accepts_numeral (of_decide_eq_true writable) ends
      | bool value =>
        have word : IsWord (writtenConstant (.bool value)) := by
          cases value <;> exact ⟨_, _, rfl, by decide, List.all_eq_true.mp (by decide)⟩
        cases value <;> exact accepts_name word ends
      | string text => exact accepts_string text follows.not_quote
      | _ => cases writable
    | identifier name =>
      obtain ⟨c, others, letters, start, parts, other, other'⟩ := isName_iff.mp writable
      have read : Accepts (operand whole (bound + 1)) (name.toList ++ rest) (ofName (String.ofList name.toList))
          (skipBlank rest) := accepts_name ⟨c, others, letters, start, parts⟩ ends
      rwa [String.ofList_toList, ofName, if_neg other, if_neg other'] at read
    | unary operator operand =>
      have text : (unary operator operand).writtenWithin 0 = operator.symbol.toList ++ operand.writtenWithin 0 := rfl
      have some : 0 < operator.symbol.toList.length := by cases operator <;> decide
      rw [text, List.length_append] at fits
      rw [text, List.append_assoc]
      have writable : operand.isWritable = true := writable
      have read := inner operand writable (by omega) rest follows
      rw [← ((visible_writtenWithin writable 0).append rest).skipBlank] at read
      exact accepts_unary operator read
    | cast type operand =>
      have text : (Expression.cast type operand).writtenWithin 0 =
          '(' :: (type.name.toList ++ ')' :: operand.writtenWithin 0) := rfl
      rw [text] at fits ⊢
      simp only [List.length_cons, List.length_append] at fits
      rw [List.cons_append, List.append_assoc, List.cons_append]
      have writable : operand.isWritable = true := writable
      have read := inner operand writable (by omega) rest follows
      rw [← ((visible_writtenWithin writable 0).append rest).skipBlank] at read
      exact accepts_cast ⟨'(', _, rfl, by decide⟩ (accepts_castType type _) read
    | _ => exact absurd (Nat.succ_pos _) loose

end Operands

section Levels

def further (tighter : Parser Expression) (operator : Parser BinaryOperator) :
    Parser (BinaryOperator × Expression) := do
  let operator ← padded operator
  let right ← tighter
  return (operator, right)

def join (left : Expression) (next : BinaryOperator × Expression) : Expression := .binary next.1 left next.2

theorem level_eq (tighter : Parser Expression) (operator : Parser BinaryOperator) :
    level tighter operator = (do
      let first ← tighter
      let others ← many (further tighter operator)
      return others.foldl join first) := rfl

variable {tighter : Parser Expression} {limit size : Nat}

/-- An operator of the level and its right operand, after what stands to their left. -/
theorem accepts_further (reads : Reads tighter limit size) {operator : BinaryOperator} (same : operator.level = limit)
    (known : limit < levels.length) {right : Expression} (writable : right.isWritable = true)
    (fits : (right.writtenWithin limit).length ≤ size) {tail : List Char} (follows : Follows limit tail) :
    Accepts (further tighter levels[limit])
      (skipBlank (' ' :: (operator.symbol.toList ++ ' ' :: (right.writtenWithin limit ++ tail))))
      (operator, right) (skipBlank tail) := by
  subst same
  have mark := accepts_operator operator known (by decide : ' ' ∉ doubling) (right.writtenWithin operator.level ++ tail)
  have read := ((visible_symbol operator).append _).accepts_padded mark
  rw [((visible_writtenWithin writable _).append tail).skipBlank_space] at read
  rw [Follows.skipBlank_operator]
  exact read.bind ((reads right writable fits tail follows).bind (accepts_pure (operator, right) (skipBlank tail)))

theorem accepts_level_of_ne (reads : Reads tighter limit size) {operator : Parser BinaryOperator}
    {expression : Expression} (other : expression.looseness ≠ limit + 1) (writable : expression.isWritable = true)
    (fits : (expression.writtenWithin (limit + 1)).length ≤ size)
    {tail last : List Char} {others : List (BinaryOperator × Expression)} (follows : Follows limit tail)
    (repeats : Repeats (further tighter operator) (skipBlank tail) others last) :
    Accepts (level tighter operator) (expression.writtenWithin (limit + 1) ++ tail) (others.foldl join expression)
      last := by
  rw [writtenWithin_succ other] at fits ⊢
  rw [level_eq]
  exact (reads expression writable fits tail follows).bind (repeats.many.bind (accepts_pure _ last))

/-- Operands at the left are read first, and the operators after them are joined from the left.
The induction is on the left operand; what it leaves to be read grows by one operator each time. -/
theorem accepts_level (reads : Reads tighter limit size) (known : limit < levels.length) {expression : Expression}
    (writable : expression.isWritable = true) (fits : (expression.writtenWithin (limit + 1)).length ≤ size)
    {tail last : List Char} {others : List (BinaryOperator × Expression)} (follows : Follows limit tail)
    (repeats : Repeats (further tighter levels[limit]) (skipBlank tail) others last) :
    Accepts (level tighter levels[limit]) (expression.writtenWithin (limit + 1) ++ tail)
      (others.foldl join expression) last := by
  induction expression generalizing tail others with
  | binary operator left right ih _ =>
    by_cases same : operator.level = limit
    · simp only [isWritable, Bool.and_eq_true] at writable
      have text : (binary operator left right).writtenWithin (limit + 1) =
          left.writtenWithin (limit + 1) ++ ' ' :: (operator.symbol.toList ++ ' ' :: right.writtenWithin limit) := by
        subst same
        exact writtenWithin_of_le (Nat.le_refl _)
      rw [text] at fits ⊢
      simp only [List.length_append, List.length_cons] at fits
      rw [List.append_assoc, List.cons_append, List.append_assoc, List.cons_append]
      have item := accepts_further reads same known writable.2 (by omega) follows
      refine ih writable.1 (by omega) (.operator operator _ (Nat.le_of_eq same.symm)) (.next item ?_ repeats)
      have le := length_skipBlank_le tail
      rw [Follows.skipBlank_operator]
      simp only [List.length_append, List.length_cons]
      omega
    · refine accepts_level_of_ne reads ?_ writable fits follows repeats
      exact fun equal => same (Nat.succ.inj equal)
  | conditional =>
    refine accepts_level_of_ne reads ?_ writable fits follows repeats
    change limit < 10 at known
    simp only [looseness]
    omega
  | _ =>
    refine accepts_level_of_ne reads ?_ writable fits follows repeats
    exact (Nat.succ_ne_zero limit).symm

/-- A level reads what the tighter one reads and its own operators, and stops before looser ones. -/
theorem reads_level (reads : Reads tighter limit size) (known : limit < levels.length) :
    Reads (level tighter levels[limit]) (limit + 1) size := by
  intro expression writable fits rest follows
  have stops : Rejects (further tighter levels[limit]) (skipBlank rest) := by
    refine Rejects.bind (Rejects.padded ?_)
    rw [skipBlank_skipBlank]
    exact follows.rejects_levels (Nat.lt_succ_self limit) known
  exact accepts_level reads known writable fits (follows.mono (Nat.le_succ limit)) (.done stops)

/-- All levels below a place together. -/
theorem reads_levels {operands : Parser Expression} (reads : Reads operands 0 size) {count : Nat}
    (known : count ≤ levels.length) : Reads ((levels.take count).foldl level operands) count size := by
  induction count with
  | zero => exact reads
  | succ count ih =>
    rw [List.take_succ_eq_append_getElem known, List.foldl_append]
    exact reads_level (ih (Nat.le_of_succ_le known)) known

end Levels

section Whole

theorem within_succ (bound : Nat) :
    within (bound + 1) = (do
      let condition ← levels.foldl level (operand (within bound) (bound + 1))
      match ← optional (branches (within bound)) with
      | some (accepted, rejected) => return .conditional condition accepted rejected
      | none => return condition) := rfl

theorem accepts_mark {c : Char} (visible : Text.isBlank c = false) {text : List Char} (visible' : Visible text) :
    Accepts (padded (char c)) (c :: ' ' :: text) c text := by
  have start : Visible (c :: ' ' :: text) := ⟨c, _, rfl, visible⟩
  have read := start.accepts_padded (accepts_char c (' ' :: text))
  rwa [visible'.skipBlank_space] at read

/-- The branches of a conditional are whole expressions. -/
theorem accepts_branches {whole : Parser Expression} {room : Nat} (nested : Reads whole 11 room)
    {accepted rejected : Expression} (writable : accepted.isWritable = true) (writable' : rejected.isWritable = true)
    (fits : accepted.written.length ≤ room) (fits' : rejected.written.length ≤ room)
    {rest : List Char} (follows : Follows 11 rest) :
    Accepts (branches whole) ('?' :: ' ' :: (accepted.written ++ ' ' :: ':' :: ' ' :: (rejected.written ++ rest)))
      (accepted, rejected) (skipBlank rest) := by
  have first := nested accepted writable (by rwa [writtenWithin_eleven])
    (' ' :: ':' :: ' ' :: (rejected.written ++ rest)) (.rejected 11 _)
  have second := nested rejected writable' (by rwa [writtenWithin_eleven]) rest follows
  have colon : Visible (':' :: ' ' :: (rejected.written ++ rest)) := ⟨':', _, rfl, by decide⟩
  rw [writtenWithin_eleven, colon.skipBlank_space] at first
  rw [writtenWithin_eleven] at second
  exact (accepts_mark (by decide) ((visible_written writable).append _)).bind (first.bind
    ((accepts_mark (by decide) ((visible_written writable').append rest)).bind
      (second.bind (accepts_pure (accepted, rejected) (skipBlank rest)))))

/-- Whole expressions are read. The induction is on the bound, which is at least the length of the
text; what stands in parentheses or in a branch is shorter than the text around it. -/
theorem reads_within (bound : Nat) : Reads (within bound) 11 bound := by
  induction bound with
  | zero =>
    intro expression writable fits rest follows
    obtain ⟨c, others, split, _⟩ := visible_writtenWithin writable 11
    rw [split] at fits
    cases fits
  | succ bound nested =>
    have operators : Reads (levels.foldl level (operand (within bound) (bound + 1))) 10 (bound + 1) :=
      reads_levels (reads_operand nested (Nat.le_refl _)) (Nat.le_refl 10)
    intro expression writable fits rest follows
    rw [within_succ]
    by_cases tight : expression.looseness ≤ 10
    · have stops : Rejects (branches (within bound)) (skipBlank rest) := by
        refine (Rejects.padded ?_).bind
        rw [skipBlank_skipBlank]
        exact follows.rejects_question
      rw [writtenWithin_eleven] at fits ⊢
      have read := operators expression writable (by rwa [writtenWithin_of_le tight]) rest (follows.mono (by decide))
      rw [writtenWithin_of_le tight] at read
      exact read.bind (stops.optional.bind (accepts_pure expression (skipBlank rest)))
    · cases expression with
      | conditional condition accepted rejected =>
        simp only [isWritable, Bool.and_eq_true] at writable
        have text : (conditional condition accepted rejected).writtenWithin 11 =
            condition.writtenWithin 10 ++
              ' ' :: '?' :: ' ' :: (accepted.written ++ ' ' :: ':' :: ' ' :: rejected.written) := rfl
        rw [text] at fits ⊢
        simp only [List.length_append, List.length_cons] at fits
        simp only [List.append_assoc, List.cons_append]
        have read := operators condition writable.1.1 (by omega)
          (' ' :: '?' :: ' ' :: (accepted.written ++ ' ' :: ':' :: ' ' :: (rejected.written ++ rest)))
          (.accepted _ (Nat.le_refl 10))
        have mark : Visible ('?' :: ' ' :: (accepted.written ++ ' ' :: ':' :: ' ' :: (rejected.written ++ rest))) :=
          ⟨'?', _, rfl, by decide⟩
        rw [mark.skipBlank_space] at read
        have after := accepts_branches nested writable.1.2 writable.2 (by omega) (by omega) follows
        exact read.bind (after.optional.bind (accepts_pure (conditional condition accepted rejected) (skipBlank rest)))
      | binary operator => exact absurd operator.level_lt tight
      | _ => exact absurd (Nat.zero_le 10) tight

theorem accepts_complete {expression : Expression} (writable : expression.isWritable = true) {bound : Nat}
    (fits : expression.written.length ≤ bound) : Accepts (complete bound) expression.written expression [] := by
  have read := reads_within bound expression writable (by rwa [writtenWithin_eleven]) [] (.finish 11)
  rw [writtenWithin_eleven, List.append_nil] at read
  exact ((visible_written writable).accepts_padded read).bind (accepts_finish.bind (accepts_pure expression []))

theorem parse_of_accepts {text : String} {expression : Expression} {rest : List Char}
    (accepts : Accepts (complete (text.toList.length + 1)) text.toList expression rest) :
    parse text = .ok expression := by
  obtain ⟨stop, missed, read⟩ := accepts 0
  have read : complete (text.toList.length + 1) (Cursor.start text) = .accept expression ⟨stop, rest⟩ missed := read
  delta parse
  rw [read]

/-- Parsing reads back whatever can be written. -/
theorem parse_written {expression : Expression} (writable : expression.isWritable = true) :
    parse (String.ofList expression.written) = .ok expression := by
  have read := accepts_complete writable (Nat.le_succ expression.written.length)
  exact parse_of_accepts (by rwa [String.toList_ofList])

/-- A right operand of the same level and one of a cast keep their parentheses. -/
theorem parse_written_subtract :
    (binary .subtract (identifier "a") (cast .unsignedChar
      (binary .subtract (literal (.integer .uint 1)) (literal (.string "\""))))).isWritable = true ∧
    parse "a - (unsigned char)(1u - \"\\\"\")" = .ok (binary .subtract (identifier "a") (cast .unsignedChar
      (binary .subtract (literal (.integer .uint 1)) (literal (.string "\""))))) := by
  have writable : (binary .subtract (identifier "a") (cast .unsignedChar
      (binary .subtract (literal (.integer .uint 1)) (literal (.string "\""))))).isWritable = true := by decide
  have text : String.ofList (binary .subtract (identifier "a") (cast .unsignedChar
      (binary .subtract (literal (.integer .uint 1)) (literal (.string "\""))))).written =
      "a - (unsigned char)(1u - \"\\\"\")" := by decide +kernel
  have read := parse_written writable
  rw [text] at read
  exact ⟨writable, read⟩

end Whole

end Interop.Expression
