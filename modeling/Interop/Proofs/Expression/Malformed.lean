import Interop.Expression.Evaluation
import Interop.Proofs.Expression.Precedence
import Interop.Proofs.Grammar.Place

/-! Syntax errors point into the text. All parsers of the grammar keep their place, from the characters up to
whole expressions, and the two checks are made of texts that are not empty: a number has a digit and a cast
has its parentheses. -/
namespace Interop.Expression

open Grammar Grammar.Parser

theorem tracks_identifierName : Tracks 1 identifierName :=
  (tracks_satisfy _).bind fun first => (tracks_satisfy _).many.bind fun others =>
    tracks_pure (String.ofList (first :: others))

section Literals

theorem tracks_escapeOf (escape : Char × Char) : Tracks 1 (escapeOf escape) :=
  (tracks_char escape.1).bind fun _ => tracks_pure escape.2

theorem tracks_escape : Tracks 2 escape := by
  refine (tracks_char '\\').bind fun _ => tracks_choice (fun parser member => ?_) (tracks_escapeOf _)
  obtain ⟨escape, -, rfl⟩ := List.mem_map.mp member
  exact tracks_escapeOf escape

theorem tracks_quotable (delimiter : Char) : Tracks 1 (quotable delimiter) :=
  (tracks_satisfy _).orElse (tracks_escape.mono (by decide))

theorem tracks_numberPart : Tracks 1 numberPart := by
  have exponent : Tracks 2 signedExponent :=
    (tracks_satisfy _).bind fun letter => (tracks_satisfy _).bind fun sign => tracks_pure [letter, sign]
  exact (exponent.mono (by decide)).orElse ((tracks_satisfy _).bind fun c => tracks_pure [c])

theorem tracks_number : Tracks 1 number := by
  have digits : Tracks 1 (do
      let first ← satisfy Char.isDigit
      let others ← many numberPart
      return String.ofList (first :: others.flatten)) :=
    (tracks_satisfy _).bind fun first => tracks_numberPart.many.bind fun others =>
      tracks_pure (String.ofList (first :: others.flatten))
  exact digits.checked

theorem tracks_characterLiteral : Tracks 0 characterLiteral :=
  (((tracks_char '\'').between (tracks_quotable '\'') (tracks_char '\'')).bind fun c =>
    tracks_pure (Expression.literal (IntegerKind.int.wrap c.toNat))).weaken

theorem tracks_stringLiteral : Tracks 0 stringLiteral := by
  have quoted := ((tracks_char '"').between (tracks_quotable '"').many (tracks_char '"')).padded
  exact (quoted.atLeastOne.bind fun parts =>
    tracks_pure (Expression.literal (.string (String.ofList parts.flatten)))).weaken

theorem tracks_literalForm : Tracks 0 literalForm := by
  refine tracks_choice (fun parser member => ?_) tracks_stringLiteral
  rcases List.mem_cons.mp member with rfl | member
  · exact tracks_number.weaken
  · obtain rfl := List.mem_singleton.mp member
    exact tracks_characterLiteral

end Literals

section Operands

variable {whole tighter : Parser Expression} {operator : Parser BinaryOperator}

theorem tracks_parenthesized {α : Type} {parser : Parser α} (tracks : Tracks 0 parser) :
    Tracks 2 (parenthesized parser) :=
  (tracks_char '(').between tracks (tracks_char ')')

theorem tracks_atom (tracks : Tracks 0 whole) : Tracks 0 (atom whole) := by
  refine (tracks_choice (fun parser member => ?_) (tracks_parenthesized tracks).weaken).padded
  rcases List.mem_cons.mp member with rfl | member
  · exact tracks_literalForm
  · obtain rfl := List.mem_singleton.mp member
    exact (tracks_identifierName.map ofName).weaken

theorem tracks_castType : Tracks 2 castType :=
  (tracks_parenthesized tracks_identifierName.padded.atLeastOne.weaken).checked

theorem tracks_unaryOperator : Tracks 1 unaryOperator := by
  have mark (c : Char) (operator : UnaryOperator) :
      Tracks 1 (do let _ ← char c; return operator : Parser UnaryOperator) :=
    (tracks_char c).bind fun _ => tracks_pure operator
  refine tracks_choice (fun parser member => ?_) (mark '!' .not)
  simp only [List.mem_cons, List.not_mem_nil, or_false] at member
  rcases member with rfl | rfl | rfl
  · exact mark '-' .negate
  · exact mark '+' .plus
  · exact mark '~' .complement

theorem tracks_operand (tracks : Tracks 0 whole) (bound : Nat) : Tracks 0 (operand whole bound) := by
  induction bound with
  | zero => exact tracks_fail
  | succ bound ih =>
    rw [operand_succ]
    refine tracks_choice (fun parser member => ?_) (tracks_atom tracks)
    rcases List.mem_cons.mp member with rfl | member
    · exact (tracks_castType.padded.bind fun type => ih.bind fun value =>
        tracks_pure (Expression.cast type value)).weaken
    · obtain rfl := List.mem_singleton.mp member
      exact (tracks_unaryOperator.padded.bind fun operator => ih.bind fun value =>
        tracks_pure (Expression.unary operator value)).weaken

theorem tracks_spelled (operator : BinaryOperator) : Tracks 0 (spelled operator) :=
  (tracks_word operator.symbol.toList).bind fun _ => tracks_pure operator

theorem tracks_lone (c : Char) (operator : BinaryOperator) : Tracks 0 (lone c operator) :=
  ((tracks_char c).bind fun _ => (tracks_notNext c).bind fun _ => tracks_pure operator).weaken

theorem tracks_levels : ∀ operator ∈ levels, Tracks 0 operator := by
  have several (others : List BinaryOperator) (last : BinaryOperator) :
      Tracks 0 (choice (others.map spelled) (spelled last)) := by
    refine tracks_choice (fun parser member => ?_) (tracks_spelled last)
    obtain ⟨operator, -, rfl⟩ := List.mem_map.mp member
    exact tracks_spelled operator
  simp only [levels, List.forall_mem_cons]
  exact ⟨several [.multiply, .divide] .remainder, several [.add] .subtract, several [.shiftLeft] .shiftRight,
    several [.lessOrEqual, .greaterOrEqual, .less] .greater, several [.equal] .notEqual, tracks_lone _ _,
    tracks_spelled _, tracks_lone _ _, tracks_spelled _, tracks_spelled _, by simp⟩

theorem tracks_level (tracks : Tracks 0 tighter) (tracks' : Tracks 0 operator) :
    Tracks 0 (level tighter operator) := by
  have further : Tracks 0 (Expression.further tighter operator) :=
    tracks'.padded.bind fun operator => tracks.bind fun right => tracks_pure (operator, right)
  rw [level_eq]
  exact tracks.bind fun first => further.many.bind fun others => tracks_pure (others.foldl join first)

/-- The levels are put on top of one another, the tightest first. -/
theorem tracks_foldl_level {operators : List (Parser BinaryOperator)} (tracks : Tracks 0 tighter)
    (tracks' : ∀ operator ∈ operators, Tracks 0 operator) : Tracks 0 (operators.foldl level tighter) := by
  induction operators generalizing tighter with
  | nil => exact tracks
  | cons operator operators ih =>
    obtain ⟨own, looser⟩ := List.forall_mem_cons.mp tracks'
    exact ih (tracks_level tracks own) looser

theorem tracks_branches (tracks : Tracks 0 whole) : Tracks 0 (branches whole) :=
  ((tracks_char '?').padded.bind fun _ => tracks.bind fun accepted => (tracks_char ':').padded.bind fun _ =>
    tracks.bind fun rejected => tracks_pure (accepted, rejected)).weaken

end Operands

theorem tracks_within (bound : Nat) : Tracks 0 (within bound) := by
  induction bound with
  | zero => exact tracks_fail
  | succ bound ih =>
    rw [within_succ]
    have condition := tracks_foldl_level (tracks_operand ih (bound + 1)) tracks_levels
    refine condition.followed fun condition => (tracks_branches ih).optional.followed fun found => ?_
    cases found with
    | none => exact tracks_pure condition
    | some both => exact tracks_pure (Expression.conditional condition both.1 both.2)

theorem tracks_complete (bound : Nat) : Tracks 0 (complete bound) :=
  (tracks_within bound).padded.bind fun expression => tracks_finish.bind fun _ => tracks_pure expression

/-- The failure of a text that is no expression points into the text. -/
theorem pointsInto_of_parse {text : String} {failure : Failure} (malformed : parse text = .error failure) :
    failure.PointsInto text.toList := by
  have read := tracks_complete (text.toList.length + 1) text.toList (Cursor.start text) (Cursor.standsIn_start text)
  delta parse at malformed
  cases outcome : complete (text.toList.length + 1) (Cursor.start text) with
  | accept expression next missed =>
    rw [outcome] at malformed
    cases malformed
  | reject failure =>
    rw [outcome] at malformed read
    cases malformed
    exact read

/-- A text that is no expression has a syntax error, which covers characters of the text: at least one of them,
unless the text ended too soon. -/
theorem parse_error_bounds {text : String} {failure : Failure} (malformed : parse text = .error failure) :
    (∀ scope, evaluateText scope text = .error (.malformed failure)) ∧
    failure.start ≤ failure.stop ∧ failure.stop ≤ text.length ∧
    (failure.start = failure.stop ↔
      failure.start = text.length ∧ failure.complaint.message = "unexpected end of input") := by
  obtain ⟨ordered, inside, ended⟩ := (pointsInto_of_parse malformed).bounds
  rw [String.length_toList] at inside ended
  refine ⟨fun scope => ?_, ordered, inside, fun same => ?_, fun ⟨last, _⟩ => ?_⟩
  · delta evaluateText
    rw [malformed]
  · obtain ⟨last, complaint⟩ := ended same
    exact ⟨last, by rw [complaint]; rfl⟩
  · omega

/-- A number that is refused is covered as a whole, also where the text goes on. -/
theorem parse_error_bounds_octal :
    parse "1 + 09 + 2" = .error ⟨6, 4, 6, .rejected "invalid integer literal `09`"⟩ ∧
    evaluateText [] "1 + 09 + 2" = .error (.malformed ⟨6, 4, 6, .rejected "invalid integer literal `09`"⟩) ∧
    6 ≤ "1 + 09 + 2".length := by
  have malformed : parse "1 + 09 + 2" = .error ⟨6, 4, 6, .rejected "invalid integer literal `09`"⟩ := by
    decide +kernel
  obtain ⟨evaluated, -, inside, -⟩ := parse_error_bounds malformed
  exact ⟨malformed, evaluated [], inside⟩

end Interop.Expression
