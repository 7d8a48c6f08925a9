import Interop.Constant.Numeral
import Interop.Expression.CastType
import Interop.Grammar.Basic

/-! The grammar of constant expressions. Binary operators come in ten levels; the
conditional is looser than all of them and unary operators and casts are tighter. White
space separates tokens and is otherwise skipped. -/
namespace Interop.Expression

open Grammar Grammar.Parser

def isIdentifierStart (c : Char) : Bool := c.isAlpha || c == '_'
def isIdentifierPart (c : Char) : Bool := c.isAlphanum || c == '_'

def identifierName : Parser String := do
  let first ← satisfy isIdentifierStart
  let others ← many (satisfy isIdentifierPart)
  return String.ofList (first :: others)

def escapes : List (Char × Char) :=
  [('\\', '\\'), ('"', '"'), ('\'', '\''), ('n', '\n'), ('t', '\t'), ('r', '\r')]

def escapeOf (escape : Char × Char) : Parser Char := do
  let _ ← char escape.1
  return escape.2

def escape : Parser Char := do
  let _ ← char '\\'
  choice (escapes.map escapeOf) (escapeOf ('0', '\x00'))

def quotable (delimiter : Char) : Parser Char :=
  (satisfy fun c => c != '\\' && c != delimiter).orElse escape

/-- A sign belongs to a number directly after an exponent letter. -/
def signedExponent : Parser (List Char) := do
  let letter ← satisfy fun c => c == 'e' || c == 'E'
  let sign ← satisfy fun c => c == '+' || c == '-'
  return [letter, sign]

def isNumberPart (c : Char) : Bool := c.isAlphanum || c == '.' || c == '_'

def numberPart : Parser (List Char) :=
  signedExponent.orElse do
    let c ← satisfy isNumberPart
    return [c]

def number : Parser Expression :=
  checked (do
    let first ← satisfy Char.isDigit
    let others ← many numberPart
    return String.ofList (first :: others.flatten))
  fun text => match Constant.ofNumeral text with
    | .ok value => .ok (.literal value)
    | .error error => .error (error.message text)

/-- A character literal is the `int` of its code point. -/
def characterLiteral : Parser Expression := do
  let c ← between (char '\'') (char '\'') (quotable '\'')
  return .literal (IntegerKind.int.wrap c.toNat)

/-- Neighbouring string literals are one string. -/
def stringLiteral : Parser Expression := do
  let parts ← atLeastOne (padded (between (char '"') (char '"') (many (quotable '"'))))
  return .literal (.string (String.ofList parts.flatten))

def literalForm : Parser Expression := choice [number, characterLiteral] stringLiteral

def ofName (name : String) : Expression :=
  if name = "true" then .literal (.bool true)
  else if name = "false" then .literal (.bool false)
  else .identifier name

def parenthesized (parser : Parser α) : Parser α := between (char '(') (char ')') parser

def atom (whole : Parser Expression) : Parser Expression :=
  padded (choice [literalForm, ofName <$> identifierName] (parenthesized whole))

def castType : Parser CastType :=
  checked (parenthesized (atLeastOne (padded identifierName))) fun words =>
    match CastType.ofWords? words with
    | some type => .ok type
    | none => .error "not a type name"

def unaryOperator : Parser UnaryOperator :=
  let spelled (c : Char) (operator : UnaryOperator) : Parser UnaryOperator := do
    let _ ← char c
    return operator
  choice [spelled '-' .negate, spelled '+' .plus, spelled '~' .complement] (spelled '!' .not)

/-- Casts and unary operators before an atom, at most `bound` of them. -/
def operand (whole : Parser Expression) : Nat → Parser Expression
  | 0 => fun cursor => .reject cursor.failure
  | bound + 1 => fun cursor =>
    let casted : Parser Expression := do
      let type ← padded castType
      return .cast type (← operand whole bound)
    let applied : Parser Expression := do
      let operator ← padded unaryOperator
      return .unary operator (← operand whole bound)
    choice [casted, applied] (atom whole) cursor

/-- An operator alone: a doubled character is another operator. -/
def lone (c : Char) (operator : BinaryOperator) : Parser BinaryOperator := do
  let _ ← char c
  notNext c
  return operator

def spelled (operator : BinaryOperator) : Parser BinaryOperator := do
  word operator.symbol.toList
  return operator

/-- The binary operators from the tightest level to the loosest. -/
def levels : List (Parser BinaryOperator) :=
  [choice [spelled .multiply, spelled .divide] (spelled .remainder),
   choice [spelled .add] (spelled .subtract),
   choice [spelled .shiftLeft] (spelled .shiftRight),
   choice [spelled .lessOrEqual, spelled .greaterOrEqual, spelled .less] (spelled .greater),
   choice [spelled .equal] (spelled .notEqual),
   lone '&' .bitAnd,
   spelled .bitXor,
   lone '|' .bitOr,
   spelled .and,
   spelled .or]

/-- Operands joined by the operators of one level, grouped from the left. -/
def level (tighter : Parser Expression) (operator : Parser BinaryOperator) : Parser Expression := do
  let first ← tighter
  let others ← many do
    let operator ← padded operator
    let right ← tighter
    return (operator, right)
  return others.foldl (fun left (operator, right) => .binary operator left right) first

def branches (whole : Parser Expression) : Parser (Expression × Expression) := do
  let _ ← padded (char '?')
  let accepted ← whole
  let _ ← padded (char ':')
  let rejected ← whole
  return (accepted, rejected)

/-- Expressions whose parentheses and branches nest less than `bound` deep. Each nested
one starts further on, so the length of the text bounds the nesting. -/
def within : Nat → Parser Expression
  | 0 => fun cursor => .reject cursor.failure
  | bound + 1 => fun cursor =>
    let whole := within bound
    let parser : Parser Expression := do
      let condition ← levels.foldl level (operand whole (bound + 1))
      match ← optional (branches whole) with
      | some (accepted, rejected) => return .conditional condition accepted rejected
      | none => return condition
    parser cursor

def complete (bound : Nat) : Parser Expression := do
  let expression ← padded (within bound)
  finish
  return expression

def parse (text : String) : Except Failure Expression :=
  match complete (text.toList.length + 1) (Cursor.start text) with
  | .accept expression _ _ => .ok expression
  | .reject failure => .error failure

end Interop.Expression
