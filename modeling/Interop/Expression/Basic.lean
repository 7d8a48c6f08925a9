import Interop.Constant.Basic

/-! Expressions of constants as C writes them: operators, casts to scalar types and the
conditional. -/
namespace Interop

inductive UnaryOperator where
  | plus
  | negate
  | complement
  | not
  deriving DecidableEq, Repr

inductive BinaryOperator where
  | multiply
  | divide
  | remainder
  | add
  | subtract
  | shiftLeft
  | shiftRight
  | less
  | lessOrEqual
  | greater
  | greaterOrEqual
  | equal
  | notEqual
  | bitAnd
  | bitXor
  | bitOr
  | and
  | or
  deriving DecidableEq, Repr

def UnaryOperator.symbol : UnaryOperator → String
  | .plus => "+"
  | .negate => "-"
  | .complement => "~"
  | .not => "!"

def BinaryOperator.symbol : BinaryOperator → String
  | .multiply => "*"
  | .divide => "/"
  | .remainder => "%"
  | .add => "+"
  | .subtract => "-"
  | .shiftLeft => "<<"
  | .shiftRight => ">>"
  | .less => "<"
  | .lessOrEqual => "<="
  | .greater => ">"
  | .greaterOrEqual => ">="
  | .equal => "=="
  | .notEqual => "!="
  | .bitAnd => "&"
  | .bitXor => "^"
  | .bitOr => "|"
  | .and => "&&"
  | .or => "||"

inductive CastType where
  | char
  | signedChar
  | unsignedChar
  | short
  | unsignedShort
  | int
  | unsignedInt
  | long
  | unsignedLong
  | float
  | double
  deriving DecidableEq, Repr

inductive Expression where
  | literal (value : Constant)
  | identifier (name : String)
  | unary (operator : UnaryOperator) (operand : Expression)
  | binary (operator : BinaryOperator) (left right : Expression)
  | cast (type : CastType) (operand : Expression)
  | conditional (condition accepted rejected : Expression)
  deriving DecidableEq, Repr

/-- The identifiers of an expression from left to right, with repetitions. -/
def Expression.identifiers : Expression → List String
  | .literal _ => []
  | .identifier name => [name]
  | .unary _ operand | .cast _ operand => operand.identifiers
  | .binary _ left right => left.identifiers ++ right.identifiers
  | .conditional condition accepted rejected =>
    condition.identifiers ++ accepted.identifiers ++ rejected.identifiers

end Interop
