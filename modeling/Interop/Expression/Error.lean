import Interop.Expression.Parser

/-! Why an expression has no value, and how each cause is worded. -/
namespace Interop

def Grammar.Complaint.message : Grammar.Complaint → String
  | .unexpected c => "unexpected character " ++ Text.quotedChar c
  | .endOfInput => "unexpected end of input"
  | .rejected message => message

def Grammar.Failure.message (failure : Grammar.Failure) : String :=
  "syntax error at " ++ toString failure.start ++ ".." ++ toString failure.stop ++ ": "
    ++ failure.complaint.message

inductive EvaluationError where
  | malformed (failure : Grammar.Failure)
  | unknownIdentifier (name : String)
  | divisionByZero
  | invalidOperand (operator : String) (operand : Constant)
  | cycle (name : String)
  deriving DecidableEq, Repr

def EvaluationError.message : EvaluationError → String
  | .malformed failure => failure.message
  | .unknownIdentifier name => "unknown identifier `" ++ name ++ "`"
  | .divisionByZero => "division by zero"
  | .invalidOperand operator operand =>
    "operator `" ++ operator ++ "` cannot be applied to " ++ operand.describe
  | .cycle name => "`" ++ name ++ "` is defined in terms of itself"

end Interop
