import Interop.Expression.Error

/-! Evaluation of constant expressions. The kinds of numeric operands are promoted to one,
the result is wrapped into it, and comparisons give truth values. Identifiers are
resolved on demand: of `&&`, `||` and `?:` only the operands that matter are evaluated. -/
namespace Interop

abbrev Evaluated := Except EvaluationError Constant

def invalidOperand (operator : String) (operand : Constant) : Except EvaluationError α :=
  .error (.invalidOperand operator operand)

namespace Constant

def condition (operator : String) (constant : Constant) : Except EvaluationError Bool :=
  match constant.truth? with
  | some truth => .ok truth
  | none => invalidOperand operator constant

/-- The negative of a `uint` is a `long`, and a `ulong` has none. -/
def negate? : Constant → Option Constant
  | .integer .ulong _ => none
  | .integer .uint word => some (IntegerKind.long.wrap (-IntegerKind.uint.value word))
  | .integer kind word => some (kind.wrap (-kind.value word))
  | .single value => some (.single (-value))
  | .double value => some (.double (-value))
  | _ => none

def complement? : Constant → Option Constant
  | .integer kind word => some (.integer kind (~~~word))
  | _ => none

def applyUnary (operator : UnaryOperator) (operand : Constant) : Evaluated :=
  let result := match operator with
    | .plus => operand.kind?.map fun _ => operand
    | .negate => operand.negate?
    | .complement => operand.complement?
    | .not => operand.truth?.map fun truth => .bool (!truth)
  match result with
  | some result => .ok result
  | none => invalidOperand operator.symbol operand

/-- The integer that a cast starts from; a fraction is cut off. -/
def castSource? : Constant → Option Int
  | .integer kind word => some (kind.value word)
  | .single value => some ((Floating.decodeDouble value.toFloat).truncate 128)
  | .double value => some ((Floating.decodeDouble value).truncate 128)
  | .bool value => some (if value then 1 else 0)
  | .string _ => none

def cast (type : CastType) (operand : Constant) : Evaluated :=
  let result := match type.kind with
    | .integer kind => operand.castSource?.map fun n => kind.wrap (type.narrow n)
    | .single => operand.double?.map fun value => .single value.toFloat32
    | .double => operand.double?.map .double
  match result with
  | some result => .ok result
  | none => invalidOperand ("(" ++ type.name ++ ")") operand

/-- The words in which integers of every kind meet. They hold all operands, though not
all products. -/
abbrev Wide := BitVec 128

/-- Shifts keep the kind of the left operand; of the count only the bits that can number a
place of it matter. -/
def shift (operator : BinaryOperator) (left right : Constant) : Evaluated :=
  match right.integer? with
  | none => invalidOperand operator.symbol right
  | some count =>
    match left with
    | .integer kind word =>
      let places := (BitVec.ofInt 128 count &&& BitVec.ofNat 128 (kind.width - 1)).toNat
      .ok (.integer kind (
        if operator = .shiftLeft then word <<< places
        else if kind.isSigned then word.sshiftRight places
        else word >>> places))
    | _ => invalidOperand operator.symbol left

/-- Operations on two integers met in one kind. Only the result is brought to the kind. -/
def integral (operator : BinaryOperator) (kind : IntegerKind) (left right : Wide) :
    Option Evaluated :=
  let wrapped (result : Wide) : Option Evaluated := some (.ok (kind.wrap result.toInt))
  let quotient (result : Wide) : Option Evaluated :=
    if right = 0 then some (.error .divisionByZero) else wrapped result
  match operator with
  | .add => wrapped (left + right)
  | .subtract => wrapped (left - right)
  | .multiply => wrapped (left * right)
  | .divide => quotient (left.sdiv right)
  | .remainder => quotient (left.srem right)
  | .bitAnd => wrapped (left &&& right)
  | .bitOr => wrapped (left ||| right)
  | .bitXor => wrapped (left ^^^ right)
  | .less => some (.ok (.bool (left.slt right)))
  | .lessOrEqual => some (.ok (.bool (left.sle right)))
  | .greater => some (.ok (.bool (right.slt left)))
  | .greaterOrEqual => some (.ok (.bool (right.sle left)))
  | .equal => some (.ok (.bool (left = right)))
  | .notEqual => some (.ok (.bool (left ≠ right)))
  | .shiftLeft | .shiftRight | .and | .or => none

/-- Operations on two doubles; a narrow result is rounded once more. -/
def fractional (operator : BinaryOperator) (round : Float → Constant) (left right : Float) :
    Option Evaluated :=
  match operator with
  | .add => some (.ok (round (left + right)))
  | .subtract => some (.ok (round (left - right)))
  | .multiply => some (.ok (round (left * right)))
  | .divide => some (if right == 0.0 then .error .divisionByZero else .ok (round (left / right)))
  | .remainder =>
    some (if right == 0.0 then .error .divisionByZero
      else .ok (round (Floating.remainder left right)))
  | .less => some (.ok (.bool (left < right)))
  | .lessOrEqual => some (.ok (.bool (left ≤ right)))
  | .greater => some (.ok (.bool (right < left)))
  | .greaterOrEqual => some (.ok (.bool (right ≤ left)))
  | .equal => some (.ok (.bool (left == right)))
  | .notEqual => some (.ok (.bool (left != right)))
  | .bitAnd | .bitOr | .bitXor | .shiftLeft | .shiftRight | .and | .or => none

def firstFractional (left right : Constant) : Constant :=
  match left with
  | .integer .. => right
  | _ => left

def numeric (operator : BinaryOperator) (left right : Constant) : Evaluated :=
  match left.kind?, right.kind? with
  | none, _ => invalidOperand operator.symbol left
  | _, none => invalidOperand operator.symbol right
  | some first, some second =>
    let result := match first.promote second with
      | .integer kind => do
        integral operator kind (BitVec.ofInt 128 (← left.integer?)) (BitVec.ofInt 128 (← right.integer?))
      | .single => do
        fractional operator (fun value => .single value.toFloat32) (← left.double?) (← right.double?)
      | .double => do fractional operator .double (← left.double?) (← right.double?)
    result.getD (invalidOperand operator.symbol (firstFractional left right))

/-- An operator whose operands are both evaluated. Adding a string to anything joins
texts; strings and truth values can be compared for equality, and truth values take the
bitwise operators. -/
def applyBinary (operator : BinaryOperator) (left right : Constant) : Evaluated :=
  match operator, left, right with
  | .add, .string _, _ | .add, _, .string _ => .ok (.string (left.text ++ right.text))
  | .equal, .string a, .string b => .ok (.bool (a == b))
  | .notEqual, .string a, .string b => .ok (.bool (a != b))
  | .equal, .bool a, .bool b => .ok (.bool (a == b))
  | .notEqual, .bool a, .bool b => .ok (.bool (a != b))
  | .bitAnd, .bool a, .bool b => .ok (.bool (a && b))
  | .bitOr, .bool a, .bool b => .ok (.bool (a || b))
  | .bitXor, .bool a, .bool b => .ok (.bool (a ^^ b))
  | .shiftLeft, _, _ | .shiftRight, _, _ => shift operator left right
  | _, _, _ => numeric operator left right

end Constant

namespace Expression

variable {m : Type → Type} [Monad m] [MonadExceptOf EvaluationError m]

/-- The value of an expression, where `resolve` gives the values of identifiers. -/
def evaluate (resolve : String → m Constant) : Expression → m Constant
  | .literal value => pure value
  | .identifier name => resolve name
  | .unary operator operand => do
    MonadExcept.ofExcept ((← operand.evaluate resolve).applyUnary operator)
  | .cast type operand => do
    MonadExcept.ofExcept ((← operand.evaluate resolve).cast type)
  | .binary .and left right => do
    if ← MonadExcept.ofExcept ((← left.evaluate resolve).condition "&&") then
      return .bool (← MonadExcept.ofExcept ((← right.evaluate resolve).condition "&&"))
    else return .bool false
  | .binary .or left right => do
    if ← MonadExcept.ofExcept ((← left.evaluate resolve).condition "||") then return .bool true
    else return .bool (← MonadExcept.ofExcept ((← right.evaluate resolve).condition "||"))
  | .binary operator left right => do
    let left ← left.evaluate resolve
    let right ← right.evaluate resolve
    MonadExcept.ofExcept (Constant.applyBinary operator left right)
  | .conditional condition accepted rejected => do
    if ← MonadExcept.ofExcept ((← condition.evaluate resolve).condition "?:") then
      accepted.evaluate resolve
    else rejected.evaluate resolve

def lookup (scope : List (String × Constant)) (name : String) : Evaluated :=
  match scope.lookup name with
  | some value => .ok value
  | none => .error (.unknownIdentifier name)

def evaluateText (scope : List (String × Constant)) (text : String) : Evaluated :=
  match parse text with
  | .ok expression => expression.evaluate (lookup scope)
  | .error failure => .error (.malformed failure)

end Expression

end Interop
