import Interop.Floating.Arithmetic
import Interop.Floating.Text
import Interop.Text.Quoted

/-! Typed constants: integers of four fixed-width kinds, floating-point numbers of two
widths, truth values and strings. An integer is the word of its kind, so arithmetic on
exact integers followed by `IntegerKind.wrap` is arithmetic modulo the kind's range. -/
namespace Interop

inductive IntegerKind where
  | int
  | uint
  | long
  | ulong
  deriving DecidableEq, Repr

namespace IntegerKind

def width : IntegerKind → Nat
  | .int | .uint => 32
  | .long | .ulong => 64

def isSigned : IntegerKind → Bool
  | .int | .long => true
  | .uint | .ulong => false

def greatest (kind : IntegerKind) : Nat :=
  if kind.isSigned then Nat.pow 2 (kind.width - 1) - 1 else Nat.pow 2 kind.width - 1

def least (kind : IntegerKind) : Int :=
  if kind.isSigned then -(Nat.pow 2 (kind.width - 1)) else 0

/-- The position in the order by which promotion picks the wider kind. -/
def rank : IntegerKind → Nat
  | .int => 0
  | .uint => 1
  | .long => 2
  | .ulong => 3

/-- `int` meets `uint` in `long`; otherwise the kind of higher rank wins. -/
def promote : IntegerKind → IntegerKind → IntegerKind
  | .int, .uint | .uint, .int => .long
  | first, second => if first.rank ≤ second.rank then second else first

def value (kind : IntegerKind) (word : BitVec kind.width) : Int :=
  if kind.isSigned then word.toInt else word.toNat

end IntegerKind

inductive Kind where
  | integer (kind : IntegerKind)
  | single
  | double
  deriving DecidableEq, Repr

def Kind.promote : Kind → Kind → Kind
  | .integer first, .integer second => .integer (first.promote second)
  | .double, _ | _, .double => .double
  | _, _ => .single

def Kind.isIntegral : Kind → Bool
  | .integer _ => true
  | _ => false

inductive ConstantType where
  | number (kind : Kind)
  | bool
  | string
  deriving DecidableEq, Repr

def IntegerKind.name : IntegerKind → String
  | .int => "int"
  | .uint => "uint"
  | .long => "long"
  | .ulong => "ulong"

def Kind.name : Kind → String
  | .integer kind => kind.name
  | .single => "float"
  | .double => "double"

def ConstantType.name : ConstantType → String
  | .number kind => kind.name
  | .bool => "bool"
  | .string => "string"

inductive Constant where
  | integer (kind : IntegerKind) (word : BitVec kind.width)
  | single (value : Float32)
  | double (value : Float)
  | bool (value : Bool)
  | string (value : String)
  deriving DecidableEq, Repr

/-- The constant of a kind that is congruent to `n` modulo the kind's range. -/
def IntegerKind.wrap (kind : IntegerKind) (n : Int) : Constant :=
  .integer kind (BitVec.ofInt kind.width n)

namespace Constant

def type : Constant → ConstantType
  | .integer kind _ => .number (.integer kind)
  | .single _ => .number .single
  | .double _ => .number .double
  | .bool _ => .bool
  | .string _ => .string

def kind? (constant : Constant) : Option Kind :=
  match constant.type with
  | .number kind => some kind
  | _ => none

def integer? : Constant → Option Int
  | .integer kind word => some (kind.value word)
  | _ => none

def double? : Constant → Option Float
  | .integer kind word => some (Floating.ofInteger (kind.value word))
  | .single value => some value.toFloat
  | .double value => some value
  | _ => none

/-- A number is true unless it is zero; a string is neither true nor false. -/
def truth? : Constant → Option Bool
  | .integer kind word => some (kind.value word != 0)
  | .single value => some (value.toFloat != 0.0)
  | .double value => some (value != 0.0)
  | .bool value => some value
  | .string _ => none

/-- The value alone; a string without quotes. -/
def text : Constant → String
  | .integer kind word => toString (kind.value word)
  | .single value => Floating.singleText value
  | .double value => Floating.doubleText value
  | .bool value => if value then "true" else "false"
  | .string value => value

def display : Constant → String
  | .string value => Text.quoted value
  | constant => constant.text

def describe (constant : Constant) : String :=
  constant.type.name ++ " `" ++ constant.display ++ "`"

end Constant

end Interop
