import Interop.Expression.Basic

/-! Scalar types spelled as type words. The words may come in many orders: sign, length
and base are collected separately, and the type is looked up from what was collected. -/
namespace Interop

namespace CastType

inductive Base where
  | char
  | short
  | int
  | float
  | double
  deriving DecidableEq, Repr

def Base.ofWord? : String → Option Base
  | "char" => some .char
  | "short" => some .short
  | "int" => some .int
  | "float" => some .float
  | "double" => some .double
  | _ => none

structure Specifiers where
  isUnsigned : Bool
  isSigned : Bool
  longs : Nat
  base : Option Base
  deriving DecidableEq, Repr

def Specifiers.none : Specifiers := ⟨false, false, 0, .none⟩

/-- Takes one more word in. A base is given once, except that `int` may follow `short`. -/
def Specifiers.add (specifiers : Specifiers) (word : String) : Option Specifiers :=
  if word = "unsigned" then some { specifiers with isUnsigned := true }
  else if word = "signed" then some { specifiers with isSigned := true }
  else if word = "long" then some { specifiers with longs := specifiers.longs + 1 }
  else if word = "const" then some specifiers
  else if word = "int" ∧ specifiers.base = some .short then some specifiers
  else match Base.ofWord? word, specifiers.base with
    | some base, .none => some { specifiers with base := some base }
    | _, _ => .none

/-- The type of collected specifiers; without a base it is an `int`. -/
def Specifiers.type? (specifiers : Specifiers) : Option CastType :=
  if specifiers.isUnsigned && specifiers.isSigned then .none
  else
    let sort (unsigned plain : CastType) := if specifiers.isUnsigned then unsigned else plain
    match specifiers.base.getD .int, specifiers.longs with
    | .char, 0 => some (sort .unsignedChar (if specifiers.isSigned then .signedChar else .char))
    | .short, 0 => some (sort .unsignedShort .short)
    | .int, 0 => some (sort .unsignedInt .int)
    | .int, _ => some (sort .unsignedLong .long)
    | .float, 0 => some .float
    | .double, 0 | .double, 1 => some .double
    | _, _ => .none

def ofWords? (words : List String) : Option CastType :=
  (words.foldlM Specifiers.add Specifiers.none).bind Specifiers.type?

def name : CastType → String
  | .char => "char"
  | .signedChar => "signed char"
  | .unsignedChar => "unsigned char"
  | .short => "short"
  | .unsignedShort => "unsigned short"
  | .int => "int"
  | .unsignedInt => "unsigned int"
  | .long => "long"
  | .unsignedLong => "unsigned long"
  | .float => "float"
  | .double => "double"

/-- The kind of a cast value; the narrow integers are kept in an `int`. -/
def kind : CastType → Kind
  | .char | .signedChar | .unsignedChar | .short | .unsignedShort | .int => .integer .int
  | .unsignedInt => .integer .uint
  | .long => .integer .long
  | .unsignedLong => .integer .ulong
  | .float => .single
  | .double => .double

/-- Truncates an integer to a narrow type; the kind's own width is left to its word. -/
def narrow (type : CastType) (n : Int) : Int :=
  match type with
  | .char | .signedChar => (BitVec.ofInt 8 n).toInt
  | .unsignedChar => (BitVec.ofInt 8 n).toNat
  | .short => (BitVec.ofInt 16 n).toInt
  | .unsignedShort => (BitVec.ofInt 16 n).toNat
  | _ => n

end CastType

end Interop
