import Interop.Constant.Basic
import Interop.Json.Printer

/-! Constants as expressions of generated code. The wide integers are exposed as the
platform's own integers, built from a narrow literal where the value allows it. -/
namespace Interop

/-- A control character: the first and the second block of controls. -/
def isControl (c : Char) : Bool := c.toNat < 0x20 || (0x7F ≤ c.toNat && c.toNat < 0xA0)

def literalChar (c : Char) : List Char :=
  if c = '\\' then ['\\', '\\']
  else if c = '"' then ['\\', '"']
  else if c = '\n' then ['\\', 'n']
  else if c = '\r' then ['\\', 'r']
  else if c = '\t' then ['\\', 't']
  else if c.toNat = 0 then ['\\', '0']
  else if isControl c then '\\' :: 'u' :: Json.hexDigits 4 c.toNat
  else [c]

def stringLiteral (text : String) : String :=
  String.ofList ('"' :: text.toList.flatMap literalChar ++ ['"'])

namespace Constant

def targetType : Constant → String
  | .integer .long _ => "CLong"
  | .integer .ulong _ => "CULong"
  | constant => constant.type.name

def integerLiteral (kind : IntegerKind) (value : Int) : String :=
  match kind with
  | .int => toString value
  | .uint => toString value ++ "U"
  | .long =>
    if IntegerKind.int.least ≤ value ∧ value ≤ IntegerKind.int.greatest then
      "new CLong(" ++ toString value ++ ")"
    else "new CLong((nint)(" ++ toString value ++ "L))"
  | .ulong =>
    if value ≤ IntegerKind.uint.greatest then "new CULong(" ++ toString value ++ "U)"
    else "new CULong((nuint)(" ++ toString value ++ "UL))"

/-- Numbers that no digits write are named by their type. -/
def floatingLiteral (type mark text : String) : Floating.Datum → String
  | .nan => type ++ ".NaN"
  | .infinite true => type ++ ".NegativeInfinity"
  | .infinite false => type ++ ".PositiveInfinity"
  | .finite .. => text ++ mark

def literal : Constant → String
  | .integer kind word => integerLiteral kind (kind.value word)
  | .single value =>
    floatingLiteral "float" "F" (Floating.singleText value)
      (Floating.Format.single.decode value.toBits.toNat)
  | .double value =>
    floatingLiteral "double" "" (Floating.doubleText value) (Floating.decodeDouble value)
  | .bool value => if value then "true" else "false"
  | .string value => stringLiteral value

end Constant

end Interop
