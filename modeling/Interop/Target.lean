import Interop.Primitive

/-! Types of generated code and their spelling. A function pointer lists its parameters
and then its result; the length of an array is not part of its spelling. -/
namespace Interop

inductive Target where
  | primitive (name : String)
  | named (name : String)
  | pointer (pointee : Target)
  | functionPointer (parameters : List Target) (result : Target)
  | array (element : Target) (length : Option Nat)
  deriving Repr

namespace Target

mutual

def text : Target → String
  | .primitive name | .named name => name
  | .pointer pointee => pointee.text ++ "*"
  | .functionPointer parameters result =>
    "delegate* unmanaged<" ++ parameterText parameters ++ result.text ++ ">"
  | .array element _ => element.text ++ "[]"

/-- Each parameter with the comma that separates it from what follows. -/
def parameterText : List Target → String
  | [] => ""
  | parameter :: parameters => parameter.text ++ ", " ++ parameterText parameters

end

def isVoid : Target → Bool
  | .primitive name => name == "void"
  | _ => false

def bufferElements : List String :=
  ["bool", "byte", "char", "short", "int", "long", "sbyte", "ushort", "uint", "ulong", "float",
   "double"]

def isBufferElement : Target → Bool
  | .primitive name => bufferElements.contains name
  | _ => false

end Target

def Primitive.defaultTargets : List (Primitive × String) :=
  [(.int, "int"), (.long, "int"), (.float, "float"), (.double, "double"), (.bool, "bool"),
   (.string, "string"), (.unsignedLong, "uint"), (.unsignedInt, "uint"), (.void, "void"),
   (.unsignedChar, "byte"), (.unsignedShort, "ushort"), (.short, "short"),
   (.signedChar, "sbyte"), (.char, "byte"), (.unsignedLongLong, "ulong"), (.longLong, "long")]

/-- The target types in use: configured ones replace the default ones altogether. -/
def Primitive.targets (overrides : Option (List (Primitive × String))) : List (Primitive × String) :=
  overrides.getD Primitive.defaultTargets

end Interop
