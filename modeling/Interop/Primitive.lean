/-! The builtin types of C by kind, each with the name that configurations and dumps use. -/
namespace Interop

inductive Primitive where
  | void
  | bool
  | char
  | signedChar
  | unsignedChar
  | wideChar
  | char16
  | char32
  | short
  | unsignedShort
  | int
  | unsignedInt
  | long
  | unsignedLong
  | longLong
  | unsignedLongLong
  | int128
  | unsignedInt128
  | half
  | float
  | double
  | longDouble
  | intPointer
  | unsignedIntPointer
  | string
  deriving DecidableEq, Repr

namespace Primitive

def all : List Primitive :=
  [.void, .bool, .char, .signedChar, .unsignedChar, .wideChar, .char16, .char32, .short,
   .unsignedShort, .int, .unsignedInt, .long, .unsignedLong, .longLong, .unsignedLongLong,
   .int128, .unsignedInt128, .half, .float, .double, .longDouble, .intPointer,
   .unsignedIntPointer, .string]

def name : Primitive → String
  | .void => "void"
  | .bool => "bool"
  | .char => "char"
  | .signedChar => "s_char"
  | .unsignedChar => "u_char"
  | .wideChar => "wide_char"
  | .char16 => "char16"
  | .char32 => "char32"
  | .short => "short"
  | .unsignedShort => "u_short"
  | .int => "int"
  | .unsignedInt => "u_int"
  | .long => "long"
  | .unsignedLong => "u_long"
  | .longLong => "long_long"
  | .unsignedLongLong => "u_long_long"
  | .int128 => "int128"
  | .unsignedInt128 => "u_int128"
  | .half => "half"
  | .float => "float"
  | .double => "double"
  | .longDouble => "long_double"
  | .intPointer => "int_ptr"
  | .unsignedIntPointer => "u_int_ptr"
  | .string => "string"

def ofName? (name : String) : Option Primitive := all.find? (·.name = name)

theorem ofName?_name (primitive : Primitive) : ofName? primitive.name = some primitive := by
  cases primitive <;> decide

def unknownMessage (name : String) : String := "unknown primitive kind `" ++ name ++ "`"

end Primitive

end Interop
