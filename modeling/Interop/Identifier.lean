/-! Names made safe for generated code: a reserved word gets an underscore in front, and
what has no name is named after its position. -/
namespace Interop.Identifier

def reservedWords : List String :=
  ["abstract", "as", "base", "bool", "break", "byte", "case", "catch", "char", "checked",
   "class", "const", "continue", "decimal", "default", "delegate", "do", "double", "else",
   "enum", "event", "explicit", "extern", "false", "finally", "fixed", "float", "for",
   "foreach", "goto", "if", "implicit", "in", "int", "interface", "internal", "is", "lock",
   "long", "namespace", "new", "null", "object", "operator", "out", "override", "params",
   "private", "protected", "public", "readonly", "ref", "return", "sbyte", "sealed",
   "short", "sizeof", "stackalloc", "static", "string", "struct", "switch", "this",
   "throw", "true", "try", "typeof", "uint", "ulong", "unchecked", "unsafe", "ushort",
   "using", "virtual", "void", "volatile", "while"]

def isReserved (name : String) : Bool := reservedWords.contains name

def escape (name : String) : String := if isReserved name then "_" ++ name else name

def parameter (name : String) (index : Nat) : String :=
  if name = "" then "arg" ++ toString index else escape name

def field (name : String) (index : Nat) : String :=
  if name = "" then "field" ++ toString index else escape name

end Interop.Identifier
