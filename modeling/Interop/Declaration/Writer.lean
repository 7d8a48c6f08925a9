import Interop.Declaration.Basic
import Interop.Json.Basic

/-! Declaration graphs written as JSON values, with every field. -/
namespace Interop

def TagReference.write : TagReference → Json
  | .named name => .object [("named", .string name)]
  | .anonymous index => .object [("anonymous", .integer index)]

namespace CType

mutual

def write : CType → Json
  | .builtin primitive =>
    .object [("kind", .string "builtin"), ("primitive", .string primitive.name)]
  | .pointer pointee => .object [("kind", .string "pointer"), ("pointee", pointee.write)]
  | .tag reference => .object [("kind", .string "tag"), ("decl", reference.write)]
  | .typedef name => .object [("kind", .string "typedef"), ("name", .string name)]
  | .function parameters result =>
    .object [("kind", .string "function"), ("params", .array (writeAll parameters)),
      ("ret", result.write)]
  | .array element length =>
    .object [("kind", .string "array"), ("element", element.write),
      ("length", Json.optional (fun (length : Nat) => .integer length) length)]

def writeAll : List CType → List Json
  | [] => []
  | type :: types => type.write :: writeAll types

end

end CType

def Member.write (m : Member) : Json := .object [("name", .string m.name), ("type", m.type.write)]

def Struct.write (struct : Struct) : Json :=
  .object [("name", .string struct.name), ("fields", .array (struct.fields.map Member.write)),
    ("union", .bool struct.isUnion), ("incomplete", .bool struct.incomplete)]

def IntegerLiteral.write (literal : IntegerLiteral) : Json := .integer literal.number

def EnumItem.write (item : EnumItem) : Json :=
  .object [("name", .string item.name), ("value", item.value.write)]

def Enumeration.write (enumeration : Enumeration) : Json :=
  .object [("name", Json.optional .string enumeration.name),
    ("underlying", .string enumeration.underlying.name),
    ("items", .array (enumeration.items.map EnumItem.write))]

def Typedef.write (typedef : Typedef) : Json :=
  .object [("name", .string typedef.name), ("underlying", typedef.underlying.write)]

def Function.write (function : Function) : Json :=
  .object [("name", .string function.name),
    ("params", .array (function.parameters.map Member.write)), ("ret", function.result.write)]

def Macro.write (m : Macro) : Json :=
  .object [("name", .string m.name), ("expression", .string m.expression)]

def TranslationUnit.write (unit : TranslationUnit) : Json :=
  .object [("file_name", .string unit.fileName),
    ("structs", .array (unit.structs.map Struct.write)),
    ("enums", .array (unit.enums.map Enumeration.write)),
    ("typedefs", .array (unit.typedefs.map Typedef.write)),
    ("functions", .array (unit.functions.map Function.write)),
    ("macros", .array (unit.macros.map Macro.write))]

def Graph.write (graph : Graph) : Json :=
  .object [("translation_units", .array (graph.units.map TranslationUnit.write))]

end Interop
