import Interop.Declaration.Basic
import Interop.Json.Record

/-! Declaration graphs read from JSON values. -/
namespace Interop

open Json (Record record? listOf nullable natural? variant? newtype? tagged? form?)

def Primitive.read (isNothing : Json → Bool) (json : Json) : Option Primitive :=
  (variant? isNothing json).bind Primitive.ofName?

def TagReference.read (json : Json) : Option TagReference :=
  match newtype? json with
  | some ("named", value) => value.string?.map .named
  | some ("anonymous", value) => (natural? (Nat.pow 2 64) value).map .anonymous
  | _ => none

namespace CType

def forms : List String := ["builtin", "pointer", "tag", "typedef", "function", "array"]

/-- Reads a type whose value nests less than `bound` deep. A part of another type may give
its form by place. -/
def readWithin (isPart : Bool) : Nat → Json → Option CType
  | 0, _ => none
  | bound + 1, json => do
    let (form, fields) ← tagged? "kind" json
    match form? forms isPart form with
    | some "builtin" =>
      let record ← record? ["primitive"] fields
      return .builtin (← record.required "primitive" (Primitive.read Json.isNullOrEmpty))
    | some "pointer" =>
      let record ← record? ["pointee"] fields
      return .pointer (← record.required "pointee" (readWithin true bound))
    | some "tag" =>
      let record ← record? ["decl"] fields
      return .tag (← record.required "decl" TagReference.read)
    | some "typedef" =>
      let record ← record? ["name"] fields
      return .typedef (← record.required "name" Json.string?)
    | some "function" =>
      let record ← record? ["params", "ret"] fields
      let parameters ← record.withDefault "params" [] (listOf (readWithin true bound))
      return .function parameters (← record.required "ret" (readWithin true bound))
    | some "array" =>
      let record ← record? ["element", "length"] fields
      let element ← record.required "element" (readWithin true bound)
      return .array element (← record.withDefault "length" none (nullable (natural? (Nat.pow 2 64))))
    | _ => none

/-- The whole value is taken in first, so no part of it may be unreadable. -/
def read (json : Json) : Option CType :=
  if json.isReadable then readWithin false (json.depth + 1) json else none

end CType

def Member.read (json : Json) : Option Member := do
  let record ← record? ["name", "type"] json
  let name ← record.required "name" Json.string?
  return ⟨name, ← record.required "type" CType.read⟩

def Struct.read (json : Json) : Option Struct := do
  let record ← record? ["name", "fields", "union", "incomplete"] json
  let name ← record.required "name" Json.string?
  let fields ← record.withDefault "fields" [] (listOf Member.read)
  let isUnion ← record.withDefault "union" false Json.bool?
  return ⟨name, fields, isUnion, ← record.withDefault "incomplete" false Json.bool?⟩

namespace IntegerLiteral

def readSigned : Json → Option IntegerLiteral
  | .integer value =>
    if -(Nat.pow 2 63) ≤ value ∧ value < Nat.pow 2 63 then some (.signed (.ofInt value)) else none
  | _ => none

def readUnsigned : Json → Option IntegerLiteral
  | .integer value =>
    if 0 ≤ value ∧ value < Nat.pow 2 64 then some (.unsigned (.ofNat value.toNat)) else none
  | _ => none

/-- The first kind that holds the number is taken. -/
def read (json : Json) : Option IntegerLiteral := (readSigned json).or (readUnsigned json)

end IntegerLiteral

def EnumItem.read (json : Json) : Option EnumItem := do
  let record ← record? ["name", "value"] json
  let name ← record.required "name" Json.string?
  return ⟨name, ← record.required "value" IntegerLiteral.read⟩

def Enumeration.read (json : Json) : Option Enumeration := do
  let record ← record? ["name", "underlying", "items"] json
  let name ← record.withDefault "name" none (nullable Json.string?)
  let underlying ← record.withDefault "underlying" .int (Primitive.read Json.isNull)
  return ⟨name, underlying, ← record.withDefault "items" [] (listOf EnumItem.read)⟩

def Typedef.read (json : Json) : Option Typedef := do
  let record ← record? ["name", "underlying"] json
  let name ← record.required "name" Json.string?
  return ⟨name, ← record.required "underlying" CType.read⟩

def Function.read (json : Json) : Option Function := do
  let record ← record? ["name", "params", "ret"] json
  let name ← record.required "name" Json.string?
  let parameters ← record.withDefault "params" [] (listOf Member.read)
  return ⟨name, parameters, ← record.required "ret" CType.read⟩

def Macro.read (json : Json) : Option Macro := do
  let record ← record? ["name", "expression"] json
  let name ← record.required "name" Json.string?
  return ⟨name, ← record.required "expression" Json.string?⟩

def TranslationUnit.read (json : Json) : Option TranslationUnit := do
  let record ← record? ["file_name", "structs", "enums", "typedefs", "functions", "macros"] json
  let fileName ← record.required "file_name" Json.string?
  let structs ← record.withDefault "structs" [] (listOf Struct.read)
  let enums ← record.withDefault "enums" [] (listOf Enumeration.read)
  let typedefs ← record.withDefault "typedefs" [] (listOf Typedef.read)
  let functions ← record.withDefault "functions" [] (listOf Function.read)
  return ⟨fileName, structs, enums, typedefs, functions,
    ← record.withDefault "macros" [] (listOf Macro.read)⟩

def Graph.read (json : Json) : Option Graph := do
  let record ← record? ["translation_units"] json
  return ⟨← record.withDefault "translation_units" [] (listOf TranslationUnit.read)⟩

end Interop
