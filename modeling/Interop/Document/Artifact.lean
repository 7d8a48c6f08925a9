import Interop.Configuration.Basic
import Interop.Declaration.Basic
import Interop.Document.Code
import Interop.Document.Literal
import Interop.Identifier
import Interop.Target

/-! The artifacts of a run and their text. A declaration becomes a structure or an
enumeration of its own; a library becomes an interface, for each platform a class of native
entry points and a class that forwards to it, and a facade that picks one of these. -/
namespace Interop

structure TargetMember where
  name : String
  type : Target
  deriving Repr

structure Signature where
  name : String
  parameters : List TargetMember
  result : Target
  deriving Repr

structure NamedConstant where
  name : String
  value : Constant
  deriving DecidableEq, Repr

inductive Declaration where
  | structure (name : String) (isUnion : Bool) (fields : List TargetMember)
  | enumeration (name : String) (underlying : Target) (items : List EnumItem)
  | native (name binary : String) (signatures : List Signature)
  | wrapper (name contract receiver : String) (signatures : List Signature)
      (constants : List NamedConstant)
  | interface (name : String) (signatures : List Signature) (constants : List NamedConstant)
  | facade (name contract : String) (platforms : List Platform)
      (defaultPlatform : Option Platform) (signatures : List Signature)
      (constants : List NamedConstant)
  | platformEnum
  deriving Repr

def TargetMember.text (m : TargetMember) : String := m.type.text ++ " " ++ m.name

namespace Signature

def parameterText (signature : Signature) : String :=
  ", ".intercalate (signature.parameters.map TargetMember.text)

def argumentText (signature : Signature) : String :=
  ", ".intercalate (signature.parameters.map (·.name))

def text (signature : Signature) : String :=
  signature.result.text ++ " " ++ signature.name ++ "(" ++ signature.parameterText ++ ")"

def forward (receiver : String) (signature : Signature) : String :=
  let call := receiver ++ "." ++ signature.name ++ "(" ++ signature.argumentText ++ ");"
  if signature.result.isVoid then call else "return " ++ call

def method (receiver : String) (signature : Signature) : Code :=
  .block ("public " ++ signature.text) [.line (signature.forward receiver)]

end Signature

namespace NamedConstant

def identifier (constant : NamedConstant) : String := Identifier.escape constant.name

def header (constant : NamedConstant) : String :=
  constant.value.targetType ++ " " ++ constant.identifier

end NamedConstant

namespace Declaration

def sequentialLayout : Code := .line "[StructLayout(LayoutKind.Sequential)]"

def bufferName (field : String) : String := field ++ "_Buffer"

/-- A nested structure of `length` elements in a row. -/
def buffer (field : String) (element : Target) (length : Nat) : List Code :=
  [sequentialLayout,
   .block ("public unsafe struct " ++ bufferName field)
     ((List.range length).map fun slot =>
       .line ("public " ++ element.text ++ " e" ++ toString slot ++ ";"))]

/-- A field of a structure. An array of fixed length is a fixed buffer where its element
allows it and a nested structure elsewhere; every field of a union starts at zero. -/
def field (isUnion : Bool) (m : TargetMember) : List Code :=
  let offset := if isUnion then [Code.line "[FieldOffset(0)]"] else []
  match m.type with
  | .array element (some length) =>
    if element.isBufferElement then
      offset ++ [.line ("public fixed " ++ element.text ++ " " ++ m.name
        ++ "[" ++ toString length ++ "];")]
    else
      buffer m.name element length ++ offset
        ++ [.line ("public " ++ bufferName m.name ++ " " ++ m.name ++ ";")]
  | type => offset ++ [.line ("public " ++ type.text ++ " " ++ m.name ++ ";")]

def item (item : EnumItem) : String := Identifier.escape item.name ++ " = " ++ item.value.text

def entryPoint (binary : String) (signature : Signature) : List Code :=
  [.line ("[DllImport(" ++ stringLiteral binary ++ ", CallingConvention = CallingConvention.Cdecl)]"),
   .line ("public static extern " ++ signature.text ++ ";")]

/-- Picks the wrapper of a platform; the first test differs from the following ones. -/
def dispatch (facade : String) : List Platform → List Code
  | [] => []
  | first :: others => branch "if" first :: others.map (branch "else if")
where
  branch (keyword : String) (platform : Platform) : Code :=
    .block (keyword ++ " (platform == Platform." ++ platform.display ++ ")")
      [.line ("lib = new " ++ facade ++ platform.display ++ "();")]

def constructors (facade : String) (platforms : List Platform) (defaultPlatform : Option Platform) :
    List Code :=
  let parameterless := match defaultPlatform with
    | some platform =>
      [.blank, .block ("public " ++ facade ++ "() : this(Platform." ++ platform.display ++ ")") []]
    | none => []
  let refusal := Code.block "else"
    [.line "throw new System.NotSupportedException(\"not supported\");"]
  parameterless ++
    [.blank, .block ("public " ++ facade ++ "(Platform platform)") (dispatch facade platforms ++ [refusal])]

def usesInterop : Declaration → Bool
  | .platformEnum => false
  | _ => true

def code : Declaration → List Code
  | .structure name isUnion fields =>
    [.line ("[StructLayout(LayoutKind." ++ (if isUnion then "Explicit" else "Sequential") ++ ")]"),
     .block ("public unsafe struct " ++ name) (fields.flatMap (field isUnion))]
  | .enumeration name underlying items =>
    [.block ("public enum " ++ name ++ " : " ++ underlying.text) (Code.commaLines (items.map item))]
  | .native name binary signatures =>
    [.block ("internal static unsafe class " ++ name)
      (Code.separated (signatures.map (entryPoint binary)))]
  | .wrapper name contract receiver signatures constants =>
    [.block ("internal unsafe class " ++ name ++ " : " ++ contract)
      (Code.separated (signatures.map (fun signature => [signature.method receiver]) ++
        constants.map fun constant =>
          [.line ("public " ++ constant.header ++ " => " ++ constant.value.literal ++ ";")]))]
  | .interface name signatures constants =>
    [.block ("internal unsafe interface " ++ name)
      (signatures.map (fun signature => .line (signature.text ++ ";")) ++
        constants.map fun constant => .line (constant.header ++ " \x7b get; \x7d"))]
  | .facade name contract platforms defaultPlatform signatures constants =>
    [.block ("public unsafe class " ++ name)
      (.line ("private readonly " ++ contract ++ " lib;") ::
        constructors name platforms defaultPlatform ++
        signatures.flatMap (fun signature => [.blank, signature.method "lib"]) ++
        constants.flatMap fun constant =>
          [.blank, .line ("public " ++ constant.header ++ " => lib." ++ constant.identifier ++ ";")])]
  | .platformEnum =>
    [.block "public enum Platform" (Code.commaLines (Platform.all.map Platform.display))]

def text (namespaceName : String) (declaration : Declaration) : String :=
  let opening := if declaration.usesInterop then
    [.line "using System.Runtime.InteropServices;", .blank] else []
  Code.text (opening ++ [.block ("namespace " ++ namespaceName) declaration.code])

end Declaration

end Interop
