import Interop.Configuration.Validation

/-! Why a run fails, and how each cause is worded. -/
namespace Interop

inductive ScanFailure where
  | reported (kind : String)
  | unreadableDump (path : String)
  | malformedDump (path : String)
  deriving DecidableEq, Repr

def ScanFailure.message : ScanFailure → String
  | .reported kind => kind
  | .unreadableDump path => "failed to read declaration graph from " ++ path
  | .malformedDump path => "failed to parse declaration graph at " ++ path

inductive GenerationError where
  | invalidConfiguration (fault : ConfigurationError)
  | parseFailed (failure : ScanFailure)
  | outputNotEmpty (directory : String)
  | io (path : String)
  | duplicateDeclaration (name : String)
  | memberCollision (enumeration memberName : String)
  | unknownOverrideTarget (name target : String)
  | missingPrimitive (primitive : Primitive)
  | unknownTypedef (name : String)
  | typedefCycle (name : String)
  | unnamedEnumeration (index : Nat)
  | unsupportedName (name : String)
  | overrideCycle (chain : List String)
  | missingUnit (library header : String)
  | artifactCollision (name : String)
  deriving DecidableEq, Repr

def GenerationError.message : GenerationError → String
  | .invalidConfiguration fault => "invalid configuration: " ++ fault.message
  | .parseFailed failure => "header parsing failed: " ++ failure.message
  | .outputNotEmpty directory =>
    "output directory " ++ directory ++ " is not empty and clearing is disabled"
  | .io path => "i/o error on " ++ path
  | .duplicateDeclaration name => "`" ++ name ++ "` is declared more than once"
  | .memberCollision enumeration memberName =>
    "enumeration `" ++ enumeration ++ "` receives member `" ++ memberName
      ++ "` with conflicting values"
  | .unknownOverrideTarget name target =>
    "override for `" ++ name ++ "` targets unknown declaration `" ++ target ++ "`"
  | .missingPrimitive primitive =>
    "no target type configured for primitive `" ++ primitive.name ++ "`"
  | .unknownTypedef name => "typedef `" ++ name ++ "` is not declared"
  | .typedefCycle name => "typedef `" ++ name ++ "` refers back to itself"
  | .unnamedEnumeration index =>
    "anonymous enumeration #" ++ toString index ++ " is referenced but has no name"
  | .unsupportedName name => "`" ++ name ++ "` is not a known struct or enumeration"
  | .overrideCycle chain => "not-found overrides form a cycle: " ++ " -> ".intercalate chain
  | .missingUnit library header =>
    "no translation unit matches header `" ++ header ++ "` of library `" ++ library ++ "`"
  | .artifactCollision name => "artifact `" ++ name ++ "` is written twice"

/-- Work on a state that keeps what was done before an error. -/
abbrev Work (σ : Type) := ExceptT GenerationError (StateM σ)

end Interop
