import Interop.Configuration.Basic
import Interop.Text.Blank
import Interop.Text.Quoted

/-! Which configurations are accepted, and what is said of the others. The first fault in
a fixed order is reported: the namespace, each library in turn, the macro searches, the
names of primitives. -/
namespace Interop

inductive ConfigurationError where
  | noNamespace
  | unnamedLibrary
  | repeatedLibrary (library : String)
  | noHeader (library : String)
  | noPlatforms (library : String)
  | repeatedPlatform (library : String) (platform : Platform)
  | missingDefault (library : String) (platform : Platform)
  | emptySearch (exclusion : Option String)
  | unknownPrimitive (name : String)
  deriving DecidableEq, Repr

namespace ConfigurationError

def optionalText : Option String → String
  | none => "None"
  | some text => "Some(" ++ Text.quoted text ++ ")"

def message : ConfigurationError → String
  | .noNamespace => "namespace must not be empty"
  | .unnamedLibrary => "library name must not be empty"
  | .repeatedLibrary library => "library `" ++ library ++ "` is declared twice"
  | .noHeader library => "library `" ++ library ++ "` has no header"
  | .noPlatforms library => "library `" ++ library ++ "` has no platforms"
  | .repeatedPlatform library platform =>
    "library `" ++ library ++ "` lists platform " ++ platform.display ++ " twice"
  | .missingDefault library platform =>
    "library `" ++ library ++ "` defaults to " ++ platform.display ++ ", which has no binary"
  | .emptySearch exclusion =>
    "macro search prefix must not be empty (exclude prefix " ++ optionalText exclusion ++ ")"
  | .unknownPrimitive name => "invalid primitive_types key: " ++ Primitive.unknownMessage name

end ConfigurationError

/-- The first element that occurs again later in the list, at its second place. -/
def firstRepeated [DecidableEq α] (seen : List α) : List α → Option α
  | [] => none
  | a :: rest => if a ∈ seen then some a else firstRepeated (a :: seen) rest

def Library.fault? (library : Library) (earlier : List String) : Option ConfigurationError :=
  let platforms := library.binaries.map (·.platform)
  if Text.isBlankText library.name then some .unnamedLibrary
  else if library.name ∈ earlier then some (.repeatedLibrary library.name)
  else if Text.isBlankText library.header then some (.noHeader library.name)
  else if library.binaries.isEmpty then some (.noPlatforms library.name)
  else match firstRepeated [] platforms with
    | some platform => some (.repeatedPlatform library.name platform)
    | none =>
      (library.defaultPlatform.filter (· ∉ platforms)).map (.missingDefault library.name)

def librariesFault? (earlier : List String) : List Library → Option ConfigurationError
  | [] => none
  | library :: rest =>
    (library.fault? earlier).or (librariesFault? (library.name :: earlier) rest)

namespace Configuration

/-- The configured primitives; the first unknown name in order is an error. -/
def primitiveOverrides (configuration : Configuration) :
    Except ConfigurationError (Option (List (Primitive × String))) :=
  match configuration.primitiveTypes with
  | none => .ok none
  | some table => do
    let entries ← table.mapM fun (name, target) =>
      match Primitive.ofName? name with
      | some primitive => .ok (primitive, target)
      | none => .error (.unknownPrimitive name)
    return some entries

def fault? (configuration : Configuration) : Option ConfigurationError :=
  if Text.isBlankText configuration.namespaceName then some .noNamespace
  else match librariesFault? [] configuration.libraries with
    | some fault => some fault
    | none =>
      match configuration.macroSearches.find? (·.opening = "") with
      | some search => some (.emptySearch search.exclusion)
      | none =>
        match configuration.primitiveOverrides with
        | .error fault => some fault
        | .ok _ => none

def validate (configuration : Configuration) : Except ConfigurationError Unit :=
  match configuration.fault? with
  | some fault => .error fault
  | none => .ok ()

end Configuration

end Interop
