import Interop.Path
import Interop.Session.Registration

/-! Libraries bound through the functions of their headers. A function belongs to the first
library that has it in a matching unit, with its first declaration there. -/
namespace Interop

/-- Keeps functions of new names, each at its first place. -/
def claimFunctions (claimed : List String) : List Function → List Function × List String
  | [] => ([], claimed)
  | function :: rest =>
    if function.name ∈ claimed then claimFunctions claimed rest
    else
      let (functions, claimed) := claimFunctions (function.name :: claimed) rest
      (function :: functions, claimed)

def Library.units (library : Library) (graph : Graph) : List TranslationUnit :=
  graph.units.filter fun unit => Path.sameFile unit.fileName library.header

/-- The functions of a library that earlier libraries have not claimed, and the names
claimed then. -/
def Library.partition (library : Library) (graph : Graph) (claimed : List String) :
    Except GenerationError (List Function × List String) :=
  match library.units graph with
  | [] => .error (.missingUnit library.name library.header)
  | units => .ok (claimFunctions claimed (units.flatMap (·.functions)))

namespace Session

def signatureWith {m : Type → Type} [Monad m] (setting : Setting) (effects : Effects m)
    (function : Function) : m Signature := do
  let parameters ← resolveMembersWith setting effects Identifier.parameter function.parameters
  return ⟨function.name, parameters, ← resolveWith setting effects function.result⟩

def signature (setting : Setting) (function : Function) : Work Progress Signature :=
  signatureWith setting (effects setting) function

def writePlatform (setting : Setting) (library : Library) (signatures : List Signature)
    (binary : Binary) : Work Progress Unit := do
  let name := library.name ++ binary.platform.display
  let native := name ++ "Native"
  write setting native (.native native binary.path signatures)
  write setting name (.wrapper name ("I" ++ library.name) native signatures setting.constants)

def bindLibrary (setting : Setting) (graph : Graph) (claimed : List String) (library : Library) :
    Work Progress (List String) := do
  let (functions, claimed) ← library.partition graph claimed
  let signatures ← functions.mapM (signature setting)
  let contract := "I" ++ library.name
  let platforms := library.binaries.map (·.platform)
  library.binaries.forM (writePlatform setting library signatures)
  write setting contract (.interface contract signatures setting.constants)
  write setting library.name
    (.facade library.name contract platforms library.defaultPlatform signatures setting.constants)
  note (.boundLibrary library.name signatures.length platforms.length)
  return claimed

def writePlatformEnum (setting : Setting) : Work Progress Unit :=
  write setting "Platform" .platformEnum

end Session

end Interop
