import Interop.Declaration.Dump
import Interop.Expression.Error

/-! What a run reports on its way: warnings and information, each with named fields. -/
namespace Interop

inductive Event where
  | skippedMacro (name : String) (error : EvaluationError)
  | diagnosed (diagnostic : Diagnostic)
  | unreferenced (declaration : String)
  | unwrappedTypedef (name : String)
  | boundLibrary (library : String) (functions platforms : Nat)
  | finished (artifacts orphans : Nat)
  | cleared (directory : String) (removed : Nat)
  deriving DecidableEq, Repr

namespace Event

def isWarning : Event → Bool
  | .skippedMacro .. | .diagnosed _ | .unreferenced _ => true
  | _ => false

def message : Event → String
  | .skippedMacro .. => "skipping macro"
  | .diagnosed _ => "parser diagnostic"
  | .unreferenced _ => "declaration is never referenced"
  | .unwrappedTypedef _ => "unwrapping typedef"
  | .boundLibrary .. => "generated library bindings"
  | .finished .. => "generation finished"
  | .cleared .. => "cleared output directory"

def fields : Event → List (String × String)
  | .skippedMacro name error => [("name", name), ("error", error.message)]
  | .diagnosed diagnostic => [("diagnostic", diagnostic.display)]
  | .unreferenced declaration => [("declaration", declaration)]
  | .unwrappedTypedef name => [("typedef", name)]
  | .boundLibrary library functions platforms =>
    [("library", library), ("functions", toString functions), ("platforms", toString platforms)]
  | .finished artifacts orphans =>
    [("artifacts", toString artifacts), ("orphans", toString orphans)]
  | .cleared directory removed => [("dir", directory), ("removed", toString removed)]

end Event

end Interop
