import Interop.Configuration.Basic
import Interop.Document.Artifact
import Interop.Generation.Event
import Interop.Macro.Evaluation

/-! Constants from macros. Each search in turn goes through the macros; a macro that some
search has selected is settled, whether it has a value or not. -/
namespace Interop.Macro

structure Extraction where
  memory : Memory
  settled : List String
  constants : List NamedConstant
  events : List Event

def Extraction.start : Extraction := ⟨.empty, [], [], []⟩

def Extraction.visit (definitions : List (String × String)) (search : MacroSearch)
    (state : Extraction) (name : String) : Extraction :=
  if !search.selects name || state.settled.contains name then state
  else
    let (result, memory) := (evaluate definitions name).run.run state.memory
    let settled := name :: state.settled
    match result with
    | .ok value => { state with memory, settled, constants := state.constants ++ [⟨name, value⟩] }
    | .error error => { state with memory, settled, events := state.events ++ [.skippedMacro name error] }

def Extraction.run (macros : List Macro) (searches : List MacroSearch) : Extraction :=
  searches.foldl (fun state search =>
    (macros.map (·.name)).foldl (Extraction.visit (definitions macros) search) state) .start

/-- The constants that searches find, and what had to be skipped. -/
def extract (graph : Graph) (searches : List MacroSearch) : List NamedConstant × List Event :=
  let state := Extraction.run graph.macros searches
  (state.constants, state.events)

end Interop.Macro
