import Interop.Declaration.Basic
import Interop.Expression.Evaluation

/-! Values of macros. A macro's text is evaluated when it is first needed, and other macros
it names are evaluated on the way. Values are remembered, failures are not, and a macro
that needs its own value has none. -/
namespace Interop.Macro

/-- The text of each macro at its first definition. -/
def definitions (macros : List Macro) : List (String × String) :=
  macros.map fun definition => (definition.name, definition.expression)

structure Memory where
  values : List (String × Constant)
  inProgress : List String
  deriving DecidableEq, Repr

namespace Memory

def empty : Memory := ⟨[], []⟩

def enter (memory : Memory) (name : String) : Memory :=
  { memory with inProgress := name :: memory.inProgress }

def leave (memory : Memory) (name : String) : Memory :=
  { memory with inProgress := memory.inProgress.erase name }

def remember (memory : Memory) (name : String) (value : Constant) : Memory :=
  { memory with values := (name, value) :: memory.values }

end Memory

abbrev Evaluation := ExceptT EvaluationError (StateM Memory)

/-- What a text comes to, where `resolve` gives the values of names. -/
def body {m : Type → Type} [Monad m] [MonadExceptOf EvaluationError m] (source : String)
    (resolve : String → m Constant) : m Constant :=
  match Expression.parse source with
  | .ok expression => expression.evaluate resolve
  | .error failure => throw (.malformed failure)

/-- The value of a macro, with at most `bound` macros evaluated inside one another. -/
def evaluateWithin (definitions : List (String × String)) : Nat → String → Evaluation Constant
  | 0, name => throw (.cycle name)
  | bound + 1, name => do
    let memory ← get
    match memory.values.lookup name, definitions.lookup name with
    | some value, _ => return value
    | none, none => throw (.unknownIdentifier name)
    | none, some source =>
      if name ∈ memory.inProgress then throw (.cycle name)
      set (memory.enter name)
      let result ← ExceptT.lift (body (m := Evaluation) source (evaluateWithin definitions bound)).run
      modify fun memory => memory.leave name
      let value ← result
      modify fun memory => memory.remember name value
      return value

/-- The value of a macro. Macros in progress are distinct and defined, so their number
bounds the nesting. -/
def evaluate (definitions : List (String × String)) (name : String) : Evaluation Constant :=
  evaluateWithin definitions (definitions.length + 1) name

end Interop.Macro
