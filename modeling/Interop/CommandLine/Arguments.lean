import Interop.Path

/-! The arguments of the command line. They are read from left to right: the first fault or
the first request for information ends the reading. -/
namespace Interop.CommandLine

inductive Switch where
  | config
  | graph
  | output
  | namespaceName
  | noClear
  | verbose
  | help
  | version
  deriving DecidableEq, Repr

namespace Switch

def all : List Switch :=
  [.config, .graph, .output, .namespaceName, .noClear, .verbose, .help, .version]

def long : Switch → String
  | .config => "config"
  | .graph => "graph"
  | .output => "output"
  | .namespaceName => "namespace"
  | .noClear => "no-clear"
  | .verbose => "verbose"
  | .help => "help"
  | .version => "version"

def short? : Switch → Option Char
  | .config => some 'c'
  | .graph => some 'g'
  | .output => some 'o'
  | .verbose => some 'v'
  | .help => some 'h'
  | .version => some 'V'
  | .namespaceName | .noClear => none

def takesValue : Switch → Bool
  | .config | .graph | .output | .namespaceName => true
  | _ => false

/-- A path may not be empty. -/
def admits (switch : Switch) (value : String) : Bool := switch = .namespaceName || value ≠ ""

def ofLong? (name : String) : Option Switch := all.find? (·.long = name)

def ofShort? (c : Char) : Option Switch := all.find? (·.short? = some c)

end Switch

inductive UsageError where
  | unexpected (argument : String)
  | missingValue (switch : Switch)
  | unneededValue (switch : Switch)
  | emptyValue (switch : Switch)
  | repeated (switch : Switch)
  | missing (switch : Switch)
  deriving DecidableEq, Repr

def UsageError.message : UsageError → String
  | .unexpected argument => "unexpected argument '" ++ argument ++ "' found"
  | .missingValue switch => "a value is required for '--" ++ switch.long ++ "'"
  | .unneededValue switch => "no value is taken by '--" ++ switch.long ++ "'"
  | .emptyValue switch => "the value for '--" ++ switch.long ++ "' must not be empty"
  | .repeated switch => "the argument '--" ++ switch.long ++ "' cannot be used multiple times"
  | .missing switch => "the argument '--" ++ switch.long ++ "' is required"

inductive Stop where
  | usage (error : UsageError)
  | help
  | version
  deriving DecidableEq, Repr

inductive Step where
  | flag (switch : Switch)
  | valued (switch : Switch) (value : String)
  | awaiting (switch : Switch)
  | fault (error : UsageError)
  deriving DecidableEq, Repr

/-- An argument after its two dashes; a value may follow an equals sign. -/
def longStep (body : List Char) : Step :=
  let (name, rest) := body.span (· ≠ '=')
  match Switch.ofLong? (String.ofList name), rest with
  | none, _ => .fault (.unexpected (String.ofList ('-' :: '-' :: name)))
  | some switch, [] => if switch.takesValue then .awaiting switch else .flag switch
  | some switch, _ :: value =>
    if switch.takesValue then .valued switch (String.ofList value) else .fault (.unneededValue switch)

/-- An argument after its single dash. Letters stand side by side; what follows one that
takes a value is the value, after an equals sign or directly. -/
def shortSteps : List Char → List Step
  | [] => []
  | c :: rest =>
    match Switch.ofShort? c with
    | none => [.fault (.unexpected (String.ofList ['-', c]))]
    | some switch =>
      if switch.takesValue then
        match rest with
        | [] => [.awaiting switch]
        | '=' :: value => [.valued switch (String.ofList value)]
        | value => [.valued switch (String.ofList value)]
      else .flag switch :: shortSteps rest

/-- The steps of an argument, or nothing if it is a value. A single dash is a value. -/
def steps? (argument : String) : Option (List Step) :=
  match argument.toList with
  | '-' :: '-' :: body => some [longStep body]
  | '-' :: c :: body => some (shortSteps (c :: body))
  | _ => none

structure Draft where
  given : List (Switch × String)
  pending : Option Switch
  isClosed : Bool
  deriving Repr

namespace Draft

def add (draft : Draft) (switch : Switch) (value : String) : Except Stop Draft :=
  if switch.takesValue ∧ ¬ switch.admits value then .error (.usage (.emptyValue switch))
  else if (draft.given.lookup switch).isSome then .error (.usage (.repeated switch))
  else .ok { draft with given := (switch, value) :: draft.given, pending := none }

def take (draft : Draft) : Step → Except Stop Draft
  | .flag .help => .error .help
  | .flag .version => .error .version
  | .flag switch => draft.add switch ""
  | .valued switch value => draft.add switch value
  | .awaiting switch => .ok { draft with pending := some switch }
  | .fault error => .error (.usage error)

def read (draft : Draft) (argument : String) : Except Stop Draft :=
  let steps := if draft.isClosed then none else steps? argument
  match steps, draft.pending with
  | none, some switch => draft.add switch argument
  | none, none => .error (.usage (.unexpected argument))
  | some _, some switch => .error (.usage (.missingValue switch))
  | some steps, none =>
    if argument = "--" then .ok { draft with isClosed := true } else steps.foldlM take draft

end Draft

structure Overrides where
  output : Option String
  namespaceName : Option String
  noClear : Bool
  deriving DecidableEq, Repr

structure Options where
  config : String
  graph : String
  overrides : Overrides
  deriving DecidableEq, Repr

def Draft.required (draft : Draft) (switch : Switch) : Except Stop String :=
  match draft.given.lookup switch with
  | some value => .ok value
  | none => .error (.usage (.missing switch))

def Draft.finish (draft : Draft) : Except Stop Options := do
  if let some switch := draft.pending then .error (.usage (.missingValue switch))
  let config ← draft.required .config
  let graph ← draft.required .graph
  return ⟨config, graph, ⟨draft.given.lookup .output, draft.given.lookup .namespaceName,
    (draft.given.lookup .noClear).isSome⟩⟩

def parse (arguments : List String) : Except Stop Options := do
  (← arguments.foldlM Draft.read ⟨[], none, false⟩).finish

end Interop.CommandLine
