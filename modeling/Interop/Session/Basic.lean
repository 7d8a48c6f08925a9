import Interop.Context.Basic
import Interop.Document.Artifact
import Interop.Generation.Event

/-! A session turns declarations into artifacts. Its setting does not change; its progress
records which declarations are taken care of, which artifact names are used up, what the
sink has accepted, and what was reported. -/
namespace Interop

structure Artifact where
  name : String
  declaration : Declaration
  text : String
  deriving Repr

/-- Where artifacts go. A sink accepts or refuses a name, given what it holds already. -/
structure Sink where
  accepts : List (String × String) → String → Bool
  location : String → String

structure Setting where
  configuration : Configuration
  context : Context
  primitives : List (Primitive × String)
  constants : List NamedConstant
  sink : Sink

def Setting.artifact (setting : Setting) (name : String) (declaration : Declaration) : Artifact :=
  ⟨name, declaration, declaration.text setting.configuration.namespaceName⟩

/-- A declaration is registered as soon as its generation begins. A name is claimed when an
artifact is handed to the sink, and the artifacts are what the sink accepted. -/
structure Progress where
  registered : List String
  claimed : List String
  artifacts : List Artifact
  events : List Event
  deriving Repr

def Progress.start : Progress := ⟨[], [], [], []⟩

namespace Progress

def artifactNames (progress : Progress) : List String := progress.artifacts.map (·.name)

def note (progress : Progress) (event : Event) : Progress :=
  { progress with events := progress.events ++ [event] }

def mark (progress : Progress) (name : String) : Progress :=
  { progress with registered := name :: progress.registered }

def claim (progress : Progress) (name : String) : Progress :=
  { progress with claimed := name :: progress.claimed }

def store (progress : Progress) (artifact : Artifact) : Progress :=
  { progress.claim artifact.name with artifacts := progress.artifacts ++ [artifact] }

def contents (progress : Progress) : List (String × String) :=
  progress.artifacts.map fun artifact => (artifact.name, artifact.text)

end Progress

/-- What a run came to: its artifacts in order and the declarations that nothing needs. -/
structure Report where
  artifacts : List String
  orphans : List String
  deriving DecidableEq, Repr

namespace Session

def note (event : Event) : Work Progress Unit := modify (·.note event)

/-- Hands an artifact to the sink. A name is used up even if the sink refuses it. -/
def write (setting : Setting) (name : String) (declaration : Declaration) : Work Progress Unit := do
  let progress ← get
  if name ∈ progress.claimed then throw (.artifactCollision name)
  if setting.sink.accepts progress.contents name then
    set (progress.store (setting.artifact name declaration))
  else
    set (progress.claim name)
    throw (.io (setting.sink.location name))

def report (setting : Setting) (progress : Progress) : Report :=
  ⟨progress.artifactNames, setting.context.orphans progress.registered⟩

end Session

end Interop
