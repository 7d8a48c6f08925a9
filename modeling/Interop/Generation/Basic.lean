import Interop.Context.Alias
import Interop.Context.Unification
import Interop.Macro.Extraction
import Interop.Session.Library

/-! Whole runs. The graph is indexed, enumerations get their names, macros are evaluated,
and then library by library the artifacts are made. -/
namespace Interop

/-- What a run has to show: its report or its error, the artifacts the sink accepted and
the events, both also before an error. -/
structure Outcome where
  result : Except GenerationError Report
  artifacts : List Artifact
  events : List Event

namespace Generation

/-- The context of a graph with all enumerations named that can be. -/
def prepareContext (configuration : Configuration) (graph : Graph) : Except GenerationError Context := do
  let indexed ← Context.index graph
  let naming : Work Context Unit := do
    Context.unify configuration.anonymousEnumPrefixes
    Context.aliasAll configuration.typedefStrategies
  match naming.run.run indexed with
  | (.ok _, context) => .ok context
  | (.error error, _) => .error error

def primitives (configuration : Configuration) : Except GenerationError (List (Primitive × String)) :=
  match configuration.primitiveOverrides with
  | .ok overrides => .ok (Primitive.targets overrides)
  | .error fault => .error (.invalidConfiguration fault)

def prepare (configuration : Configuration) (graph : Graph) (sink : Sink) :
    Except GenerationError (Setting × List Event) := do
  let primitives ← primitives configuration
  let context ← prepareContext configuration graph
  let (constants, events) := Macro.extract graph configuration.macroSearches
  return (⟨configuration, context, primitives, constants, sink⟩, events)

def writeAll (setting : Setting) (graph : Graph) : Work Progress Unit := do
  Session.writePlatformEnum setting
  let _ ← setting.configuration.libraries.foldlM (Session.bindLibrary setting graph) []
  Session.forceTypes setting

def closing (report : Report) : List Event :=
  report.orphans.map .unreferenced ++ [.finished report.artifacts.length report.orphans.length]

def fromGraph (configuration : Configuration) (graph : Graph) (sink : Sink) : Outcome :=
  match prepare configuration graph sink with
  | .error error => ⟨.error error, [], []⟩
  | .ok (setting, events) =>
    match (writeAll setting graph).run.run { Progress.start with events } with
    | (.error error, progress) => ⟨.error error, progress.artifacts, progress.events⟩
    | (.ok _, progress) =>
      let report := Session.report setting progress
      ⟨.ok report, progress.artifacts, progress.events ++ closing report⟩

/-- The graph that a scan of the configured headers gives, if the configuration is valid
and there is a scan at all. -/
def scanHeaders (configuration : Configuration) (scan : List String → Except ScanFailure Scan) :
    Except GenerationError Graph × List Event :=
  match configuration.validate, scan configuration.headers with
  | .error fault, _ => (.error (.invalidConfiguration fault), [])
  | .ok _, .error failure => (.error (.parseFailed failure), [])
  | .ok _, .ok scan =>
    (scan.result.mapError fun kind => .parseFailed (.reported kind), scan.diagnostics.map .diagnosed)

def run (configuration : Configuration) (scan : List String → Except ScanFailure Scan) (sink : Sink) :
    Outcome :=
  match scanHeaders configuration scan with
  | (.error error, events) => ⟨.error error, [], events⟩
  | (.ok graph, events) =>
    let outcome := fromGraph configuration graph sink
    { outcome with events := events ++ outcome.events }

end Generation

/-- A sink in memory, which refuses at most one name. -/
def Sink.memory (refused : Option String) : Sink :=
  ⟨fun _ name => refused ≠ some name, id⟩

end Interop
