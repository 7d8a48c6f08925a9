import Interop.FileTree
import Interop.Generation.Basic

/-! Runs that read a dump from a file and leave their artifacts in a directory. The
directory is prepared only after the headers were scanned, so a failed scan changes nothing. -/
namespace Interop

def Dump.scanFile (tree : FileTree) (path : String) (headers : List String) :
    Except ScanFailure Scan :=
  match tree.read? path with
  | none => .error (.unreadableDump path)
  | some text =>
    match Dump.parse text with
    | none => .error (.malformedDump path)
    | some dump => .ok (dump.scan headers)

namespace OutputDirectory

/-- Files with this extension belong to the output; others are never touched. -/
def artifactExtension : String := "cs"

def isStale (name : String) : Bool :=
  Path.nameExtension? name.toList = some artifactExtension.toList

def artifactPath (directory name : String) : String :=
  Path.join directory (name ++ "." ++ artifactExtension)

def removeAll (tree : FileTree) (location : Location) (names : List String) : FileTree :=
  names.foldl (fun tree name => tree.remove (location ++ [name])) tree

/-- The names of the files in a directory that a path through it reaches. -/
def reachable (tree : FileTree) (directory : String) (location : Location) : List String :=
  (tree.fileNames location).filter fun name => tree.isFile (Path.join directory name)

/-- Makes a directory ready for artifacts. A directory with files in it is refused, or
cleared of old artifacts. -/
def prepare (directory : String) (forceClear : Bool) : Work FileTree (List Event) := do
  let (tree, isMade) := (← get).makeDirectories directory
  set tree
  match isMade, tree.directory? directory with
  | true, some location =>
    let names := reachable tree directory location
    if names.isEmpty then return []
    if ¬ forceClear then throw (.outputNotEmpty directory)
    let stale := names.filter isStale
    set (removeAll tree location stale)
    return [.cleared directory stale.length]
  | _, _ => throw (.io directory)

/-- The tree with artifacts, given by name and text, written one after another. -/
def store (directory : String) (contents : List (String × String)) (tree : FileTree) : FileTree :=
  contents.foldl
    (fun tree entry => (tree.write? (artifactPath directory entry.1) entry.2).getD tree) tree

def sink (tree : FileTree) (directory : String) : Sink where
  accepts held name := ((store directory held tree).write? (artifactPath directory name) "").isSome
  location := artifactPath directory

end OutputDirectory

structure DirectoryOutcome where
  result : Except GenerationError Report
  events : List Event
  tree : FileTree

namespace Generation

def runInto (configuration : Configuration) (scan : List String → Except ScanFailure Scan)
    (tree : FileTree) : DirectoryOutcome :=
  let directory := configuration.outputDir
  match scanHeaders configuration scan with
  | (.error error, events) => ⟨.error error, events, tree⟩
  | (.ok graph, events) =>
    match (OutputDirectory.prepare directory configuration.forceClear).run.run tree with
    | (.error error, tree) => ⟨.error error, events, tree⟩
    | (.ok cleared, tree) =>
      let outcome := fromGraph configuration graph (OutputDirectory.sink tree directory)
      let contents := outcome.artifacts.map fun artifact => (artifact.name, artifact.text)
      ⟨outcome.result, events ++ cleared ++ outcome.events,
        OutputDirectory.store directory contents tree⟩

end Generation

end Interop
