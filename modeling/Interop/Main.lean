import Interop.CommandLine.Basic

/-! The program. It takes in the part of the disk that a run can see, runs on that, and
then makes on the disk the changes that the run made. -/
namespace Interop.Disk

def absolute (location : Location) : String := "/" ++ "/".intercalate location

def located (path : String) : Location := (path.splitOn "/").filter (· ≠ "")

/-- Takes in what is at a place. A file that is no text is taken in as `fallback`. -/
def load (fallback : Option FileEntry) (tree : FileTree) (location : Location) : IO FileTree := do
  let place := (← IO.currentDir) / absolute location
  if ← place.isDir then return tree.put location .directory
  if ¬ (← place.pathExists) then return tree
  match ← (IO.FS.readFile place).toBaseIO, fallback with
  | .ok text, _ => return tree.put location (.file text)
  | .error _, some entry => return tree.put location entry
  | .error _, none => return tree

def loadAlong (tree : FileTree) (location : Location) : List String → IO FileTree
  | [] => return tree
  | piece :: pieces => do
    if piece = "" ∨ piece = "." then loadAlong tree location pieces
    else if piece = ".." then loadAlong tree location.dropLast pieces
    else
      let place := location ++ [piece]
      loadAlong (← load none tree place) place pieces

def loadPath (tree : FileTree) (path : String) : IO FileTree := do
  let (location, pieces) := tree.start path
  loadAlong tree location pieces

def loadDirectory (tree : FileTree) (path : String) : IO FileTree := do
  let tree ← loadPath tree path
  match tree.directory? path with
  | none => return tree
  | some location =>
    let places ← ((← IO.currentDir) / absolute location).walkDir
    places.toList.foldlM (fun tree place => load (some (.file "")) tree (located (toString place))) tree

/-- The working directory with all directories above it. -/
def start : IO FileTree := do
  let location := located (toString (← IO.currentDir))
  let tree := { FileTree.empty with workingDirectory := location }
  return (tree.makeDirectories (absolute location)).1

def loadFor (options : CommandLine.Options) (tree : FileTree) : IO FileTree := do
  let tree ← loadPath (← loadPath tree options.config) options.graph
  match options.configuration tree with
  | .ok configuration => loadDirectory tree configuration.outputDir
  | .error _ => return tree

def store (before after : FileTree) : IO Unit := do
  for (location, _) in before.entries do
    if (after.lookup location).isNone then IO.FS.removeFile (absolute location)
  for (location, entry) in after.entries.reverse do
    if before.lookup location ≠ some entry then
      match entry with
      | .directory => IO.FS.createDirAll (absolute location)
      | .file text => IO.FS.writeFile (absolute location) text

end Interop.Disk

open Interop in
def main (arguments : List String) : IO UInt32 := do
  let start ← Disk.start
  let before ← match CommandLine.parse arguments with
    | .ok options => Disk.loadFor options start
    | .error _ => pure start
  let response := CommandLine.run arguments before
  Disk.store before response.tree
  IO.print response.output
  IO.eprint response.errors
  return response.status.toUInt32
