import Interop.Path

/-! Trees of directories and text files, seen from a working directory. A path is followed
piece by piece, and every piece but the last has to lead into a directory. -/
namespace Interop

abbrev Location := List String

inductive FileEntry where
  | directory
  | file (text : String)
  deriving DecidableEq, Repr

/-- The entries are all places but the root, which is always a directory. -/
structure FileTree where
  entries : List (Location × FileEntry)
  workingDirectory : Location
  deriving Repr

namespace FileTree

def empty : FileTree := ⟨[], []⟩

def lookup (tree : FileTree) (location : Location) : Option FileEntry :=
  if location = [] then some .directory else tree.entries.lookup location

def isDirectory (tree : FileTree) (location : Location) : Bool :=
  tree.lookup location = some .directory

def isName (name : String) : Bool := name.utf8ByteSize ≤ 255

def isPath (text : String) : Bool :=
  text.utf8ByteSize < 4096 && ¬ text.toList.contains '\x00'

def start (tree : FileTree) (path : String) : Location × List String :=
  let (piece, pieces) := Path.splitSlash path.toList
  (if Path.isAbsolute path then [] else tree.workingDirectory, (piece :: pieces).map String.ofList)

/-- Where the pieces of a path lead. An empty piece and a dot stay in a directory, and two
dots leave it; nothing is above the root. -/
def walk (tree : FileTree) : Location → List String → Option Location
  | location, [] => some location
  | location, piece :: pieces =>
    if ¬ tree.isDirectory location then none
    else if piece = "" ∨ piece = "." then walk tree location pieces
    else if piece = ".." then walk tree location.dropLast pieces
    else if isName piece then walk tree (location ++ [piece]) pieces
    else none

def locate? (tree : FileTree) (path : String) : Option Location :=
  if path = "" ∨ ¬ isPath path then none
  else
    let (location, pieces) := tree.start path
    tree.walk location pieces

def put (tree : FileTree) (location : Location) (entry : FileEntry) : FileTree :=
  { tree with entries := (location, entry) :: tree.entries.filter (·.1 ≠ location) }

def remove (tree : FileTree) (location : Location) : FileTree :=
  { tree with entries := tree.entries.filter (·.1 ≠ location) }

theorem lookup_filter_other (entries : List (Location × FileEntry)) (location other : Location)
    (h : other ≠ location) :
    (entries.filter (·.1 ≠ location)).lookup other = entries.lookup other := by
  induction entries with
  | nil => rfl
  | cons entry rest ih =>
    obtain ⟨place, value⟩ := entry
    by_cases same : place = location
    · subst same
      have distinct : (other == place) = false := by simpa using h
      simpa [List.lookup_cons, distinct] using ih
    · simp only [ne_eq, same, not_false_eq_true, decide_true, List.filter_cons_of_pos,
        List.lookup_cons, ← ih]

theorem lookup_filter_self (entries : List (Location × FileEntry)) (location : Location) :
    (entries.filter (·.1 ≠ location)).lookup location = none := by
  induction entries with
  | nil => rfl
  | cons entry rest ih =>
    obtain ⟨place, value⟩ := entry
    by_cases same : place = location
    · simpa [same] using ih
    · have distinct : (location == place) = false := by simpa using Ne.symm same
      simpa [same, List.lookup_cons, distinct] using ih

theorem lookup_put_self (tree : FileTree) (location : Location) (entry : FileEntry)
    (h : location ≠ []) : (tree.put location entry).lookup location = some entry := by
  simp [lookup, put, h]

theorem lookup_put_other (tree : FileTree) (location other : Location) (entry : FileEntry)
    (h : other ≠ location) : (tree.put location entry).lookup other = tree.lookup other := by
  have distinct : (other == location) = false := by simpa using h
  simp only [lookup, put, List.lookup_cons, distinct, lookup_filter_other _ _ _ h]

theorem lookup_remove_self (tree : FileTree) (location : Location) (h : location ≠ []) :
    (tree.remove location).lookup location = none := by
  simp only [lookup, remove, h, if_false, lookup_filter_self]

theorem lookup_remove_other (tree : FileTree) (location other : Location) (h : other ≠ location) :
    (tree.remove location).lookup other = tree.lookup other := by
  simp only [lookup, remove, lookup_filter_other _ _ _ h]

def read? (tree : FileTree) (path : String) : Option String :=
  (tree.locate? path).bind fun location =>
    match tree.lookup location with
    | some (.file text) => some text
    | _ => none

def isFile (tree : FileTree) (path : String) : Bool := (tree.read? path).isSome

/-- Writes a file in a directory that exists, in place of a file that may be there. -/
def write? (tree : FileTree) (path text : String) : Option FileTree :=
  (tree.locate? path).bind fun location =>
    if tree.isDirectory location then none else some (tree.put location (.file text))

/-- The pieces only stay where they are, and one of them is a dot. -/
def endsInDot (pieces : List String) : Bool :=
  pieces.all (fun piece => piece = "" ∨ piece = ".") && pieces.contains "."

/-- Makes the directories along the pieces of a path, up to the first that cannot be made,
and says whether all are there. A dot at the end stands for a directory that is there
already, so none is made before it. -/
def makeAlong (tree : FileTree) : Location → List String → FileTree × Bool
  | _, [] => (tree, true)
  | location, piece :: pieces =>
    if piece = "" ∨ piece = "." then makeAlong tree location pieces
    else if piece = ".." then makeAlong tree location.dropLast pieces
    else
      let place := location ++ [piece]
      match tree.lookup place with
      | some .directory => makeAlong tree place pieces
      | some (.file _) => (tree, false)
      | none =>
        if isName piece ∧ ¬ endsInDot pieces then
          makeAlong (tree.put place .directory) place pieces
        else (tree, false)

def makeDirectories (tree : FileTree) (path : String) : FileTree × Bool :=
  if isPath path then
    let (location, pieces) := tree.start path
    tree.makeAlong location pieces
  else (tree, false)

def directory? (tree : FileTree) (path : String) : Option Location :=
  (tree.locate? path).filter tree.isDirectory

def fileNames (tree : FileTree) (location : Location) : List String :=
  tree.entries.filterMap fun (place, entry) =>
    match entry, place.getLast? with
    | .file _, some name => if place.dropLast = location then some name else none
    | _, _ => none

end FileTree

end Interop
