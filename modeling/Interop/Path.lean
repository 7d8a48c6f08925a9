/-! Paths by their components. Repeated and trailing slashes and inner dots leave no
component; a leading slash is one, and so are a leading dot and every pair of dots. -/
namespace Interop.Path

inductive Component where
  | root
  | current
  | parent
  | name (text : List Char)
  deriving DecidableEq, Repr

/-- The pieces of a text between slashes; there is always at least one. -/
def splitSlash : List Char → List Char × List (List Char)
  | [] => ([], [])
  | c :: rest =>
    let (piece, pieces) := splitSlash rest
    if c = '/' then ([], piece :: pieces) else (c :: piece, pieces)

/-- A piece after the first; an empty one and a dot leave nothing. -/
def innerComponent? (piece : List Char) : Option Component :=
  if piece = [] ∨ piece = ['.'] then none
  else if piece = ['.', '.'] then some .parent
  else some (.name piece)

def components (text : String) : List Component :=
  match text.toList with
  | [] => []
  | '/' :: rest =>
    let (piece, pieces) := splitSlash rest
    .root :: (piece :: pieces).filterMap innerComponent?
  | characters =>
    let (piece, pieces) := splitSlash characters
    let others := pieces.filterMap innerComponent?
    if piece = ['.'] then .current :: others
    else (innerComponent? piece).toList ++ others

def endsWith (text ending : String) : Bool := (components ending).isSuffixOf (components text)

/-- Two paths name the same file where one is the end of the other. -/
def sameFile (first second : String) : Bool := endsWith first second || endsWith second first

def isAbsolute (text : String) : Bool := text.toList.head? = some '/'

/-- A path taken from a directory; an absolute one stays as it is. -/
def join (directory path : String) : String :=
  if isAbsolute path ∨ directory = "" then path
  else if directory.toList.getLast? = some '/' then directory ++ path
  else directory ++ "/" ++ path

/-- The part of a name after its last dot, unless that dot is the first character. -/
def nameExtension? (name : List Char) : Option (List Char) :=
  let (ending, rest) := name.reverse.span (· ≠ '.')
  match rest with
  | _ :: _ :: _ => some ending.reverse
  | _ => none

def extension? (text : String) : Option (List Char) :=
  match (components text).getLast? with
  | some (.name name) => nameExtension? name
  | _ => none

end Interop.Path
