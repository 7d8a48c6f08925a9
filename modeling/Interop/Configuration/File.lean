import Interop.Configuration.Reader
import Interop.Configuration.Validation
import Interop.FileTree
import Interop.Json.Parser
import Interop.Toml.Parser

/-! Configuration files. The extension of a file decides how it is read, and a file is only
accepted if its configuration is valid. -/
namespace Interop

inductive ConfigurationFormat where
  | json
  | toml
  deriving DecidableEq, Repr

namespace ConfigurationFormat

/-- Files are TOML unless their extension says otherwise. -/
def ofPath (path : String) : ConfigurationFormat :=
  if Path.extension? path = some "json".toList then .json else .toml

def name : ConfigurationFormat → String
  | .json => "JSON"
  | .toml => "TOML"

def convention : ConfigurationFormat → Json.Convention
  | .json => .standard
  | .toml => ⟨Json.isEmptyContainer, true⟩

def parse (format : ConfigurationFormat) (text : String) : Option Json :=
  match format with
  | .json => Json.parse text
  | .toml => (Toml.parse text).map Toml.toJson

end ConfigurationFormat

inductive LoadError where
  | malformed (format : ConfigurationFormat)
  | invalid (fault : ConfigurationError)
  deriving DecidableEq, Repr

def LoadError.message : LoadError → String
  | .malformed format => "not a configuration in " ++ format.name
  | .invalid fault => fault.message

inductive FileError where
  | unreadable (path : String)
  | rejected (path : String) (cause : LoadError)
  deriving DecidableEq, Repr

namespace FileError

def summary : FileError → String
  | .unreadable path => "failed to read config " ++ path
  | .rejected path _ => "invalid config " ++ path

def message (error : FileError) : String :=
  match error with
  | .unreadable _ => error.summary
  | .rejected _ cause => error.summary ++ ": " ++ cause.message

end FileError

namespace Configuration

def ofText (format : ConfigurationFormat) (text : String) : Option Configuration :=
  (format.parse text).bind (Configuration.read format.convention)

def load (format : ConfigurationFormat) (text : String) : Except LoadError Configuration :=
  match ofText format text with
  | none => .error (.malformed format)
  | some configuration =>
    match configuration.validate with
    | .error fault => .error (.invalid fault)
    | .ok _ => .ok configuration

def loadFile (tree : FileTree) (path : String) : Except FileError Configuration :=
  match tree.read? path with
  | none => .error (.unreadable path)
  | some text => (load (.ofPath path) text).mapError (.rejected path)

end Configuration

end Interop
