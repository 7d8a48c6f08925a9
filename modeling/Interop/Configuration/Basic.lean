import Interop.Primitive
import Interop.Table

/-! What a run is asked to do: the libraries with their headers and binaries, where the
output goes, and the tables that override what the declarations say. -/
namespace Interop

inductive Platform where
  | android
  | windows
  | linux
  deriving DecidableEq, Repr

namespace Platform

/-- The platforms in the order of the members of the generated enumeration. -/
def all : List Platform := [.android, .windows, .linux]

def display : Platform → String
  | .android => "Android"
  | .windows => "Windows"
  | .linux => "Linux"

def name : Platform → String
  | .android => "android"
  | .windows => "windows"
  | .linux => "linux"

def ofName? (name : String) : Option Platform := all.find? (·.name = name)

end Platform

inductive TypedefStrategy where
  | unwrap
  | namedEnum
  deriving DecidableEq, Repr

def TypedefStrategy.name : TypedefStrategy → String
  | .unwrap => "unwrap"
  | .namedEnum => "named_enum"

def TypedefStrategy.ofName? : String → Option TypedefStrategy
  | "unwrap" => some .unwrap
  | "named_enum" => some .namedEnum
  | _ => none

/-- The native binary of a library on one platform. -/
structure Binary where
  platform : Platform
  path : String
  deriving DecidableEq, Repr

structure Library where
  name : String
  header : String
  binaries : List Binary
  defaultPlatform : Option Platform
  deriving DecidableEq, Repr

structure MacroSearch where
  opening : String
  exclusion : Option String
  deriving DecidableEq, Repr

def MacroSearch.selects (search : MacroSearch) (name : String) : Bool :=
  search.opening.toList.isPrefixOf name.toList &&
    !search.exclusion.any fun exclusion => exclusion.toList.isPrefixOf name.toList

structure Configuration where
  includeDirs : List String
  libraries : List Library
  outputDir : String
  namespaceName : String
  forceClear : Bool
  forceTypes : List String
  notFoundOverrides : Table String
  macroSearches : List MacroSearch
  primitiveTypes : Option (Table String)
  typedefStrategies : Table TypedefStrategy
  nameOverrides : Table String
  anonymousEnumPrefixes : List String
  deriving DecidableEq, Repr

namespace Configuration

def headers (configuration : Configuration) : List String :=
  configuration.libraries.map (·.header)

end Configuration

end Interop
