import Interop.Configuration.Basic
import Interop.Json.Record

/-! Configurations read from the values that JSON and TOML texts hold, by the conventions of
either format. -/
namespace Interop

open Json (Convention listOf nullable variant?)

def Platform.read (convention : Convention) (json : Json) : Option Platform :=
  (variant? convention.isNothing json).bind Platform.ofName?

def TypedefStrategy.read (convention : Convention) (json : Json) : Option TypedefStrategy :=
  (variant? convention.isNothing json).bind TypedefStrategy.ofName?

/-- A table; of a repeated name the last value counts. -/
def Table.read (read : Json → Option α) : Json → Option (Table α)
  | .object members =>
    (members.mapM fun entry => (read entry.2).map fun value => (entry.1, value)).map Table.ofEntries
  | _ => none

def Binary.read (convention : Convention) (json : Json) : Option Binary := do
  let record ← convention.record? ["platform", "path"] json
  let platform ← record.required "platform" (Platform.read convention)
  return ⟨platform, ← record.required "path" Json.string?⟩

def Library.read (convention : Convention) (json : Json) : Option Library := do
  let record ← convention.record? ["name", "header", "platforms", "default_platform"] json
  let name ← record.required "name" Json.string?
  let header ← record.required "header" Json.string?
  let binaries ← record.withDefault "platforms" [] (listOf (Binary.read convention))
  return ⟨name, header, binaries,
    ← record.withDefault "default_platform" none (nullable (Platform.read convention))⟩

def MacroSearch.read (convention : Convention) (json : Json) : Option MacroSearch := do
  let record ← convention.record? ["prefix", "exclude_prefix"] json
  let opening ← record.required "prefix" Json.string?
  return ⟨opening, ← record.withDefault "exclude_prefix" none (nullable Json.string?)⟩

def Configuration.fieldNames : List String :=
  ["include_dirs", "libraries", "output_dir", "namespace", "force_clear_output", "force_types",
   "not_found_overrides", "macro_searches", "primitive_types", "typedef_strategies",
   "name_overrides", "anonymous_enum_prefixes"]

def Configuration.read (convention : Convention) (json : Json) : Option Configuration := do
  let record ← convention.record? Configuration.fieldNames json
  let strings (name : String) := record.withDefault name [] (listOf Json.string?)
  let table (name : String) := record.withDefault name [] (Table.read Json.string?)
  let libraries ← record.withDefault "libraries" [] (listOf (Library.read convention))
  let outputDir ← record.required "output_dir" Json.string?
  let namespaceName ← record.required "namespace" Json.string?
  let forceClear ← record.withDefault "force_clear_output" true Json.bool?
  let searches ← record.withDefault "macro_searches" [] (listOf (MacroSearch.read convention))
  let primitives ← record.withDefault "primitive_types" none (nullable (Table.read Json.string?))
  let strategies ← record.withDefault "typedef_strategies" []
    (Table.read (TypedefStrategy.read convention))
  return {
    includeDirs := ← strings "include_dirs"
    libraries, outputDir, namespaceName, forceClear
    forceTypes := ← strings "force_types"
    notFoundOverrides := ← table "not_found_overrides"
    macroSearches := searches
    primitiveTypes := primitives
    typedefStrategies := strategies
    nameOverrides := ← table "name_overrides"
    anonymousEnumPrefixes := ← strings "anonymous_enum_prefixes" }

end Interop
