import Interop.Configuration.Basic
import Interop.Json.Basic

/-! Configurations written as JSON values, with every field. -/
namespace Interop

def Table.write (write : α → Json) (table : Table α) : Json :=
  .object (table.map fun (name, value) => (name, write value))

def Binary.write (binary : Binary) : Json :=
  .object [("platform", .string binary.platform.name), ("path", .string binary.path)]

def Library.write (library : Library) : Json :=
  .object [("name", .string library.name), ("header", .string library.header),
    ("platforms", .array (library.binaries.map Binary.write)),
    ("default_platform",
      Json.optional (fun (platform : Platform) => .string platform.name) library.defaultPlatform)]

def MacroSearch.write (search : MacroSearch) : Json :=
  .object [("prefix", .string search.opening), ("exclude_prefix", Json.optional .string search.exclusion)]

def Configuration.write (configuration : Configuration) : Json :=
  .object [("include_dirs", Json.strings configuration.includeDirs),
    ("libraries", .array (configuration.libraries.map Library.write)),
    ("output_dir", .string configuration.outputDir),
    ("namespace", .string configuration.namespaceName),
    ("force_clear_output", .bool configuration.forceClear),
    ("force_types", Json.strings configuration.forceTypes),
    ("not_found_overrides", Table.write .string configuration.notFoundOverrides),
    ("macro_searches", .array (configuration.macroSearches.map MacroSearch.write)),
    ("primitive_types", Json.optional (Table.write .string) configuration.primitiveTypes),
    ("typedef_strategies",
      Table.write (fun (strategy : TypedefStrategy) => .string strategy.name) configuration.typedefStrategies),
    ("name_overrides", Table.write .string configuration.nameOverrides),
    ("anonymous_enum_prefixes", Json.strings configuration.anonymousEnumPrefixes)]

end Interop
