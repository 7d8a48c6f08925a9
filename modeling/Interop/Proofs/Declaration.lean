import Interop.Proofs.Context.Entry

/-! What two graphs may have in common. Types name tags; members may be changed throughout a graph,
and all else that the graph declares stays. -/
namespace Interop

namespace CType

mutual

def tagNames : CType → List String
  | .tag (.named name) => [name]
  | .builtin _ | .tag (.anonymous _) | .typedef _ => []
  | .pointer type | .array type _ => type.tagNames
  | .function parameters result => listTagNames parameters ++ result.tagNames

def listTagNames : List CType → List String
  | [] => []
  | type :: types => type.tagNames ++ listTagNames types

end

def Avoids (hidden : List String) (type : CType) : Prop := ∀ name ∈ type.tagNames, name ∉ hidden

theorem avoids_nil (type : CType) : type.Avoids [] := fun _ _ => List.not_mem_nil

theorem avoids_named {hidden : List String} {name : String} (visible : name ∉ hidden) :
    (tag (.named name)).Avoids hidden := by
  intro other member
  obtain rfl := List.mem_singleton.mp member
  exact visible

end CType

def Function.types (function : Function) : List CType :=
  function.parameters.map (·.type) ++ [function.result]

def TranslationUnit.types (unit : TranslationUnit) : List CType :=
  unit.structs.flatMap (fun struct => struct.fields.map (·.type)) ++ unit.typedefs.map (·.underlying) ++
    unit.functions.flatMap (·.types)

/-- The types that fields, typedefs and functions are declared with. -/
def Graph.types (graph : Graph) : List CType := graph.units.flatMap (·.types)

section

variable {graph : Graph}

theorem Graph.type_mem_of_struct {struct : Struct} {m : Member} (listed : struct ∈ graph.structs)
    (field : m ∈ struct.fields) : m.type ∈ graph.types := by
  obtain ⟨unit, present, own⟩ := List.mem_flatMap.mp listed
  refine List.mem_flatMap.mpr ⟨unit, present, List.mem_append_left _ (List.mem_append_left _ ?_)⟩
  exact List.mem_flatMap.mpr ⟨struct, own, List.mem_map_of_mem field⟩

theorem Graph.type_mem_of_typedef {typedef : Typedef} (listed : typedef ∈ graph.typedefs) :
    typedef.underlying ∈ graph.types := by
  obtain ⟨unit, present, own⟩ := List.mem_flatMap.mp listed
  refine List.mem_flatMap.mpr ⟨unit, present, List.mem_append_left _ (List.mem_append_right _ ?_)⟩
  exact List.mem_map_of_mem own

theorem Graph.type_mem_of_function {unit : TranslationUnit} {function : Function} {type : CType}
    (present : unit ∈ graph.units) (own : function ∈ unit.functions) (used : type ∈ function.types) :
    type ∈ graph.types := by
  refine List.mem_flatMap.mpr ⟨unit, present, List.mem_append_right _ ?_⟩
  exact List.mem_flatMap.mpr ⟨function, own, used⟩

end

section

variable (change : Member → Member)

def Struct.mapMembers (struct : Struct) : Struct :=
  { struct with fields := struct.fields.map change }

def Function.mapMembers (function : Function) : Function :=
  { function with parameters := function.parameters.map change }

def TagDeclaration.mapMembers : TagDeclaration → TagDeclaration
  | .struct declaration => .struct (declaration.mapMembers change)
  | .enumeration declaration => .enumeration declaration

def Entry.mapMembers : Entry → Entry
  | .struct declaration => .struct (declaration.mapMembers change)
  | .enumeration declaration => .enumeration declaration
  | .typedef declaration => .typedef declaration

def TranslationUnit.mapMembers (unit : TranslationUnit) : TranslationUnit :=
  { unit with
    structs := unit.structs.map (·.mapMembers change)
    functions := unit.functions.map (·.mapMembers change) }

def Graph.mapMembers (graph : Graph) : Graph := ⟨graph.units.map (·.mapMembers change)⟩

@[simp] theorem Struct.name_mapMembers (struct : Struct) : (struct.mapMembers change).name = struct.name := rfl

@[simp] theorem Struct.incomplete_mapMembers (struct : Struct) :
    (struct.mapMembers change).incomplete = struct.incomplete := rfl

@[simp] theorem Function.name_mapMembers (function : Function) :
    (function.mapMembers change).name = function.name := rfl

theorem TranslationUnit.entries_mapMembers (unit : TranslationUnit) :
    (unit.mapMembers change).entries = unit.entries.map (·.mapMembers change) := by
  simp [entries, mapMembers, Entry.mapMembers, Function.comp_def]

theorem Graph.entries_mapMembers (graph : Graph) :
    (graph.mapMembers change).entries = graph.entries.map (·.mapMembers change) := by
  simp [entries, mapMembers, List.flatMap_map, List.map_flatMap, TranslationUnit.entries_mapMembers]

theorem Graph.macros_mapMembers (graph : Graph) : (graph.mapMembers change).macros = graph.macros := by
  simp [macros, mapMembers, List.flatMap_map, TranslationUnit.mapMembers]

theorem Graph.structNames_mapMembers (graph : Graph) :
    (graph.mapMembers change).structs.map (·.name) = graph.structs.map (·.name) := by
  simp [structs, mapMembers, TranslationUnit.mapMembers, List.flatMap_map, List.map_flatMap,
    Function.comp_def]

end

@[simp] theorem Struct.mapMembers_id (struct : Struct) : struct.mapMembers id = struct := by
  simp [mapMembers]

@[simp] theorem Function.mapMembers_id (function : Function) : function.mapMembers id = function := by
  simp [mapMembers]

@[simp] theorem Entry.mapMembers_id (entry : Entry) : entry.mapMembers id = entry := by
  cases entry <;> simp [mapMembers]

end Interop
