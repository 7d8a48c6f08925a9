import Mathlib.Data.List.Basic
import Interop.Proofs.Context

/-! The declarations of a graph as one list. Indexing goes through it in order; what a name stands
for is read off the list, and two declarations agree unless they claim one name for different things. -/
namespace Interop

inductive Entry where
  | struct (declaration : Struct)
  | enumeration (declaration : Enumeration)
  | typedef (declaration : Typedef)

namespace Entry

def struct? : Entry → Option Struct
  | struct declaration => some declaration
  | _ => none

def enumeration? : Entry → Option Enumeration
  | enumeration declaration => some declaration
  | _ => none

def typedef? : Entry → Option Typedef
  | typedef declaration => some declaration
  | _ => none

@[simp] theorem struct?_eq_some {entry : Entry} {declaration : Struct} :
    entry.struct? = some declaration ↔ entry = struct declaration := by
  cases entry <;> simp [struct?]

@[simp] theorem enumeration?_eq_some {entry : Entry} {declaration : Enumeration} :
    entry.enumeration? = some declaration ↔ entry = enumeration declaration := by
  cases entry <;> simp [enumeration?]

@[simp] theorem typedef?_eq_some {entry : Entry} {declaration : Typedef} :
    entry.typedef? = some declaration ↔ entry = typedef declaration := by
  cases entry <;> simp [typedef?]

def Agrees : Entry → Entry → Prop
  | struct first, struct second =>
    first.name = second.name → ¬ first.incomplete → ¬ second.incomplete → first = second
  | struct first, enumeration second => second.declaredName? ≠ some first.name
  | enumeration first, struct second => first.declaredName? ≠ some second.name
  | enumeration first, enumeration second =>
    ∀ name, first.declaredName? = some name → second.declaredName? = some name → first = second
  | typedef first, typedef second => first.name = second.name → first = second
  | _, _ => True

theorem Agrees.refl (entry : Entry) : entry.Agrees entry := by
  cases entry <;> simp [Agrees]

theorem Agrees.symm : {first second : Entry} → first.Agrees second → second.Agrees first
  | .struct _, .struct _, agree => fun name complete complete' => (agree name.symm complete' complete).symm
  | .struct _, .enumeration _, agree | .enumeration _, .struct _, agree => agree
  | .enumeration _, .enumeration _, agree => fun name own own' => (agree name own' own).symm
  | .typedef _, .typedef _, agree => fun name => (agree name.symm).symm
  | .struct _, .typedef _, _ | .enumeration _, .typedef _, _ | .typedef _, .struct _, _
  | .typedef _, .enumeration _, _ => trivial

end Entry

def TranslationUnit.entries (unit : TranslationUnit) : List Entry :=
  unit.structs.map .struct ++ unit.enums.map .enumeration ++ (unit.typedefs.map .typedef)

/-- The declarations of a graph in the order in which they are indexed. -/
def Graph.entries (graph : Graph) : List Entry := graph.units.flatMap (·.entries)

@[simp] theorem TranslationUnit.structs_entries (unit : TranslationUnit) :
    unit.entries.filterMap Entry.struct? = unit.structs := by
  simp [entries, Function.comp_def, Entry.struct?, List.filterMap_none]

@[simp] theorem TranslationUnit.enums_entries (unit : TranslationUnit) :
    unit.entries.filterMap Entry.enumeration? = unit.enums := by
  simp [entries, Function.comp_def, Entry.enumeration?, List.filterMap_none]

@[simp] theorem TranslationUnit.typedefs_entries (unit : TranslationUnit) :
    unit.entries.filterMap Entry.typedef? = unit.typedefs := by
  simp [entries, Function.comp_def, Entry.typedef?, List.filterMap_none]

@[simp] theorem Graph.structs_entries (graph : Graph) : graph.entries.filterMap Entry.struct? = graph.structs := by
  simp [entries, structs, List.filterMap_flatMap]

@[simp] theorem Graph.enums_entries (graph : Graph) :
    graph.entries.filterMap Entry.enumeration? = graph.enums := by
  simp [entries, enums, List.filterMap_flatMap]

@[simp] theorem Graph.typedefs_entries (graph : Graph) :
    graph.entries.filterMap Entry.typedef? = graph.typedefs := by
  simp [entries, typedefs, List.filterMap_flatMap]

def Entry.tagName? : Entry → Option String
  | struct declaration => some declaration.name
  | enumeration declaration => declaration.declaredName?
  | typedef _ => none

theorem TranslationUnit.tagNames_eq (unit : TranslationUnit) :
    unit.tagNames = unit.entries.filterMap Entry.tagName? := by
  simp [tagNames, entries, Function.comp_def, Entry.tagName?, List.filterMap_none,
    ← List.filterMap_eq_flatMap_toList]

theorem Graph.tagNames_eq (graph : Graph) : graph.tagNames = graph.entries.filterMap Entry.tagName? := by
  simp [tagNames, entries, List.filterMap_flatMap, TranslationUnit.tagNames_eq]

/-- The structure that a name stands for: its first definition, or its first declaration if it
is not defined. -/
def structNamed? (structs : List Struct) (name : String) : Option Struct :=
  (structs.find? fun struct => struct.name = name && !struct.incomplete).or
    (structs.find? (·.name = name))

def enumerationNamed? (enums : List Enumeration) (name : String) : Option Enumeration :=
  enums.find? (·.declaredName? = some name)

def typedefNamed? (typedefs : List Typedef) (name : String) : Option Typedef :=
  typedefs.find? (·.name = name)

section

variable {structs : List Struct} {struct existing : Struct} {name : String}

theorem structNamed?_eq_none : structNamed? structs name = none ↔ ∀ struct ∈ structs, struct.name ≠ name := by
  simp +contextual [structNamed?]

theorem mem_of_structNamed? (found : structNamed? structs name = some struct) :
    struct ∈ structs ∧ struct.name = name := by
  rcases Option.or_eq_some_iff.mp found with found | ⟨-, found⟩
  · have holds := List.find?_some found
    simp only [Bool.and_eq_true, decide_eq_true_eq] at holds
    exact ⟨List.mem_of_find?_eq_some found, holds.1⟩
  · exact ⟨List.mem_of_find?_eq_some found, by simpa using List.find?_some found⟩

/-- Only a name without a definition stands for a forward declaration. -/
theorem incomplete_of_structNamed? (found : structNamed? structs name = some existing)
    (forward : existing.incomplete) : ∀ struct ∈ structs, struct.name = name → struct.incomplete := by
  rcases Option.or_eq_some_iff.mp found with found | ⟨undefined, -⟩
  · have holds := List.find?_some found
    simp [forward] at holds
  · simpa using undefined

theorem structNamed?_append_other (other : struct.name ≠ name) :
    structNamed? (structs ++ [struct]) name = structNamed? structs name := by
  simp [structNamed?, List.find?_append, other]

theorem structNamed?_append_new (new : structNamed? structs name = none) (same : struct.name = name) :
    structNamed? (structs ++ [struct]) name = some struct := by
  simp only [structNamed?, Option.or_eq_none_iff] at new
  cases incomplete : struct.incomplete <;>
    simp [structNamed?, List.find?_append, new, same, incomplete]

/-- A forward declaration changes nothing. -/
theorem structNamed?_append_forward (found : structNamed? structs name = some existing)
    (forward : struct.incomplete) : structNamed? (structs ++ [struct]) name = some existing := by
  rcases Option.or_eq_some_iff.mp found with found | ⟨undefined, found⟩
  · simp [structNamed?, List.find?_append, found]
  · simp [structNamed?, List.find?_append, undefined, found, forward]

/-- A definition takes the place of forward declarations. -/
theorem structNamed?_append_definition (found : structNamed? structs name = some existing)
    (forward : existing.incomplete) (same : struct.name = name) (complete : ¬ struct.incomplete) :
    structNamed? (structs ++ [struct]) name = some struct := by
  have undefined : structs.find? (fun struct => struct.name = name && !struct.incomplete) = none := by
    simpa using incomplete_of_structNamed? found forward
  simp [structNamed?, List.find?_append, undefined, same, complete]

/-- A first definition stays. -/
theorem structNamed?_append_defined (found : structNamed? structs name = some existing)
    (complete : ¬ existing.incomplete) : structNamed? (structs ++ [struct]) name = some existing := by
  rcases Option.or_eq_some_iff.mp found with defined | ⟨undefined, first⟩
  · simp [structNamed?, List.find?_append, defined]
  · have member := List.mem_of_find?_eq_some first
    have holds := List.find?_some first
    simp only [decide_eq_true_eq] at holds
    exact absurd (by simpa [holds] using List.find?_eq_none.mp undefined existing member) complete

end

namespace Context

def addEntry (context : Context) : Entry → Except GenerationError Context
  | .struct struct => addStruct context struct
  | .enumeration enumeration => addEnumeration context enumeration
  | .typedef typedef => addTypedef context typedef

theorem addUnit_eq (context : Context) (unit : TranslationUnit) :
    addUnit context unit = unit.entries.foldlM addEntry context := by
  simp only [addUnit, TranslationUnit.entries, List.foldlM_append, List.foldlM_map, bind_assoc]
  rfl

theorem foldlM_addUnit (units : List TranslationUnit) (context : Context) :
    units.foldlM addUnit context = (units.flatMap (·.entries)).foldlM addEntry context := by
  induction units generalizing context with
  | nil => rfl
  | cons unit units ih => simp only [List.foldlM_cons, List.flatMap_cons, List.foldlM_append, addUnit_eq, ih]

/-- Indexing goes through the declarations one after another. -/
theorem index_eq (graph : Graph) : index graph = graph.entries.foldlM addEntry empty :=
  foldlM_addUnit graph.units empty

end Context

end Interop
