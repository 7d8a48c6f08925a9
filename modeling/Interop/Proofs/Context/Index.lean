import Interop.Proofs.Context.Description

/-! Which graphs can be indexed, and what their contexts hold. A graph is indexed exactly if no two
of its declarations contradict each other; every name then stands for what the graph says of it,
and the order of units and declarations decides nothing but which forward declaration is kept of
a structure that is never defined. -/
namespace Interop.Context

section

variable {graph graph' : Graph} {context : Context}

/-- A graph is indexed exactly if its declarations agree. -/
theorem exists_index_iff : (∃ context, index graph = .ok context) ↔
    ∀ first ∈ graph.entries, ∀ second ∈ graph.entries, first.Agrees second := by
  constructor
  · rintro ⟨context, indexed⟩
    exact (describes_index indexed).agree
  · intro agree
    rw [index_eq]
    exact describes_empty.exists_foldlM agree

theorem struct_mem_entries {struct : Struct} : .struct struct ∈ graph.entries ↔ struct ∈ graph.structs := by
  rw [← Graph.structs_entries, List.mem_filterMap]
  simp

theorem enumeration_mem_entries {enumeration : Enumeration} :
    .enumeration enumeration ∈ graph.entries ↔ enumeration ∈ graph.enums := by
  rw [← Graph.enums_entries, List.mem_filterMap]
  simp

theorem typedef_mem_entries {typedef : Typedef} :
    .typedef typedef ∈ graph.entries ↔ typedef ∈ graph.typedefs := by
  rw [← Graph.typedefs_entries, List.mem_filterMap]
  simp

/-- No two declarations of a graph contradict each other. -/
structure Consistent (graph : Graph) : Prop where
  apart : ∀ struct ∈ graph.structs, ∀ enumeration ∈ graph.enums,
    enumeration.declaredName? ≠ some struct.name
  structs : ∀ struct ∈ graph.structs, ∀ other ∈ graph.structs, struct.name = other.name →
    ¬ struct.incomplete → ¬ other.incomplete → struct = other
  enums : ∀ enumeration ∈ graph.enums, ∀ other ∈ graph.enums, ∀ name,
    enumeration.declaredName? = some name → other.declaredName? = some name → enumeration = other
  typedefs : ∀ typedef ∈ graph.typedefs, ∀ other ∈ graph.typedefs, typedef.name = other.name → typedef = other

theorem consistent_iff : Consistent graph ↔
    ∀ first ∈ graph.entries, ∀ second ∈ graph.entries, first.Agrees second := by
  constructor
  · intro consistent first early second late
    cases first <;> cases second <;>
      simp only [struct_mem_entries, enumeration_mem_entries, typedef_mem_entries] at early late
    · exact consistent.structs _ early _ late
    · exact consistent.apart _ early _ late
    · trivial
    · exact consistent.apart _ late _ early
    · exact consistent.enums _ early _ late
    · trivial
    · trivial
    · trivial
    · exact consistent.typedefs _ early _ late
  · intro agree
    exact {
      apart := fun struct early enumeration late =>
        agree _ (struct_mem_entries.mpr early) _ (enumeration_mem_entries.mpr late)
      structs := fun struct early other late =>
        agree _ (struct_mem_entries.mpr early) _ (struct_mem_entries.mpr late)
      enums := fun enumeration early other late =>
        agree _ (enumeration_mem_entries.mpr early) _ (enumeration_mem_entries.mpr late)
      typedefs := fun typedef early other late =>
        agree _ (typedef_mem_entries.mpr early) _ (typedef_mem_entries.mpr late) }

/-- A graph is indexed exactly if it does not contradict itself. -/
theorem exists_index_iff_consistent : (∃ context, index graph = .ok context) ↔ Consistent graph :=
  exists_index_iff.trans consistent_iff.symm

/-- Contexts that hold the same declarations of a graph, but perhaps other forward declarations
of the structures that it does not define. -/
structure HoldSame (graph : Graph) (context other : Context) : Prop where
  defined : ∀ struct ∈ graph.structs, ¬ struct.incomplete →
    context.struct? struct.name = other.struct? struct.name
  declared : ∀ name, (context.struct? name).isSome = (other.struct? name).isSome
  enums : ∀ name, context.enumeration? name = other.enumeration? name
  typedefs : ∀ name, context.typedef? name = other.typedef? name

/-- Where all candidates are equal, their order does not matter. -/
theorem find?_perm {α : Type} {p : α → Bool} {items items' : List α} (perm : items.Perm items')
    (unique : ∀ item ∈ items, ∀ other ∈ items, p item → p other → item = other) :
    items.find? p = items'.find? p := by
  cases found : items'.find? p with
  | none =>
    rw [List.find?_eq_none] at found ⊢
    exact fun item member => found item (perm.mem_iff.mp member)
  | some item =>
    have member := perm.mem_iff.mpr (List.mem_of_find?_eq_some found)
    have holds := List.find?_some found
    cases first : items.find? p with
    | none => exact absurd holds (List.find?_eq_none.mp first item member)
    | some other =>
      exact congrArg some
        (unique other (List.mem_of_find?_eq_some first) item member (List.find?_some first) holds)

/-- A definition is what its name stands for, wherever it is declared. -/
theorem structNamed?_eq_definition {structs : List Struct} {definition : Struct}
    (member : definition ∈ structs) (complete : ¬ definition.incomplete)
    (unique : ∀ other ∈ structs, other.name = definition.name → ¬ other.incomplete → other = definition) :
    structNamed? structs definition.name = some definition := by
  cases found : structNamed? structs definition.name with
  | none => exact absurd rfl (structNamed?_eq_none.mp found definition member)
  | some other =>
    obtain ⟨listed, name⟩ := mem_of_structNamed? found
    have defined : ¬ other.incomplete := fun forward =>
      complete (incomplete_of_structNamed? found forward definition member rfl)
    rw [unique other listed name defined]

theorem holdSame_of_perm {other : Context} (structs : graph.structs.Perm graph'.structs)
    (enums : graph.enums.Perm graph'.enums) (typedefs : graph.typedefs.Perm graph'.typedefs)
    (indexed : index graph = .ok context) (indexed' : index graph' = .ok other) :
    HoldSame graph context other := by
  have consistent := exists_index_iff_consistent.mp ⟨context, indexed⟩
  refine ⟨fun struct member complete => ?_, fun name => ?_, fun name => ?_, fun name => ?_⟩
  · have unique (other : Struct) (listed : other ∈ graph.structs) (same : other.name = struct.name)
        (defined : ¬ other.incomplete) : other = struct :=
      consistent.structs other listed struct member same defined complete
    rw [struct?_index indexed, struct?_index indexed', structNamed?_eq_definition member complete unique]
    exact (structNamed?_eq_definition (structs.mem_iff.mp member) complete
      fun other listed => unique other (structs.mem_iff.mpr listed)).symm
  · rw [struct?_index indexed, struct?_index indexed', Bool.eq_iff_iff, ← not_iff_not]
    simp only [Bool.not_eq_true, Option.isSome_eq_false_iff, Option.isNone_iff_eq_none, structNamed?_eq_none,
      structs.mem_iff]
  · rw [enumeration?_index indexed, enumeration?_index indexed']
    refine find?_perm enums fun enumeration member other listed own own' => ?_
    exact consistent.enums _ member _ listed name (by simpa using own) (by simpa using own')
  · rw [typedef?_index indexed, typedef?_index indexed']
    refine find?_perm typedefs fun typedef member other listed own own' => ?_
    simp only [decide_eq_true_eq] at own own'
    exact consistent.typedefs _ member _ listed (own.trans own'.symm)

theorem Consistent.perm (consistent : Consistent graph) (structs : graph.structs.Perm graph'.structs)
    (enums : graph.enums.Perm graph'.enums) (typedefs : graph.typedefs.Perm graph'.typedefs) :
    Consistent graph' := by
  refine ⟨?_, ?_, ?_, ?_⟩ <;> simp only [← structs.mem_iff, ← enums.mem_iff, ← typedefs.mem_iff]
  · exact consistent.apart
  · exact consistent.structs
  · exact consistent.enums
  · exact consistent.typedefs

/-- A graph is indexed exactly if no two of its declarations contradict each other. The context then
holds for every name what the graph says of it, lists the names in the order of their first
declarations, and keeps the enumerations without a name in order. Graphs with the same
declarations in another order are indexed alike. -/
theorem index_of_perm (structs : graph.structs.Perm graph'.structs)
    (enums : graph.enums.Perm graph'.enums) (typedefs : graph.typedefs.Perm graph'.typedefs) :
    ((∃ context, index graph = .ok context) ↔ Consistent graph) ∧
    ∀ context, index graph = .ok context →
      (∀ name, context.struct? name = structNamed? graph.structs name) ∧
      (∀ name, context.enumeration? name = enumerationNamed? graph.enums name) ∧
      (∀ name, context.typedef? name = typedefNamed? graph.typedefs name) ∧
      context.knownNames = graph.tagNames.eraseDups ∧ context.knownNames.Nodup ∧
      context.anonymous = graph.anonymousEnums.map (⟨·, none⟩) ∧
      ∃ other, index graph' = .ok other ∧ HoldSame graph context other := by
  refine ⟨exists_index_iff_consistent, fun context indexed => ?_⟩
  have lists := lists_index indexed
  have consistent := (exists_index_iff_consistent.mp ⟨context, indexed⟩).perm structs enums typedefs
  obtain ⟨other, indexed'⟩ := exists_index_iff_consistent.mpr consistent
  exact ⟨struct?_index indexed, enumeration?_index indexed, typedef?_index indexed, lists.names,
    lists.distinct, anonymous_index indexed, other, indexed',
    holdSame_of_perm structs enums typedefs indexed indexed'⟩

def aheadUnit : TranslationUnit where
  fileName := "ahead.h"
  structs := [⟨"Node", [], false, true⟩, ⟨"Opaque", [], false, true⟩]
  enums := [⟨some "Color", .int, [⟨"Red", .signed 0⟩]⟩, ⟨none, .int, [⟨"LOG_A", .signed 1⟩]⟩]
  typedefs := [⟨"Link", .pointer (.tag (.named "Node"))⟩]
  functions := []
  macros := []

def nodeUnit : TranslationUnit where
  fileName := "node.h"
  structs := [⟨"Node", [⟨"next", .pointer (.tag (.named "Node"))⟩], false, false⟩]
  enums := [⟨some "", .int, [⟨"LOG_B", .signed 2⟩]⟩]
  typedefs := [⟨"Link", .pointer (.tag (.named "Node"))⟩]
  functions := []
  macros := []

theorem index_of_perm_swapped :
    (Graph.structs ⟨[aheadUnit, nodeUnit]⟩).Perm (Graph.structs ⟨[nodeUnit, aheadUnit]⟩) ∧
    (Graph.enums ⟨[aheadUnit, nodeUnit]⟩).Perm (Graph.enums ⟨[nodeUnit, aheadUnit]⟩) ∧
    (Graph.typedefs ⟨[aheadUnit, nodeUnit]⟩).Perm (Graph.typedefs ⟨[nodeUnit, aheadUnit]⟩) ∧
    ∃ context other, index ⟨[aheadUnit, nodeUnit]⟩ = .ok context ∧
      index ⟨[nodeUnit, aheadUnit]⟩ = .ok other ∧ HoldSame ⟨[aheadUnit, nodeUnit]⟩ context other ∧
      context.struct? "Node" = nodeUnit.structs.head? ∧ context.knownNames = ["Node", "Opaque", "Color"] := by
  have structs : (Graph.structs ⟨[aheadUnit, nodeUnit]⟩).Perm (Graph.structs ⟨[nodeUnit, aheadUnit]⟩) := by
    decide
  have enums : (Graph.enums ⟨[aheadUnit, nodeUnit]⟩).Perm (Graph.enums ⟨[nodeUnit, aheadUnit]⟩) := by
    decide
  have typedefs : (Graph.typedefs ⟨[aheadUnit, nodeUnit]⟩).Perm (Graph.typedefs ⟨[nodeUnit, aheadUnit]⟩) := by
    decide
  obtain ⟨-, -, -, -, -, -, other, indexed, same⟩ := (index_of_perm structs enums typedefs).2 _ rfl
  exact ⟨structs, enums, typedefs, _, other, rfl, indexed, same, rfl, rfl⟩

-- Literals are compared, not numbers.
example : index ⟨[⟨"color.h", [], [⟨some "Color", .int, [⟨"RED", .signed 5⟩]⟩,
      ⟨some "Color", .int, [⟨"RED", .unsigned 5⟩]⟩], [], [], []⟩]⟩ = .error (.duplicateDeclaration "Color") :=
  rfl

end

end Interop.Context
