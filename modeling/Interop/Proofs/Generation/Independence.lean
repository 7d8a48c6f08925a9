import Interop.Proofs.Generation.Closure
import Interop.Proofs.Session.Comparison

/-! What a run does not depend on. A structure that nothing refers to is one orphan more and changes
nothing else, whatever its fields are; and the declared type of a member whose name is overridden
is never looked at. Both follow from one comparison of two runs whose contexts are alike. -/
namespace Interop

/-- The names of structures and enumerations that a configuration leads to or gives. -/
def Configuration.tagNames (configuration : Configuration) : List String :=
  configuration.forceTypes ++ configuration.notFoundOverrides.map (·.2) ++
    configuration.nameOverrides.map (·.2) ++ configuration.typedefStrategies.map (·.1) ++
    configuration.anonymousEnumPrefixes

theorem Configuration.mem_tagNames {configuration : Configuration} {name : String} :
    name ∈ configuration.tagNames ↔ name ∈ configuration.forceTypes ∨
      (∃ key, (key, name) ∈ configuration.notFoundOverrides) ∨
      (∃ key, (key, name) ∈ configuration.nameOverrides) ∨
      (∃ strategy, (name, strategy) ∈ configuration.typedefStrategies) ∨
      name ∈ configuration.anonymousEnumPrefixes := by
  simp [tagNames]

namespace Generation

open Session Work

section

variable {change : Member → Member} {hidden : List String} {configuration : Configuration}
  {graph graph' : Graph} {sink : Sink}

/-- Two graphs differ in nothing that a configuration leads to. -/
structure Comparable (change : Member → Member) (hidden : List String) (configuration : Configuration)
    (graph graph' : Graph) : Prop where
  indexed : Matches (Context.Alike change hidden) (Context.index graph) (Context.index graph')
  macros : graph'.macros = graph.macros
  files : graph'.files = graph.files.map (Prod.map id (List.map (·.mapMembers change)))
  names : ∀ m, (change m).name = m.name
  types : ∀ m, configuration.nameOverrides.lookup m.name = none → (change m).type = m.type
  avoid : ∀ type ∈ graph.types, type.Avoids hidden
  visible : ∀ name ∈ configuration.tagNames, name ∉ hidden

theorem Comparable.matches_prepareContext (comparable : Comparable change hidden configuration graph graph') :
    Matches (Context.Alike change hidden) (prepareContext configuration graph)
      (prepareContext configuration graph') := by
  refine Context.matches_prepareContext comparable.indexed (fun opening given => ?_) (fun entry given => ?_)
  · exact comparable.visible opening (Configuration.mem_tagNames.mpr (.inr (.inr (.inr (.inr given)))))
  · exact comparable.visible entry.1
      (Configuration.mem_tagNames.mpr (.inr (.inr (.inr (.inl ⟨entry.2, given⟩)))))

/-- The setting of one run concords with the context of the other. -/
theorem Comparable.concords (comparable : Comparable change hidden configuration graph graph')
    {setting : Setting} (configured : setting.configuration = configuration) {other : Context}
    (prepared : prepareContext configuration graph = .ok setting.context)
    (alike : Context.Alike change hidden setting.context other) : Concords change hidden setting other := by
  subst configured
  obtain ⟨indexed, found, grows⟩ := Context.grows_prepareContext prepared
  exact {
    alike := alike
    names := comparable.names
    types := comparable.types
    fields := by
      intro name struct held m field
      rw [grows.structs, Context.struct?_index found] at held
      exact comparable.avoid m.type (Graph.type_mem_of_struct (mem_of_structNamed? held).1 field)
    typedefs := by
      intro name typedef held
      rw [Context.typedef?, grows.typedefs, ← Context.typedef?, Context.typedef?_index found] at held
      exact comparable.avoid _ (Graph.type_mem_of_typedef (List.mem_of_find?_eq_some held))
    strategies := fun name entry => comparable.visible name
      (Configuration.mem_tagNames.mpr (.inr (.inr (.inr (.inl ⟨_, Table.mem_of_lookup entry⟩)))))
    notFound := fun name target entry => comparable.visible target
      (Configuration.mem_tagNames.mpr (.inr (.inl ⟨name, Table.mem_of_lookup entry⟩)))
    overrides := fun name target entry => comparable.visible target
      (Configuration.mem_tagNames.mpr (.inr (.inr (.inl ⟨name, Table.mem_of_lookup entry⟩)))) }

/-- Runs over comparable graphs fail alike before anything is written, or do the same work with
settings that differ in their contexts only. -/
theorem Comparable.prepare (comparable : Comparable change hidden configuration graph graph') (sink : Sink) :
    (∃ error, Generation.prepare configuration graph sink = .error error ∧
      Generation.prepare configuration graph' sink = .error error) ∨
    ∃ setting other events, Generation.prepare configuration graph sink = .ok (setting, events) ∧
      Generation.prepare configuration graph' sink = .ok (setting.within other, events) ∧
      Context.Alike change hidden setting.context other ∧
      writeAll (setting.within other) graph' = writeAll setting graph := by
  have contexts := comparable.matches_prepareContext
  have extracted : Macro.extract graph' configuration.macroSearches =
      Macro.extract graph configuration.macroSearches := by
    rw [Macro.extract, comparable.macros, Macro.extract]
  rw [Generation.prepare, Generation.prepare, extracted]
  cases primitives configuration with
  | error error => exact .inl ⟨error, rfl, rfl⟩
  | ok targets =>
    cases prepared : prepareContext configuration graph with
    | error error =>
      rw [prepared] at contexts
      generalize prepareContext configuration graph' = result at contexts ⊢
      cases contexts
      exact .inl ⟨error, rfl, rfl⟩
    | ok context =>
      rw [prepared] at contexts
      generalize prepareContext configuration graph' = result at contexts ⊢
      cases contexts with
      | @ok _ other alike =>
        let constants := (Macro.extract graph configuration.macroSearches).1
        let setting : Setting := ⟨configuration, context, targets, constants, sink⟩
        have concords : Concords change hidden setting other := comparable.concords rfl prepared alike
        refine .inr ⟨setting, other, _, rfl, rfl, alike, ?_⟩
        refine writeAll_concords concords comparable.files comparable.avoid fun name forced => ?_
        exact comparable.visible name (Configuration.mem_tagNames.mpr (.inl forced))

end

/-- Other types of members whose names are overridden change nothing of a run. -/
theorem fromGraph_mapMembers {change : Member → Member} {configuration : Configuration} {graph : Graph}
    (names : ∀ m, (change m).name = m.name)
    (types : ∀ m, configuration.nameOverrides.lookup m.name = none → (change m).type = m.type)
    (separates : Separates change graph.structs) (sink : Sink) :
    fromGraph configuration (graph.mapMembers change) sink = fromGraph configuration graph sink := by
  have comparable : Comparable change [] configuration graph (graph.mapMembers change) := {
    indexed := Context.matches_index_mapMembers separates
    macros := Graph.macros_mapMembers change graph
    files := by simp [Graph.files, Graph.mapMembers, TranslationUnit.mapMembers]
    names := names
    types := types
    avoid := fun type _ => type.avoids_nil
    visible := fun _ _ => List.not_mem_nil }
  rcases comparable.prepare sink with ⟨error, failed, failed'⟩ |
    ⟨setting, other, events, prepared, prepared', alike, work⟩
  · rw [fromGraph_of_prepare_error failed, fromGraph_of_prepare_error failed']
  · have reports (progress : Progress) :
        Session.report (setting.within other) progress = Session.report setting progress := by
      rw [Session.report, Session.report, Setting.context_within, alike.orphans_eq]
    rw [fromGraph_of_prepare prepared, fromGraph_of_prepare prepared', work]
    rcases outcome (writeAll setting graph) { Progress.start with events } with ⟨error | done, after⟩
    · rfl
    · simp only [conclude, reports]

/-- An outcome is the same as another one, except that it reports one name more. -/
structure ReportsAlso (name : String) (outcome outcome' : Outcome) : Prop where
  artifacts : outcome'.artifacts = outcome.artifacts
  result : Matches (fun report report' => report'.artifacts = report.artifacts ∧
    ∃ first second, report.orphans = first ++ second ∧ report'.orphans = first ++ name :: second)
    outcome.result outcome'.result

/-- A structure that only the second of two comparable graphs declares is what it reports more. -/
theorem Comparable.reportsAlso {name : String} {configuration : Configuration} {graph graph' : Graph}
    (comparable : Comparable id [name] configuration graph graph') (declared : name ∈ graph'.tagNames)
    (sink : Sink) :
    ReportsAlso name (fromGraph configuration graph sink) (fromGraph configuration graph' sink) := by
  rcases comparable.prepare sink with ⟨error, failed, failed'⟩ |
    ⟨setting, other, events, prepared, prepared', alike, work⟩
  · rw [fromGraph_of_prepare_error failed, fromGraph_of_prepare_error failed']
    exact ⟨rfl, .error error⟩
  · rw [fromGraph_of_prepare prepared, fromGraph_of_prepare prepared', work]
    rcases run : outcome (writeAll setting graph) { Progress.start with events } with ⟨error | ⟨⟩, after⟩
    · exact ⟨rfl, .error error⟩
    · -- Only known names are registered, and the name is known to the second context alone.
      obtain ⟨-, context⟩ := named_prepare prepared
      obtain ⟨-, context'⟩ := named_prepare prepared'
      obtain ⟨used, serves⟩ := serves_writeAll (Context.named_prepareContext context) run
      have least := isLeast_registered rfl serves
      have unregistered : name ∉ after.registered := by
        intro present
        have known := least.1.known name present
        rw [Context.isKnown, alike.unknown name (List.mem_singleton_self name)] at known
        cases known
      obtain ⟨indexed, found, grows⟩ := Context.grows_prepareContext context'
      have lists := Context.lists_index found
      have listed : name ∈ other.knownNames :=
        grows.names.subset (lists.names ▸ List.mem_eraseDups.mpr declared)
      exact ⟨rfl, .ok ⟨rfl, alike.orphans_insert listed (grows.distinct lists.distinct) unregistered⟩⟩

/-- A name that is declared nowhere in a graph, that no type of it names, and that no configured
override, forced type, typedef strategy or opening leads to. -/
structure Unreferenced (configuration : Configuration) (graph : Graph) (name : String) : Prop where
  undeclared : name ∉ graph.tagNames
  unused : ∀ type ∈ graph.types, name ∉ type.tagNames
  unconfigured : name ∉ configuration.tagNames

def graphWith (before : List TranslationUnit) (unit : TranslationUnit) (structs : List Struct)
    (after : List TranslationUnit) : Graph :=
  ⟨before ++ { unit with structs } :: after⟩

/-- A structure that nothing refers to changes nothing of a run but the orphans that it reports. -/
theorem fromGraph_insert {configuration : Configuration} {before after : List TranslationUnit}
    {unit : TranslationUnit} {early late : List Struct} {struct : Struct}
    (unreferenced : Unreferenced configuration (graphWith before unit (early ++ late) after) struct.name)
    (sink : Sink) :
    ReportsAlso struct.name
      (fromGraph configuration (graphWith before unit (early ++ late) after) sink)
      (fromGraph configuration (graphWith before unit (early ++ struct :: late) after) sink) := by
  have entries (structs : List Struct) : (graphWith before unit (early ++ structs) after).entries =
      (before.flatMap (·.entries) ++ early.map .struct) ++
        (structs.map .struct ++ (unit.enums.map .enumeration ++ (unit.typedefs.map .typedef) ++
          after.flatMap (·.entries))) := by
    simp [graphWith, Graph.entries, TranslationUnit.entries]
  have comparable : Comparable id [struct.name] configuration (graphWith before unit (early ++ late) after)
      (graphWith before unit (early ++ struct :: late) after) := {
    indexed := Context.matches_index_insert (entries late) (entries (struct :: late)) unreferenced.undeclared
    macros := by simp [graphWith, Graph.macros]
    files := by simp [graphWith, Graph.files]
    names := fun _ => rfl
    types := fun _ _ => rfl
    avoid := fun type used name named => by
      rw [List.mem_singleton]
      rintro rfl
      exact unreferenced.unused type used named
    visible := fun name given => by
      rw [List.mem_singleton]
      rintro rfl
      exact unreferenced.unconfigured given }
  refine comparable.reportsAlso ?_ sink
  simp [graphWith, Graph.tagNames, TranslationUnit.tagNames]

def growUnit : TranslationUnit where
  fileName := "tree.h"
  structs := []
  enums := []
  typedefs := []
  functions := [⟨"grow", [⟨"node", .pointer (.tag (.named "Node"))⟩], .tag (.named "Node")⟩]
  macros := []

def nodeStruct : Struct := ⟨"Node", [⟨"next", .pointer (.tag (.named "Node"))⟩], false, false⟩

def leafStruct : Struct := ⟨"Leaf", [], false, false⟩

def nowhere : String := "Nowhere"

def strayStruct : Struct :=
  ⟨"Stray", [⟨"gone", .typedef nowhere⟩, ⟨"lost", .tag (.named nowhere)⟩, ⟨"kind", .tag (.anonymous 7)⟩],
    false, false⟩

theorem fromGraph_insert_stray :
    Unreferenced treeConfiguration (graphWith [] growUnit ([nodeStruct] ++ [leafStruct]) []) "Stray" ∧
    (fromGraph treeConfiguration (graphWith [] growUnit ([nodeStruct] ++ [leafStruct]) [])
      (.memory none)).result = .ok treeReport ∧
    ReportsAlso "Stray"
      (fromGraph treeConfiguration (graphWith [] growUnit ([nodeStruct] ++ [leafStruct]) []) (.memory none))
      (fromGraph treeConfiguration (graphWith [] growUnit ([nodeStruct] ++ strayStruct :: [leafStruct]) [])
        (.memory none)) := by
  have unreferenced : Unreferenced treeConfiguration
      (graphWith [] growUnit ([nodeStruct] ++ [leafStruct]) []) strayStruct.name :=
    ⟨by decide, by decide, by decide⟩
  exact ⟨unreferenced, rfl, fromGraph_insert unreferenced (.memory none)⟩

/-- A member with its type covered up if its name is overridden. -/
def veil (overrides : Table String) (m : Member) : Member :=
  if (overrides.lookup m.name).isSome then { m with type := .builtin .void } else m

theorem veil_name (overrides : Table String) (m : Member) : (veil overrides m).name = m.name := by
  rw [veil]
  split <;> rfl

theorem veil_type {overrides : Table String} {m : Member} (unknown : overrides.lookup m.name = none) :
    (veil overrides m).type = m.type := by
  simp [veil, unknown]

/-- Graphs that are the same but for the types of members whose names are overridden give the same
outcome, if no structure is declared twice. -/
theorem fromGraph_of_veiled {configuration : Configuration} {graph graph' : Graph}
    (same : graph.mapMembers (veil configuration.nameOverrides) =
      graph'.mapMembers (veil configuration.nameOverrides))
    (distinct : (graph.structs.map (·.name)).Nodup) (sink : Sink) :
    fromGraph configuration graph sink = fromGraph configuration graph' sink := by
  have distinct' : (graph'.structs.map (·.name)).Nodup := by
    rwa [← Graph.structNames_mapMembers (veil configuration.nameOverrides), ← same,
      Graph.structNames_mapMembers]
  calc fromGraph configuration graph sink
      = fromGraph configuration (graph.mapMembers (veil configuration.nameOverrides)) sink :=
        (fromGraph_mapMembers (veil_name _) (fun _ => veil_type) (separates_of_nodup _ distinct) sink).symm
    _ = fromGraph configuration (graph'.mapMembers (veil configuration.nameOverrides)) sink := by rw [same]
    _ = fromGraph configuration graph' sink :=
        fromGraph_mapMembers (veil_name _) (fun _ => veil_type) (separates_of_nodup _ distinct') sink

def handleGraph (type : CType) : Graph := ⟨[{
  fileName := "tree.h"
  structs := [⟨"Node", [⟨"handle", type⟩], false, false⟩]
  enums := []
  typedefs := []
  functions := [⟨"grow", [⟨"handle", type⟩], .builtin .int⟩]
  macros := [] }]⟩

def handleConfiguration : Configuration := { treeConfiguration with nameOverrides := [("handle", "Node")] }

/-- The type need not have a target. -/
theorem fromGraph_of_veiled_handle :
    (handleGraph (.typedef nowhere)).mapMembers (veil handleConfiguration.nameOverrides) =
      (handleGraph (.builtin .int)).mapMembers (veil handleConfiguration.nameOverrides) ∧
    ((handleGraph (.typedef nowhere)).structs.map (·.name)).Nodup ∧
    (fromGraph handleConfiguration (handleGraph (.typedef nowhere)) (.memory none)).result = .ok
      ⟨["Platform", "Node", "TreeLinuxNative", "TreeLinux", "ITree", "Tree"], []⟩ ∧
    fromGraph handleConfiguration (handleGraph (.typedef nowhere)) (.memory none) =
      fromGraph handleConfiguration (handleGraph (.builtin .int)) (.memory none) :=
  ⟨by decide, by decide, rfl, fromGraph_of_veiled (by decide) (by decide) (.memory none)⟩

end Generation

end Interop
