import Interop.Proofs.Context.Entry
import Interop.Proofs.Generation.Partition
import Interop.Proofs.Session.Comparison

/-! Functions that are declared more than once. A run binds the first declaration of a name, in the order of
its libraries, and does not look at the others: it ends as it would if all of them were like the first, and no
difference between them is an error. -/
namespace Interop

def Graph.mapFunctions (change : Function → Function) (graph : Graph) : Graph :=
  ⟨graph.units.map fun unit => { unit with functions := unit.functions.map change }⟩

namespace Configuration

variable (configuration : Configuration) (graph : Graph)

/-- The functions in the headers of the libraries, in the order in which they are bound. -/
def candidates : List Function := configuration.libraries.flatMap (·.functions graph)

def firstDeclaration (function : Function) : Function :=
  ((configuration.candidates graph).find? (·.name = function.name)).getD function

def Conflicts : Prop :=
  ∃ first ∈ configuration.candidates graph, ∃ second ∈ configuration.candidates graph,
    first.name = second.name ∧ (first.parameters ≠ second.parameters ∨ first.result ≠ second.result)

/-- The graph with all declarations of a function like the first one. -/
def reconciled : Graph := graph.mapFunctions (configuration.firstDeclaration graph)

variable {configuration graph} {function : Function}

theorem name_firstDeclaration : (configuration.firstDeclaration graph function).name = function.name := by
  rw [firstDeclaration]
  cases found : (configuration.candidates graph).find? (·.name = function.name) with
  | none => rfl
  | some first => simpa using List.find?_some found

theorem firstDeclaration_congr {other : Function} (same : function.name = other.name)
    (declared : other ∈ configuration.candidates graph) :
    configuration.firstDeclaration graph function = configuration.firstDeclaration graph other := by
  have present : ((configuration.candidates graph).find? (·.name = other.name)).isSome :=
    List.find?_isSome.mpr ⟨other, declared, decide_eq_true rfl⟩
  obtain ⟨first, found⟩ := Option.isSome_iff_exists.mp present
  rw [firstDeclaration, firstDeclaration, same, found]
  rfl

end Configuration

section

variable {change : Function → Function} {graph : Graph}

theorem Graph.files_mapFunctions :
    (graph.mapFunctions change).files = graph.files.map (Prod.map id (List.map change)) := by
  simp [Graph.files, Graph.mapFunctions]

theorem Graph.entries_mapFunctions : (graph.mapFunctions change).entries = graph.entries := by
  simp [Graph.entries, Graph.mapFunctions, List.flatMap_map, TranslationUnit.entries]

theorem Graph.macros_mapFunctions : (graph.mapFunctions change).macros = graph.macros := by
  simp [Graph.macros, Graph.mapFunctions, List.flatMap_map]

theorem Library.functions_mapFunctions (library : Library) :
    library.functions (graph.mapFunctions change) = (library.functions graph).map change := by
  simp [Library.functions, Library.units, Graph.mapFunctions, List.filter_map, List.flatMap_map, List.map_flatMap,
    Function.comp_def]

end

variable {configuration : Configuration} {graph : Graph}

theorem Configuration.not_conflicts_reconciled :
    ¬ configuration.Conflicts (configuration.reconciled graph) := by
  have candidates : configuration.candidates (configuration.reconciled graph) =
      (configuration.candidates graph).map (configuration.firstDeclaration graph) := by
    simp only [Configuration.candidates, Configuration.reconciled, Library.functions_mapFunctions, List.map_flatMap]
  rintro ⟨first, member, second, member', same, different⟩
  rw [candidates] at member member'
  obtain ⟨function, declared, rfl⟩ := List.mem_map.mp member
  obtain ⟨other, declared', rfl⟩ := List.mem_map.mp member'
  rw [name_firstDeclaration, name_firstDeclaration] at same
  rw [firstDeclaration_congr same declared'] at different
  exact different.elim (· rfl) (· rfl)

namespace Session

open Work

variable {setting : Setting} {claimed : List String} {library : Library}

/-- A library that binds no changed function does not notice the change. -/
theorem bindLibrary_mapFunctions {change : Function → Function}
    (names : ∀ function, (change function).name = function.name)
    (fixed : ∀ function ∈ (claimFunctions claimed (library.functions graph)).1, change function = function) :
    bindLibrary setting (graph.mapFunctions change) claimed library = bindLibrary setting graph claimed library := by
  have same : library.partition (graph.mapFunctions change) claimed = library.partition graph claimed := by
    rw [Library.partition_map names Graph.files_mapFunctions]
    cases found : library.partition graph claimed with
    | error error => rfl
    | ok result =>
      obtain rfl := Library.partition_ok found
      have kept := List.map_congr_left fixed
      rw [List.map_id'] at kept
      simp only [Except.map, Prod.map, kept, id]
  rw [bindLibrary, bindLibrary, same]

/-- Libraries whose turn comes when the names of all earlier functions are claimed bind first declarations
only. -/
theorem outcome_libraries_reconciled {libraries : List Library} {earlier : List Function} {progress : Progress}
    (candidates : configuration.candidates graph = earlier ++ libraries.flatMap (·.functions graph))
    (known : ∀ function ∈ earlier, function.name ∈ claimed) :
    outcome (libraries.foldlM (bindLibrary setting (configuration.reconciled graph)) claimed) progress =
      outcome (libraries.foldlM (bindLibrary setting graph) claimed) progress := by
  induction libraries generalizing claimed earlier progress with
  | nil => rfl
  | cons library libraries ih =>
    rw [List.flatMap_cons, ← List.append_assoc] at candidates
    have fixed : ∀ function ∈ (claimFunctions claimed (library.functions graph)).1,
        configuration.firstDeclaration graph function = function := by
      intro function member
      obtain ⟨fresh, first⟩ := mem_claimFunctions.mp member
      have unknown : earlier.find? (·.name = function.name) = none := by
        rw [List.find?_eq_none]
        intro other present same
        exact fresh (of_decide_eq_true same ▸ known other present)
      rw [Configuration.firstDeclaration, candidates, List.find?_append, List.find?_append, unknown, first]
      rfl
    rw [List.foldlM_cons, List.foldlM_cons, Configuration.reconciled,
      bindLibrary_mapFunctions (fun _ => Configuration.name_firstDeclaration) fixed]
    refine outcome_bind_congr rfl fun claimed' middle bound => ih candidates ?_
    obtain ⟨rfl, -⟩ := steps_of_bindLibrary bound
    intro function member
    rw [mem_claimed_claimFunctions]
    exact (List.mem_append.mp member).imp (known function) fun own => ⟨function, own, rfl⟩

end Session

namespace Generation

open Session Work

variable {sink : Sink}

theorem prepare_mapFunctions (change : Function → Function) :
    prepare configuration (graph.mapFunctions change) sink = prepare configuration graph sink := by
  have context : prepareContext configuration (graph.mapFunctions change) = prepareContext configuration graph := by
    rw [prepareContext, prepareContext, Context.index_eq, Context.index_eq, Graph.entries_mapFunctions]
  rw [prepare, prepare, context, Macro.extract, Macro.extract, Graph.macros_mapFunctions]

/-- A run ends as it does for the graph in which all declarations of a function are like the first one. In
that graph no declarations differ, so differences between them are never an error. -/
theorem fromGraph_reconciled (configuration : Configuration) (graph : Graph) (sink : Sink) :
    fromGraph configuration graph sink = fromGraph configuration (configuration.reconciled graph) sink ∧
      ¬ configuration.Conflicts (configuration.reconciled graph) := by
  refine ⟨?_, Configuration.not_conflicts_reconciled⟩
  have prepared : prepare configuration (configuration.reconciled graph) sink = prepare configuration graph sink :=
    prepare_mapFunctions _
  cases found : prepare configuration graph sink with
  | error error =>
    rw [found] at prepared
    rw [fromGraph_of_prepare_error found, fromGraph_of_prepare_error prepared]
  | ok result =>
    obtain ⟨setting, events⟩ := result
    rw [found] at prepared
    obtain ⟨rfl, -⟩ := named_prepare found
    have written : outcome (writeAll setting (setting.configuration.reconciled graph)) { Progress.start with events } =
        outcome (writeAll setting graph) { Progress.start with events } := by
      rw [writeAll, writeAll]
      refine outcome_bind_congr rfl fun _ middle _ => outcome_bind_congr ?_ fun _ _ _ => rfl
      exact @outcome_libraries_reconciled _ _ _ _ _ [] _ rfl (List.forall_mem_nil _)
    rw [fromGraph_of_prepare found, fromGraph_of_prepare prepared, written]

def growGraph : Graph := ⟨[{
  fileName := "tree.h"
  structs := []
  enums := []
  typedefs := []
  functions := [⟨"grow", [⟨"height", .builtin .int⟩], .builtin .int⟩,
    ⟨"grow", [⟨"height", .builtin .long⟩], .builtin .int⟩]
  macros := [] }]⟩

/-- The second declaration is dropped. -/
theorem not_always_refused : ¬ ∀ (configuration : Configuration) (graph : Graph) (sink : Sink),
    configuration.Conflicts graph → ∃ error, (fromGraph configuration graph sink).result = .error error := by
  intro always
  have conflicts : treeConfiguration.Conflicts growGraph := by
    refine ⟨_, List.mem_cons_self, _, List.mem_cons_of_mem _ List.mem_cons_self, rfl, .inl ?_⟩
    decide
  obtain ⟨error, refused⟩ := always treeConfiguration growGraph (.memory none) conflicts
  have success : (fromGraph treeConfiguration growGraph (.memory none)).result =
      .ok ⟨["Platform", "TreeLinuxNative", "TreeLinux", "ITree", "Tree"], []⟩ := rfl
  rw [success] at refused
  cases refused

end Generation

end Interop
