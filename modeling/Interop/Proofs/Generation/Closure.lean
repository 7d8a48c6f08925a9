import Mathlib.Data.List.Nodup
import Mathlib.Order.Bounds.Basic
import Interop.Proofs.Session.Binding

/-! What a run generates. The structures and enumerations of a successful run are the least set of
known declarations that is closed under references, starting from the bound functions and the forced
types; each is written once, and whatever an artifact names is among them. -/
namespace Interop.Generation

open Session Work

/-- A function is bound if it is the first of its name in the units of the libraries, one library
after another. -/
def Bound (configuration : Configuration) (graph : Graph) (function : Function) : Prop :=
  (configuration.libraries.flatMap (·.functions graph)).find? (·.name = function.name) = some function

/-- Known names with all that bound functions, forced types and the fields of structures among them
refer to. -/
structure Closed (setting : Setting) (graph : Graph) (names : Set String) : Prop where
  known : ∀ name ∈ names, setting.context.isKnown name
  bound : ∀ function, Bound setting.configuration graph function →
    ∀ name, FunctionRefers setting function name → name ∈ names
  forced : ∀ name ∈ setting.configuration.forceTypes, ∀ target, StandsFor setting name target → target ∈ names
  fields : ∀ name ∈ names, ∀ struct, setting.context.struct? name = some struct →
    ∀ m ∈ struct.fields, ∀ target, MemberRefers setting m target → target ∈ names

def declared (artifacts : List Artifact) : List String := artifacts.filterMap (·.declaration.tag?)

theorem asks_iff {setting : Setting} {name target : String} : Asks setting name target ↔
    ∃ struct, setting.context.struct? name = some struct ∧
      ∃ m ∈ struct.fields, MemberRefers setting m target := by
  constructor
  · rintro ⟨declaration, tag, refers⟩
    cases declaration with
    | struct struct => exact ⟨struct, by simp only [Context.struct?, tag], refers⟩
    | enumeration => exact refers.elim
  · rintro ⟨struct, found, refers⟩
    rw [Context.struct?] at found
    split at found
    · next tag =>
      cases found
      exact ⟨_, tag, refers⟩
    · cases found

/-- Whatever a successful run does beyond its setting, it asks for what bound functions and forced
types refer to. -/
theorem serves_writeAll {setting : Setting} {graph : Graph} {before after : Progress}
    (named : setting.context.Named) (gives : Gives (writeAll setting graph) before ⟨⟩ after) :
    ∃ used, Serves setting (fun name =>
      (∃ function, Bound setting.configuration graph function ∧ FunctionRefers setting function name) ∨
      ∃ forced ∈ setting.configuration.forceTypes, StandsFor setting forced name) used before after := by
  obtain ⟨_, middle, platforms, gives⟩ := gives_bind.mp gives
  obtain ⟨_, bound, libraries, forced⟩ := gives_bind.mp gives
  have first := advance_write platforms rfl (List.nil_subset _)
  obtain ⟨used, second⟩ := serves_libraries named libraries
  obtain ⟨used', third⟩ := serves_registerAll named forced
  refine ⟨_, (((Serves.nothing first).trans second).trans third).congr fun name => ?_⟩
  simp only [false_or, mem_claimFunctions, List.not_mem_nil, not_false_eq_true, true_and, Bound]

theorem named_prepare {configuration : Configuration} {graph : Graph} {sink : Sink} {setting : Setting}
    {events : List Event} (prepared : prepare configuration graph sink = .ok (setting, events)) :
    setting.configuration = configuration ∧ prepareContext configuration graph = .ok setting.context := by
  rw [prepare] at prepared
  cases found : primitives configuration with
  | error error => rw [found] at prepared; cases prepared
  | ok targets =>
    cases context : prepareContext configuration graph with
    | error error => simp only [found, context, bind, Except.bind] at prepared; cases prepared
    | ok context =>
      simp only [found, context, bind, Except.bind] at prepared
      cases prepared
      exact ⟨rfl, rfl⟩

section

variable {configuration : Configuration} {graph : Graph} {sink : Sink}

/-- What a prepared run comes to, once its work is done or has failed. -/
def conclude (setting : Setting) : Except GenerationError Unit × Progress → Outcome
  | (.error error, progress) => ⟨.error error, progress.artifacts, progress.events⟩
  | (.ok _, progress) => ⟨.ok (Session.report setting progress), progress.artifacts,
      progress.events ++ closing (Session.report setting progress)⟩

theorem fromGraph_of_prepare {setting : Setting} {events : List Event}
    (prepared : prepare configuration graph sink = .ok (setting, events)) :
    fromGraph configuration graph sink =
      conclude setting (outcome (writeAll setting graph) { Progress.start with events }) := by
  rw [fromGraph, prepared]
  change (match outcome (writeAll setting graph) { Progress.start with events } with
    | (.error error, progress) => (⟨.error error, progress.artifacts, progress.events⟩ : Outcome)
    | (.ok _, progress) => _) = _
  rcases outcome (writeAll setting graph) { Progress.start with events } with ⟨error | done, after⟩ <;> rfl

theorem fromGraph_of_prepare_error {error : GenerationError}
    (failed : prepare configuration graph sink = .error error) :
    fromGraph configuration graph sink = ⟨.error error, [], []⟩ := by
  rw [fromGraph, failed]

/-- A run that succeeds has been prepared and has written all its artifacts. -/
theorem fromGraph_ok {report : Report} (success : (fromGraph configuration graph sink).result = .ok report) :
    ∃ setting events after, prepare configuration graph sink = .ok (setting, events) ∧
      Gives (writeAll setting graph) { Progress.start with events } ⟨⟩ after ∧
      (fromGraph configuration graph sink).artifacts = after.artifacts ∧
      report = Session.report setting after := by
  cases prepared : prepare configuration graph sink with
  | error error =>
    rw [fromGraph_of_prepare_error prepared] at success
    cases success
  | ok result =>
    obtain ⟨setting, events⟩ := result
    rw [fromGraph_of_prepare prepared] at success ⊢
    rcases run : outcome (writeAll setting graph) { Progress.start with events } with ⟨error | ⟨⟩, after⟩
    · rw [run] at success
      cases success
    · rw [run] at success
      exact ⟨setting, events, after, rfl, run, rfl, (Except.ok.inj success).symm⟩

end

section

variable {setting : Setting} {roots : List String} {start after : Progress}
  (named : setting.context.Named) (fresh : start.registered = [] ∧ start.claimed = [] ∧ start.artifacts = [])
  (advance : Advance setting roots start after)

include fresh advance

theorem distinct_artifactNames : after.artifactNames.Nodup := by
  obtain ⟨-, claimed, artifacts⟩ := fresh
  refine (advance.tidy ⟨fun name => ?_, ?_⟩).distinct
  · simp [Progress.artifactNames, claimed, artifacts]
  · simp [Progress.artifactNames, artifacts]

theorem names_subset {artifact : Artifact} (member : artifact ∈ after.artifacts) :
    artifact.declaration.names ⊆ after.registered := by
  obtain ⟨added, written⟩ := advance.written
  rw [written.artifacts, fresh.2.2, List.nil_append] at member
  exact written.names artifact member

theorem exists_artifact {name : String} (present : name ∈ after.registered) :
    ∃ artifact ∈ after.artifacts, artifact.name = name ∧ Makes setting artifact :=
  advance.emitted name present (by rw [fresh.1]; exact List.not_mem_nil)

include named

/-- An artifact that declares a structure or enumeration has its name and is the one of a registered
declaration. -/
theorem registered_of_tag? {artifact : Artifact} (member : artifact ∈ after.artifacts) {name : String}
    (tag : artifact.declaration.tag? = some name) :
    artifact.name = name ∧ name ∈ after.registered := by
  obtain ⟨added, written⟩ := advance.written
  rw [written.artifacts, fresh.2.2, List.nil_append] at member
  obtain ⟨makes, present, -⟩ := written.made artifact member (by rw [tag]; rfl)
  rw [tag?_of_makes named makes] at tag
  obtain rfl := Option.some.inj tag
  exact ⟨rfl, present⟩

theorem mem_declared {name : String} : name ∈ declared after.artifacts ↔ name ∈ after.registered := by
  rw [declared, List.mem_filterMap]
  constructor
  · rintro ⟨artifact, member, tag⟩
    exact (registered_of_tag? named fresh advance member tag).2
  · intro present
    obtain ⟨artifact, member, rfl, makes⟩ := exists_artifact fresh advance present
    exact ⟨artifact, member, tag?_of_makes named makes⟩

end

theorem declared_sublist {artifacts : List Artifact}
    (own : ∀ artifact ∈ artifacts, ∀ name, artifact.declaration.tag? = some name → artifact.name = name) :
    (declared artifacts).Sublist (artifacts.map (·.name)) := by
  induction artifacts with
  | nil => exact List.Sublist.slnil
  | cons artifact artifacts ih =>
    have rest := ih fun other member => own other (List.mem_cons_of_mem _ member)
    rw [declared, List.filterMap_cons, List.map_cons]
    cases tag : artifact.declaration.tag? with
    | none => exact rest.cons _
    | some name =>
      obtain rfl := own artifact List.mem_cons_self name tag
      exact rest.cons_cons _

/-- What a session with these roots registers is the least closed set. -/
theorem isLeast_registered {graph : Graph} {used : List String} {setting : Setting} {start after : Progress}
    (fresh : start.registered = [])
    (serves : Serves setting (fun name =>
      (∃ function, Bound setting.configuration graph function ∧ FunctionRefers setting function name) ∨
      ∃ forced ∈ setting.configuration.forceTypes, StandsFor setting forced name) used start after) :
    IsLeast {names | Closed setting graph names} {name | name ∈ after.registered} := by
  obtain ⟨roots, covers, advance⟩ := serves
  have added (name : String) : name ∉ start.registered := by
    rw [fresh]
    exact List.not_mem_nil
  constructor
  · exact {
      known := by
        intro name present
        obtain ⟨artifact, _, rfl, declaration, _, tag, _, _⟩ := advance.emitted name present (added name)
        exact Context.mem_knownNames.mp (Context.mem_knownNames_of_tag? tag)
      bound := by
        intro function bound name refers
        exact advance.registered ((covers.mem_iff name).mpr (.inl ⟨function, bound, refers⟩))
      forced := by
        intro name forced target stands
        exact advance.registered ((covers.mem_iff target).mpr (.inr ⟨name, forced, stands⟩))
      fields := by
        intro name present struct found m field target refers
        exact advance.closed name present (added name) target (asks_iff.mpr ⟨struct, found, m, field, refers⟩) }
  · intro names closed name present
    obtain ⟨root, member, reaches⟩ := advance.reached name present (added name)
    clear present
    induction reaches with
    | refl =>
      rcases (covers.mem_iff root).mp member with ⟨function, bound, refers⟩ | ⟨forced, listed, stands⟩
      · exact closed.bound function bound root refers
      · exact closed.forced forced listed root stands
    | tail _ asks ih =>
      obtain ⟨struct, found, m, field, refers⟩ := asks_iff.mp asks
      exact closed.fields _ ih struct found m field _ refers

/-- A successful run declares the least set of known names that is closed under references, each of
them once, and reports the other known names in the order of their first declarations. -/
theorem declared_isLeast {configuration : Configuration} {graph : Graph} {sink : Sink} {report : Report}
    (success : (fromGraph configuration graph sink).result = .ok report) :
    ∃ setting events, prepare configuration graph sink = .ok (setting, events) ∧
      IsLeast {names | Closed setting graph names}
        {name | name ∈ declared (fromGraph configuration graph sink).artifacts} ∧
      (declared (fromGraph configuration graph sink).artifacts).Nodup ∧
      (∀ artifact ∈ (fromGraph configuration graph sink).artifacts,
        ∀ name, artifact.declaration.tag? = some name → artifact.name = name) ∧
      report.artifacts = (fromGraph configuration graph sink).artifacts.map (·.name) ∧
      report.artifacts.Nodup ∧
      graph.tagNames.eraseDups <+: setting.context.knownNames ∧
      report.orphans =
        setting.context.knownNames.filter (· ∉ declared (fromGraph configuration graph sink).artifacts) ++
        ((List.range setting.context.anonymous.length).filter fun index =>
          (setting.context.anonymousName? index).isNone).map fun index =>
            (TagReference.anonymous index).display := by
  obtain ⟨setting, events, after, prepared, gives, artifacts, rfl⟩ := fromGraph_ok success
  obtain ⟨rfl, context⟩ := named_prepare prepared
  have named := Context.named_prepareContext context
  obtain ⟨indexed, found, grows⟩ := Context.grows_prepareContext context
  obtain ⟨used, serves⟩ := serves_writeAll named gives
  have least := isLeast_registered rfl serves
  obtain ⟨roots, covers, advance⟩ := serves
  have mem_iff {name : String} : name ∈ declared after.artifacts ↔ name ∈ after.registered :=
    mem_declared named ⟨rfl, rfl, rfl⟩ advance
  have own (artifact : Artifact) (member : artifact ∈ after.artifacts) (name : String)
      (tag : artifact.declaration.tag? = some name) : artifact.name = name :=
    (registered_of_tag? named ⟨rfl, rfl, rfl⟩ advance member tag).1
  have distinct : after.artifactNames.Nodup := distinct_artifactNames ⟨rfl, rfl, rfl⟩ advance
  rw [artifacts]
  refine ⟨setting, events, prepared, ?_, ?_, own, rfl, distinct, ?_, ?_⟩
  · simpa only [mem_iff] using least
  · exact (declared_sublist own).nodup distinct
  · exact (Context.lists_index found).names ▸ grows.names
  · simp only [Session.report, Context.orphans_eq, mem_iff]

/-- A structure that refers to itself and is the type of a parameter and of a result, and one that
nothing refers to. -/
def treeGraph : Graph := ⟨[{
  fileName := "tree.h"
  structs := [⟨"Node", [⟨"next", .pointer (.tag (.named "Node"))⟩], false, false⟩, ⟨"Leaf", [], false, false⟩]
  enums := []
  typedefs := []
  functions := [⟨"grow", [⟨"node", .pointer (.tag (.named "Node"))⟩], .tag (.named "Node")⟩]
  macros := [] }]⟩

def treeConfiguration : Configuration where
  includeDirs := []
  libraries := [⟨"Tree", "tree.h", [⟨.linux, "libtree.so"⟩], none⟩]
  outputDir := "out"
  namespaceName := "Trees"
  forceClear := false
  forceTypes := []
  notFoundOverrides := []
  macroSearches := []
  primitiveTypes := none
  typedefStrategies := []
  nameOverrides := []
  anonymousEnumPrefixes := []

def treeReport : Report :=
  ⟨["Platform", "Node", "TreeLinuxNative", "TreeLinux", "ITree", "Tree"], ["Leaf"]⟩

theorem declared_isLeast_tree :
    (fromGraph treeConfiguration treeGraph (.memory none)).result = .ok treeReport ∧
    ∃ setting events, prepare treeConfiguration treeGraph (.memory none) = .ok (setting, events) ∧
      IsLeast {names | Closed setting treeGraph names} {name | name ∈ ["Node"]} := by
  have success : (fromGraph treeConfiguration treeGraph (.memory none)).result = .ok treeReport := rfl
  obtain ⟨setting, events, prepared, least, -⟩ := declared_isLeast success
  exact ⟨success, setting, events, prepared, least⟩

/-- Whatever an artifact of a successful run names, at any depth of any of its types, is known and
has its own artifact, of which there is one. -/
theorem names_written {configuration : Configuration} {graph : Graph} {sink : Sink} {report : Report}
    (success : (fromGraph configuration graph sink).result = .ok report) :
    ∃ setting events, prepare configuration graph sink = .ok (setting, events) ∧
      ∀ artifact ∈ (fromGraph configuration graph sink).artifacts,
        ∀ target ∈ artifact.declaration.targets, ∀ name ∈ target.names,
          setting.context.isKnown name ∧ report.artifacts.count name = 1 ∧
          ∃ held ∈ (fromGraph configuration graph sink).artifacts, held.name = name ∧
            held.declaration.tag? = some name ∧
            held.text = held.declaration.text configuration.namespaceName := by
  obtain ⟨setting, events, after, prepared, gives, artifacts, rfl⟩ := fromGraph_ok success
  obtain ⟨rfl, context⟩ := named_prepare prepared
  have named := Context.named_prepareContext context
  obtain ⟨used, roots, covers, advance⟩ := serves_writeAll named gives
  rw [artifacts]
  refine ⟨setting, events, prepared, fun artifact member target type name mentioned => ?_⟩
  have present : name ∈ after.registered := names_subset ⟨rfl, rfl, rfl⟩ advance member
    (List.mem_flatMap.mpr ⟨target, type, mentioned⟩)
  obtain ⟨held, written, rfl, makes⟩ := exists_artifact ⟨rfl, rfl, rfl⟩ advance present
  have tag := tag?_of_makes named makes
  obtain ⟨declaration, names, known, yields, text⟩ := makes
  refine ⟨Context.mem_knownNames.mp (Context.mem_knownNames_of_tag? known), ?_, held, written, rfl, tag, text⟩
  exact List.nodup_iff_count_eq_one.mp (distinct_artifactNames ⟨rfl, rfl, rfl⟩ advance) _
    (List.mem_map.mpr ⟨held, written, rfl⟩)

theorem names_written_tree :
    (fromGraph treeConfiguration treeGraph (.memory none)).result = .ok treeReport ∧
    ∃ setting events, prepare treeConfiguration treeGraph (.memory none) = .ok (setting, events) ∧
      ∀ artifact ∈ (fromGraph treeConfiguration treeGraph (.memory none)).artifacts,
        ∀ target ∈ artifact.declaration.targets, ∀ name ∈ target.names, setting.context.isKnown name := by
  have success : (fromGraph treeConfiguration treeGraph (.memory none)).result = .ok treeReport := rfl
  obtain ⟨setting, events, prepared, written⟩ := names_written success
  exact ⟨success, setting, events, prepared, fun artifact member target type name mentioned =>
    (written artifact member target type name mentioned).1⟩

end Interop.Generation
