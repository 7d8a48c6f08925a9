import Interop.CommandLine.Basic
import Interop.Proofs.CommandLine.Arguments
import Interop.Proofs.Generation.Directory

/-! The command line against a run into a directory. The flags come after the file was accepted as it stands, and the
run checks the configuration again. The two checks differ only in the namespace. -/
namespace Interop

open CommandLine

namespace Configuration

/-- What is checked of a configuration beside its namespace. -/
def HasValidParts (configuration : Configuration) : Prop :=
  librariesFault? [] configuration.libraries = none ∧
    configuration.macroSearches.find? (·.opening = "") = none ∧
    ∃ primitives, configuration.primitiveOverrides = .ok primitives

def replaced (configuration : Configuration) (overrides : Overrides) : Configuration :=
  { configuration with
    outputDir := overrides.output.getD configuration.outputDir
    namespaceName := overrides.namespaceName.getD configuration.namespaceName
    forceClear := if overrides.noClear then false else configuration.forceClear }

variable {configuration : Configuration} {overrides : Overrides}

theorem validate_eq_ok_iff : configuration.validate = .ok () ↔
    ¬ Text.isBlankText configuration.namespaceName ∧ configuration.HasValidParts := by
  rw [validate, fault?, HasValidParts]
  by_cases blank : Text.isBlankText configuration.namespaceName
  · simp [blank]
  cases librariesFault? [] configuration.libraries with
  | some fault => simp [blank]
  | none =>
    cases configuration.macroSearches.find? (·.opening = "") with
    | some search => simp [blank]
    | none => cases configuration.primitiveOverrides <;> simp [blank]

/-- No other check reads what the flags replace. -/
theorem hasValidParts_replaced : (configuration.replaced overrides).HasValidParts ↔ configuration.HasValidParts :=
  Iff.rfl

end Configuration

namespace FileTree

variable (tree : FileTree)

theorem locate?_empty : tree.locate? "" = none := by
  rw [locate?, if_pos (.inl rfl)]

theorem read?_empty : tree.read? "" = none := by
  rw [read?, locate?_empty]
  rfl

theorem makeDirectories_empty : tree.makeDirectories "" = (tree, true) := rfl

end FileTree

namespace Generation

variable {configuration : Configuration} {tree : FileTree}

/-- A run that changes no file because it fails. -/
def Fails (ended : DirectoryOutcome) (tree : FileTree) : Prop :=
  (∃ error, ended.result = .error error) ∧ ended.tree = tree

theorem fails_invalid (scan : List String → Except ScanFailure Scan) (invalid : configuration.validate ≠ .ok ()) :
    Fails (runInto configuration scan tree) tree :=
  runInto_failed fun _ parses => invalid parses.1

theorem fails_unreadable {path : String} (unreadable : tree.read? path = none) :
    Fails (runInto configuration (Dump.scanFile tree path) tree) tree := by
  refine runInto_failed fun graph parses => ?_
  obtain ⟨-, found, scanned, -⟩ := parses
  rw [Dump.scanFile, unreadable] at scanned
  cases scanned

/-- No directory has an empty path. -/
theorem fails_noDirectory (scan : List String → Except ScanFailure Scan) (empty : configuration.outputDir = "") :
    Fails (runInto configuration scan tree) tree := by
  by_cases parses : ∃ graph, Parses configuration scan graph
  · obtain ⟨graph, parses⟩ := parses
    have refused : Work.outcome (OutputDirectory.prepare configuration.outputDir configuration.forceClear) tree =
        (.error (.io ""), tree) := by
      rw [empty, OutputDirectory.prepare, Work.outcome_bind, Work.outcome_get]
      simp only [FileTree.makeDirectories_empty, FileTree.directory?, FileTree.locate?_empty, Option.filter_none]
      rfl
    obtain ⟨failed, left⟩ := runInto_refused parses refused
    exact ⟨⟨_, failed⟩, left⟩
  · exact runInto_failed (not_exists.mp parses)

end Generation

namespace CommandLine

open Generation

variable {options : Options} {tree : FileTree} {configuration : Configuration} {arguments : List String}

theorem Overrides.apply_eq (overrides : Overrides) (configuration : Configuration) :
    overrides.apply configuration = configuration.replaced overrides := by
  rw [apply, Configuration.replaced]
  cases overrides.noClear <;> simp

/-- The file is accepted if its own configuration is valid. -/
theorem Options.configuration_eq_ok_iff {text : String} {accepted : Configuration}
    (read : tree.read? options.config = some text)
    (parsed : Configuration.ofText (.ofPath options.config) text = some configuration) :
    options.configuration tree = .ok accepted ↔
      configuration.validate = .ok () ∧ configuration.replaced options.overrides = accepted := by
  rw [Options.configuration, Configuration.loadFile, read]
  simp only [Configuration.load, parsed]
  cases configuration.validate <;> simp [Except.mapError, Overrides.apply_eq]

/-- The arguments stand for these options: they are read as such, or they are the written form, which all options
have. -/
def StandFor (arguments : List String) (options : Options) : Prop :=
  parse arguments = .ok options ∨ arguments = options.written

def Response.IsRefusal (response : Response) (tree : FileTree) : Prop :=
  response.status ≠ 0 ∧ response.tree = tree

/-- A response that says how a run into a directory ended, and leaves its files. -/
structure Response.Tells (response : Response) (directory : String) (ended : DirectoryOutcome) : Prop where
  succeeds : ∀ report, ended.result = .ok report → response.status = 0 ∧ response.output = summary directory report
  fails : ∀ error, ended.result = .error error → response.status ≠ 0
  leaves : response.tree = ended.tree

theorem Response.IsRefusal.tells {response : Response} {ended : DirectoryOutcome} (refusal : response.IsRefusal tree)
    (failed : Fails ended tree) (directory : String) : response.Tells directory ended := by
  obtain ⟨⟨error, failed⟩, left⟩ := failed
  refine ⟨fun report succeeded => ?_, fun _ _ => refusal.1, refusal.2.trans left.symm⟩
  rw [failed] at succeeded
  cases succeeded

theorem isRefusal_usage {error : UsageError} (refused : parse arguments = .error (.usage error)) :
    (run arguments tree).IsRefusal tree := by
  simp [run, refused, Response.IsRefusal]

theorem isRefusal_rejected (parsed : parse arguments = .ok options)
    (rejected : ∀ accepted, options.configuration tree ≠ .ok accepted) : (run arguments tree).IsRefusal tree := by
  cases failed : options.configuration tree with
  | error failure => simp [run, parsed, Options.generate, failed, Response.IsRefusal]
  | ok accepted => exact absurd failed (rejected accepted)

theorem tells_accepted (parsed : parse arguments = .ok options)
    (accepted : options.configuration tree = .ok configuration) :
    (run arguments tree).Tells configuration.outputDir
      (runInto configuration (Dump.scanFile tree options.graph) tree) := by
  cases ended : (runInto configuration (Dump.scanFile tree options.graph) tree).result with
  | error error => constructor <;> simp [run, parsed, Options.generate, accepted, ended]
  | ok report => constructor <;> simp [run, parsed, Options.generate, accepted, ended]

/-- Options have an empty path where their written form is not understood, and no run succeeds with such a path. -/
theorem StandFor.understood_or {text : String} (given : StandFor arguments options)
    (read : tree.read? options.config = some text) (configuration : Configuration) :
    parse arguments = .ok options ∨ (run arguments tree).IsRefusal tree ∧
      Fails (runInto (configuration.replaced options.overrides) (Dump.scanFile tree options.graph) tree) tree := by
  rcases given with understood | rfl
  · exact .inl understood
  by_cases admitted : ∀ entry ∈ options.valued, entry.1.admits entry.2
  · exact .inl (Options.parse_valued admitted)
  obtain ⟨error, stopped⟩ := Options.parse_valued_refused admitted
  refine .inr ⟨isRefusal_usage stopped, ?_⟩
  rw [Options.admits_valued_iff, not_and_or, not_and_or, not_not, not_not, not_not] at admitted
  rcases admitted with config | graph | output
  · rw [config, FileTree.read?_empty] at read
    cases read
  · exact fails_unreadable (graph ▸ tree.read?_empty)
  · refine fails_noDirectory _ ?_
    rw [Configuration.replaced, output]
    rfl

/-- The flags of the command line override the values of the file: the program ends as a run does with the values
replaced, if the file has a namespace of its own. A file without one is refused whatever the flags say. -/
theorem run_overrides {text : String} (given : StandFor arguments options)
    (read : tree.read? options.config = some text)
    (parsed : Configuration.ofText (.ofPath options.config) text = some configuration) :
    let replaced := configuration.replaced options.overrides
    (¬ Text.isBlankText configuration.namespaceName →
      (run arguments tree).Tells replaced.outputDir
        (runInto replaced (Dump.scanFile tree options.graph) tree)) ∧
    (Text.isBlankText configuration.namespaceName → (run arguments tree).IsRefusal tree) ∧
    ((∃ accepted, options.configuration tree = .ok accepted ∧ accepted.validate = .ok ()) ↔
      ¬ Text.isBlankText configuration.namespaceName ∧ replaced.validate = .ok ()) := by
  intro replaced
  have accepts (accepted : Configuration) : options.configuration tree = .ok accepted ↔
      configuration.validate = .ok () ∧ replaced = accepted := Options.configuration_eq_ok_iff read parsed
  have understood := given.understood_or read configuration
  refine ⟨fun named => ?_, fun blank => ?_, ?_⟩
  · rcases understood with understood | ⟨refusal, failed⟩
    · by_cases valid : configuration.validate = .ok ()
      · exact tells_accepted understood ((accepts replaced).mpr ⟨valid, rfl⟩)
      · have rejected := isRefusal_rejected understood fun accepted loaded => valid ((accepts accepted).mp loaded).1
        refine rejected.tells (fails_invalid _ fun also => valid ?_) _
        have parts := Configuration.hasValidParts_replaced.mp (Configuration.validate_eq_ok_iff.mp also).2
        exact Configuration.validate_eq_ok_iff.mpr ⟨named, parts⟩
    · exact refusal.tells failed _
  · rcases understood with understood | ⟨refusal, -⟩
    · exact isRefusal_rejected understood fun accepted loaded =>
        (Configuration.validate_eq_ok_iff.mp ((accepts accepted).mp loaded).1).1 blank
    · exact refusal
  · simp only [accepts, Configuration.validate_eq_ok_iff]
    constructor
    · rintro ⟨_, ⟨⟨named, -⟩, rfl⟩, valid⟩
      exact ⟨named, valid⟩
    · rintro ⟨named, valid⟩
      exact ⟨replaced, ⟨⟨named, Configuration.hasValidParts_replaced.mp valid.2⟩, rfl⟩, valid⟩

def savedTree (text : String) : FileTree :=
  ⟨[(["run.json"], .file text), (["tree.json"], .file "\x7b\x7d")], []⟩

def bareConfiguration (directory namespaceName : String) : Configuration where
  includeDirs := []
  libraries := []
  outputDir := directory
  namespaceName := namespaceName
  forceClear := true
  forceTypes := []
  notFoundOverrides := []
  macroSearches := []
  primitiveTypes := none
  typedefStrategies := []
  nameOverrides := []
  anonymousEnumPrefixes := []

def flags : List String := ["-c", "run.json", "--graph", "tree.json", "-oout", "--namespace=Lib"]

def flagOptions : Options := ⟨"run.json", "tree.json", ⟨some "out", some "Lib", false⟩⟩

def bareReport : Report := ⟨["Platform"], []⟩

def namedText : String := "\x7b\"output_dir\": \"old\", \"namespace\": \"Old\"\x7d"

theorem run_overrides_flags : (run flags (savedTree namedText)).status = 0 ∧
    (run flags (savedTree namedText)).output = "generated 1 artifacts in out (no unreferenced declarations)\n" ∧
    (run flags (savedTree namedText)).tree.isFile "out/Platform.cs" ∧
    ¬ (run flags (savedTree namedText)).tree.isDirectory ["old"] := by
  have given : StandFor flags flagOptions := .inl (by decide)
  have read : (savedTree namedText).read? flagOptions.config = some namedText := by decide +kernel
  have parsed : Configuration.ofText (.ofPath flagOptions.config) namedText =
      some (bareConfiguration "old" "Old") := by
    decide +kernel
  have success : (runInto (bareConfiguration "out" "Lib") (Dump.scanFile (savedTree namedText) "tree.json")
      (savedTree namedText)).result = .ok bareReport := by
    decide +kernel
  obtain ⟨overridden, -⟩ := run_overrides given read parsed
  obtain ⟨succeeds, -, leaves⟩ := overridden (by decide)
  obtain ⟨status, output⟩ := succeeds bareReport success
  refine ⟨status, output, ?_⟩
  rw [leaves]
  decide +kernel

def namelessText : String := "\x7b\"output_dir\": \"out\", \"namespace\": \"\"\x7d"

/-- A namespace among the flags does not make up for one that is missing in the file. -/
theorem not_always_overridden : ¬ ∀ (arguments : List String) (options : Options) (tree : FileTree) (text : String)
    (configuration : Configuration), parse arguments = .ok options → tree.read? options.config = some text →
      Configuration.ofText (.ofPath options.config) text = some configuration →
      (run arguments tree).Tells (configuration.replaced options.overrides).outputDir
        (runInto (configuration.replaced options.overrides) (Dump.scanFile tree options.graph) tree) := by
  intro overridden
  have read : (savedTree namelessText).read? flagOptions.config = some namelessText := by decide +kernel
  have parsed : Configuration.ofText (.ofPath flagOptions.config) namelessText =
      some (bareConfiguration "out" "") := by
    decide +kernel
  have success : (runInto (bareConfiguration "out" "Lib") (Dump.scanFile (savedTree namelessText) "tree.json")
      (savedTree namelessText)).result = .ok bareReport := by
    decide +kernel
  have refused : (run flags (savedTree namelessText)).status = 1 := by decide +kernel
  have tells := overridden flags flagOptions _ _ _ (by decide) read parsed
  have status := (tells.succeeds bareReport success).1
  rw [refused] at status
  cases status

end CommandLine

end Interop
