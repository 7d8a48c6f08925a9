import Interop.Proofs.Declaration.Dump
import Interop.Proofs.Generation.Closure
import Interop.Proofs.Session.Contract

/-! Why runs fail. Each part of a run has its own errors, and only the binding of a library asks for a
unit; so a graph that holds the scanned headers is never found to lack one. -/
namespace Interop

namespace Generation

open Session Work Reading

inductive Cause (configuration : Configuration) (graph : Graph) : GenerationError → Prop where
  | configuration (fault : ConfigurationError) : Cause configuration graph (.invalidConfiguration fault)
  | duplicate (name : String) : Cause configuration graph (.duplicateDeclaration name)
  | collision (enumeration memberName : String) :
      Cause configuration graph (.memberCollision enumeration memberName)
  | type {error : GenerationError} : error.OfType → Cause configuration graph error
  | artifact (name : String) : Cause configuration graph (.artifactCollision name)
  | sink (path : String) : Cause configuration graph (.io path)
  | unmatched {library : Library} : library ∈ configuration.libraries → library.units graph = [] →
      Cause configuration graph (.missingUnit library.name library.header)

variable {configuration : Configuration} {graph : Graph} {error : GenerationError}

section

variable (context : Context)

theorem only_addStruct (struct : Struct) : Only (Cause configuration graph) (context.addStruct struct) := by
  unfold Context.addStruct
  split
  · exact .ok _
  · exact .error (.duplicate _)
  · split
    · exact .ok _
    · split
      · exact .ok _
      · split
        · exact .ok _
        · exact .error (.duplicate _)

theorem only_addEnumeration (enumeration : Enumeration) :
    Only (Cause configuration graph) (context.addEnumeration enumeration) := by
  unfold Context.addEnumeration
  split
  · exact .ok _
  · split
    · exact .ok _
    · split
      · exact .ok _
      · exact .error (.duplicate _)

theorem only_addTypedef (typedef : Typedef) : Only (Cause configuration graph) (context.addTypedef typedef) := by
  unfold Context.addTypedef
  split
  · exact .ok _
  · split
    · exact .ok _
    · exact .error (.duplicate _)

theorem only_insertEnumeration (enumeration : Enumeration) :
    Only (Cause configuration graph) (context.insertEnumeration enumeration) := by
  unfold Context.insertEnumeration
  split
  · exact .ok _
  · split
    · exact .error (.duplicate _)
    · exact .ok _

theorem only_index (other : Graph) : Only (Cause configuration graph) (Context.index other) := by
  refine .foldlM (fun context unit => ?_) _ _
  exact (Only.foldlM only_addStruct _ _).bind fun _ =>
    (Only.foldlM only_addEnumeration _ _).bind fun _ => .foldlM only_addTypedef _ _

end

theorem meets_unifyAt (openings made : List String) (index : Nat) (enumeration : Enumeration) :
    Meets (.errors Context (Cause configuration graph)) (Context.unifyAt openings made index enumeration) := by
  refine .bind .get fun context => ?_
  dsimp only
  split
  · exact .pure _
  · split
    · split
      · exact .pure _
      · refine .bind (.set fun _ => trivial) fun _ => ?_
        split
        · exact .throw fun _ => .collision _ _
        · exact .bind (.set fun _ => trivial) fun _ => .pure _
    · split
      · exact .throw fun _ => .collision _ _
      · refine .bind (.lift fun error _ => only_insertEnumeration context _ error) fun _ => ?_
        exact .bind (.set fun _ => trivial) fun _ => .pure _

theorem meets_aliasTypedef (name : String) (strategy : TypedefStrategy) :
    Meets (.errors Context (Cause configuration graph)) (Context.aliasTypedef name strategy) := by
  refine .bind .get fun context => ?_
  split
  · split
    · exact .pure _
    · refine .bind (.lift fun error _ => only_insertEnumeration context _ error) fun _ => ?_
      exact .set fun _ => trivial
  · exact .pure _

theorem meets_naming (other : Configuration) :
    Meets (.errors Context (Cause configuration graph)) (Context.naming other) := by
  have unifies : Meets (.errors Context (Cause configuration graph)) (Context.unify other.anonymousEnumPrefixes) := by
    refine .bind .get fun context => ?_
    exact (Meets.foldlM (fun made entry _ => meets_unifyAt _ made entry.2 _) []).bind fun _ => .pure _
  refine unifies.bind fun _ => ?_
  exact Meets.forM (fun entry => meets_aliasTypedef entry.1 entry.2) other.typedefStrategies

theorem only_prepareContext (other : Configuration) (other' : Graph) :
    Only (Cause configuration graph) (prepareContext other other') := by
  rw [Context.prepareContext_eq]
  refine (only_index other').bind fun indexed error failed => ?_
  rcases run : outcome (Context.naming other) indexed with ⟨early | ⟨⟩, after⟩
  · rw [run] at failed
    cases failed
    exact (meets_naming other).fails run
  · rw [run] at failed
    cases failed

theorem only_prepare {sink : Sink} : Only (Cause configuration graph) (prepare configuration graph sink) := by
  unfold prepare
  refine Only.bind ?_ fun primitives => (only_prepareContext configuration graph).bind fun context => .ok _
  unfold primitives
  split
  · exact .ok _
  · exact .error (.configuration _)

variable {setting : Setting}

theorem meets_note (event : Event) : Meets (.errors Progress (Cause configuration graph)) (note event) where
  gives _ := trivial
  fails failed := by cases failed

theorem cause_of_write {name : String} {declaration : Declaration} {before after : Progress}
    (failed : Fails (write setting name declaration) before error after) : Cause configuration graph error := by
  rw [Fails, outcome_write] at failed
  split at failed
  · cases failed
    exact .artifact _
  · split at failed <;> cases failed
    exact .sink _

theorem meets_write (name : String) (declaration : Declaration) :
    Meets (.errors Progress (Cause configuration graph)) (write setting name declaration) where
  gives _ := trivial
  fails := cause_of_write

theorem respects_cause (setting : Setting) : Respects setting (.errors Progress (Cause configuration graph)) where
  notes _ _ := trivial
  unknown name _ _ := .type (.tag (.unsupportedName name))
  below _ _ := id
  faulty _ _ _ fault := .type fault.ofType
  refused _ _ _ failed := cause_of_write failed
  written _ _ _ _ _ := trivial

theorem meets_signature (function : Function) :
    Meets (.errors Progress (Cause configuration graph)) (signature setting function) := by
  rw [signature, Session.effects, ← replay_signatureWith (faithful_emit setting)]
  exact meets_replay meets_note (meets_emit (respects_cause setting))
    fun _ _ failed => .type (ofType_of_signatureWith failed)

theorem meets_writePlatform (library : Library) (signatures : List Signature) (binary : Binary) :
    Meets (.errors Progress (Cause configuration graph)) (writePlatform setting library signatures binary) :=
  (meets_write _ _).bind fun _ => meets_write _ _

theorem meets_bindLibrary {library : Library} (configured : library ∈ configuration.libraries)
    (claimed : List String) :
    Meets (.errors Progress (Cause configuration graph)) (bindLibrary setting graph claimed library) := by
  refine .bind (.lift fun error _ failed => ?_) ?_
  · rw [Library.partition] at failed
    split at failed
    · next none =>
      cases failed
      exact .unmatched configured none
    · cases failed
  · rintro ⟨functions, names⟩
    refine (Meets.mapM meets_signature functions).bind fun signatures => ?_
    refine (Meets.forM (meets_writePlatform library signatures) library.binaries).bind fun _ => ?_
    exact (meets_write _ _).bind fun _ => (meets_write _ _).bind fun _ => (meets_note _).bind fun _ => .pure _

theorem meets_writeAll (same : setting.configuration = configuration) :
    Meets (.errors Progress (Cause configuration graph)) (writeAll setting graph) := by
  refine (meets_write _ _).bind fun _ => ?_
  refine (Meets.foldlM (fun claimed library listed => ?_) _).bind fun _ => ?_
  · exact meets_bindLibrary (same ▸ listed) claimed
  · refine .forM (fun name => (meets_register (respects_cause setting) ?_ name).bind fun _ => .pure _) _
    exact fun _ failed => .type (.tag (ofTag_of_followOverrides failed))

/-- A run over a graph fails for one of the causes there are. -/
theorem cause_of_fromGraph {sink : Sink} (failed : (fromGraph configuration graph sink).result = .error error) :
    Cause configuration graph error := by
  cases prepared : prepare configuration graph sink with
  | error early =>
    rw [fromGraph_of_prepare_error prepared] at failed
    cases failed
    exact only_prepare _ prepared
  | ok result =>
    obtain ⟨setting, events⟩ := result
    obtain ⟨same, -⟩ := named_prepare prepared
    rw [fromGraph_of_prepare prepared] at failed
    rcases run : outcome (writeAll setting graph) { Progress.start with events } with ⟨late | ⟨⟩, after⟩
    · rw [run] at failed
      cases failed
      exact (meets_writeAll same).fails run
    · rw [run] at failed
      cases failed

theorem covers_of_scan {dump : Dump} {headers : List String} (success : (dump.scan headers).result = .ok graph) :
    dump.covers headers ∧ graph = ⟨dump.units⟩ :=
  (Dump.scan_eq_ok_iff.mp success).2

/-- Headers are covered exactly if every library has units to be bound to. -/
theorem covers_headers_iff {dump : Dump} : dump.covers configuration.headers ↔
    ∀ library ∈ configuration.libraries, library.units ⟨dump.units⟩ ≠ [] := by
  simp [Dump.covers, Configuration.headers, Library.units]

/-- The libraries of a run find their units if the graph is the scan of a dump for their headers. -/
theorem fromGraph_ne_missingUnit {text : String} {scan : Scan} {sink : Sink}
    (read : (Dump.parse text).map (·.scan configuration.headers) = some scan) (success : scan.result = .ok graph)
    (library header : String) :
    (fromGraph configuration graph sink).result ≠ .error (.missingUnit library header) := by
  obtain ⟨dump, -, rfl⟩ := Option.map_eq_some_iff.mp read
  obtain ⟨covered, rfl⟩ := covers_of_scan success
  intro failed
  generalize missing : GenerationError.missingUnit library header = error at failed
  cases cause_of_fromGraph failed with
  | unmatched configured none => exact covers_headers_iff.mp covered _ configured none
  | type fault =>
    subst missing
    cases fault with
    | tag fault => cases fault
  | configuration | duplicate | collision | artifact | sink => cases missing

/-- A dump whose unit has the header of a library at the end of its path. -/
def treeText : String := "\x7b\"translation_units\": [\x7b\"file_name\": \"include/tree.h\"\x7d]\x7d"

def treeDump : Dump := ⟨.success, [], [⟨"include/tree.h", [], [], [], [], []⟩]⟩

theorem fromGraph_ne_missingUnit_tree :
    (Dump.parse treeText).map (·.scan treeConfiguration.headers) = some ⟨.ok ⟨treeDump.units⟩, []⟩ ∧
    (fromGraph treeConfiguration ⟨treeDump.units⟩ (.memory none)).result ≠
      .error (.missingUnit "Tree" "tree.h") := by
  have parsed : Dump.parse treeText = some treeDump := by decide +kernel
  have covered : treeDump.covers treeConfiguration.headers := by decide +kernel
  have read : (Dump.parse treeText).map (·.scan treeConfiguration.headers) =
      some ⟨.ok ⟨treeDump.units⟩, []⟩ := by
    rw [parsed, Option.map_some, Dump.scan, covered]
    rfl
  exact ⟨read, fromGraph_ne_missingUnit read rfl "Tree" "tree.h"⟩

end Generation

end Interop
