import Interop.Generation.Output
import Interop.Proofs.FileTree
import Interop.Proofs.Generation.Closure
import Interop.Proofs.Session.Destination

/-! What a run leaves in its output directory. The directory is cleared only after the headers
were parsed, and then holds the artifacts of the run beside the files that are no artifacts. -/
namespace Interop

open FileTree Work

namespace OutputDirectory

variable {tree made : FileTree} {directory : String} {location : Location} {name text : String}

/-- A directory can be made and listed, and a path leads to all there is in it. -/
structure Usable (tree made : FileTree) (directory : String) (location : Location) : Prop where
  makes : tree.makeDirectories directory = (made, true)
  found : made.directory? directory = some location
  leads : ∀ name, made.lookup (location ++ [name]) ≠ none →
    made.locate? (Path.join directory name) = some (location ++ [name])

theorem artifactPath_eq (directory name : String) :
    artifactPath directory name = Path.join directory (name ++ ".cs") := by
  rw [artifactPath, String.append_assoc]
  rfl

theorem toList_artifact (name : String) : (name ++ ".cs").toList = name.toList ++ ['.', 'c', 's'] := by
  rw [String.toList_append]
  rfl

theorem plain_artifact (whole : '/' ∉ name.toList) : Plain (name ++ ".cs") := by
  have long (short : String) (below : short.toList.length < 3) : name ++ ".cs" ≠ short := by
    rintro rfl
    rw [toList_artifact, List.length_append] at below
    exact absurd below (Nat.not_lt.mpr (Nat.le_add_left 3 _))
  refine ⟨long "" (by decide), long "." (by decide), long ".." (by decide), ?_⟩
  simpa [toList_artifact] using whole

theorem isStale_artifact (filled : name ≠ "") : isStale (name ++ ".cs") := by
  have stem : name.toList.reverse ≠ [] := mt List.reverse_eq_nil_iff.mp (mt String.toList_eq_nil_iff.mp filled)
  obtain ⟨last, rest, reversed⟩ := List.exists_cons_of_ne_nil stem
  rw [isStale, Path.nameExtension?, toList_artifact, List.reverse_append, reversed]
  rfl

theorem lookup_removeAll (tree : FileTree) (location : Location) (names : List String) (name : String) :
    (removeAll tree location names).lookup (location ++ [name]) =
      if name ∈ names then none else tree.lookup (location ++ [name]) := by
  induction names generalizing tree with
  | nil => rfl
  | cons first names ih =>
    change (removeAll (tree.remove (location ++ [first])) location names).lookup _ = _
    rw [ih]
    by_cases same : name = first
    · subst same
      have inner : location ++ [name] ≠ [] := List.append_ne_nil_of_right_ne_nil _ (List.cons_ne_nil _ _)
      simp [lookup_remove_self _ _ inner]
    · have other : location ++ [name] ≠ location ++ [first] := by simpa using same
      simp only [List.mem_cons, same, false_or, lookup_remove_other _ _ _ other]

theorem sameDirectories_removeAll {names : List String}
    (files : ∀ name ∈ names, ¬ tree.isDirectory (location ++ [name])) :
    SameDirectories tree (removeAll tree location names) := by
  induction names generalizing tree with
  | nil => exact .refl tree
  | cons first names ih =>
    have same := sameDirectories_remove (files first List.mem_cons_self)
    refine same.trans (ih fun name member => ?_)
    rw [same.directories]
    exact files name (List.mem_cons_of_mem _ member)

def Storable (directory : String) (tree : FileTree) (contents : List (String × String)) : Prop :=
  ∀ early entry late, contents = early ++ entry :: late →
    ((store directory early tree).write? (artifactPath directory entry.1) "").isSome

/-- The first artifact takes its place in the directory, and the others can be written then. -/
theorem Storable.cons {entry : String × String} {contents : List (String × String)}
    (storable : Storable directory tree (entry :: contents)) (found : tree.directory? directory = some location)
    (whole : '/' ∉ entry.1.toList) :
    let stored := tree.put (location ++ [entry.1 ++ ".cs"]) (.file entry.2)
    SameDirectories tree stored ∧ store directory (entry :: contents) tree = store directory contents stored ∧
      Storable directory stored contents := by
  obtain ⟨written, writes⟩ := Option.isSome_iff_exists.mp (storable [] entry contents rfl)
  obtain ⟨place, leads, held, -⟩ := write?_eq_some_iff.mp writes
  obtain rfl := locate?_join found (plain_artifact whole) (artifactPath_eq _ _ ▸ leads)
  have first : tree.write? (artifactPath directory entry.1) entry.2 =
      some (tree.put (location ++ [entry.1 ++ ".cs"]) (.file entry.2)) :=
    write?_eq_some_iff.mpr ⟨_, leads, held, rfl⟩
  have step (contents : List (String × String)) : store directory (entry :: contents) tree =
      store directory contents (tree.put (location ++ [entry.1 ++ ".cs"]) (.file entry.2)) := by
    rw [store, List.foldl_cons, first]
    rfl
  refine ⟨sameDirectories_put held _, step contents, fun early other late same => ?_⟩
  rw [← step]
  exact storable (entry :: early) other late (by rw [same, List.cons_append])

/-- Artifacts of distinct names replace the files of these names and leave all others as they are. -/
theorem lookup_store {contents : List (String × String)} (storable : Storable directory tree contents)
    (found : tree.directory? directory = some location) (distinct : (contents.map Prod.fst).Nodup)
    (whole : ∀ entry ∈ contents, '/' ∉ entry.1.toList) :
    SameDirectories tree (store directory contents tree) ∧ ∀ name text,
      (store directory contents tree).lookup (location ++ [name]) = some (.file text) ↔
        (tree.lookup (location ++ [name]) = some (.file text) ∧ ∀ entry ∈ contents, name ≠ entry.1 ++ ".cs") ∨
        ∃ entry ∈ contents, name = entry.1 ++ ".cs" ∧ entry.2 = text := by
  induction contents generalizing tree with
  | nil => exact ⟨.refl tree, by simp [store]⟩
  | cons entry contents ih =>
    -- The others are written to a tree with the same directories, so their paths lead where they did.
    obtain ⟨same, step, storable⟩ := storable.cons found (whole entry List.mem_cons_self)
    obtain ⟨fresh, distinct⟩ := List.nodup_cons.mp distinct
    obtain ⟨directories, files⟩ := ih storable ((same.directory?_eq directory).trans found) distinct
      fun other member => whole other (List.mem_cons_of_mem _ member)
    rw [step]
    refine ⟨same.trans directories, fun name text => ?_⟩
    rw [files]
    by_cases own : name = entry.1 ++ ".cs"
    · subst own
      have inner : location ++ [entry.1 ++ ".cs"] ≠ [] :=
        List.append_ne_nil_of_right_ne_nil _ (List.cons_ne_nil _ _)
      have others (other : String × String) (member : other ∈ contents) :
          entry.1 ++ ".cs" ≠ other.1 ++ ".cs" := by
        intro equal
        rw [String.append_left_inj] at equal
        exact fresh (equal ▸ List.mem_map_of_mem member)
      rw [lookup_put_self _ _ _ inner]
      constructor
      · rintro (⟨held, -⟩ | ⟨other, member, equal, -⟩)
        · exact .inr ⟨entry, List.mem_cons_self, rfl, by simpa using held⟩
        · exact absurd equal (others other member)
      · rintro (⟨-, different⟩ | ⟨other, member, equal, rfl⟩)
        · exact absurd rfl (different entry List.mem_cons_self)
        · rcases List.mem_cons.mp member with rfl | later
          · exact .inl ⟨rfl, others⟩
          · exact absurd equal (others other later)
    · have elsewhere : location ++ [name] ≠ location ++ [entry.1 ++ ".cs"] := by simpa using own
      simp [lookup_put_other _ _ _ _ elsewhere, own]

namespace Usable

variable (usable : Usable tree made directory location)

include usable

theorem lookup_file (place : Location) (text : String) :
    made.lookup place = some (.file text) ↔ tree.lookup place = some (.file text) := by
  have same : (tree.makeDirectories directory).1 = made := by rw [usable.makes]
  rw [← same]
  exact lookup_makeDirectories directory

theorem mem_reachable : name ∈ reachable made directory location ↔
    ∃ text, made.lookup (location ++ [name]) = some (.file text) := by
  rw [reachable, List.mem_filter, mem_fileNames]
  constructor
  · rintro ⟨⟨_, member⟩, isFile⟩
    exact (isFile_iff (usable.leads name (lookup_ne_none member))).mp isFile
  · rintro ⟨text, found⟩
    have present : made.lookup (location ++ [name]) ≠ none := by simp [found]
    exact ⟨⟨text, mem_entries found⟩, (isFile_iff (usable.leads name present)).mpr ⟨text, found⟩⟩

/-- A directory without files is ready; one with files is refused or cleared. -/
theorem outcome_prepare (forceClear : Bool) : outcome (prepare directory forceClear) tree =
    let names := reachable made directory location
    if names.isEmpty then (.ok [], made)
    else if forceClear then
      (.ok [.cleared directory (names.filter isStale).length], removeAll made location (names.filter isStale))
    else (.error (.outputNotEmpty directory), made) := by
  rw [prepare, outcome_bind, outcome_get]
  simp only [usable.makes, usable.found, outcome_bind, outcome_set]
  split
  · rfl
  · cases forceClear <;> rfl

/-- A directory that was prepared has all files that are no artifacts, and no artifact. -/
theorem of_prepare {forceClear : Bool} {events : List Event} {cleared : FileTree}
    (prepared : Gives (prepare directory forceClear) tree events cleared) :
    SameDirectories made cleared ∧ ∀ name text, cleared.lookup (location ++ [name]) = some (.file text) ↔
      tree.lookup (location ++ [name]) = some (.file text) ∧ ¬ isStale name := by
  rw [Gives, usable.outcome_prepare] at prepared
  simp only at prepared
  split at prepared
  · next empty =>
    obtain ⟨-, rfl⟩ := Prod.mk.inj prepared
    refine ⟨.refl made, fun name text => ?_⟩
    have absent : ¬ made.lookup (location ++ [name]) = some (.file text) := fun found =>
      List.not_mem_nil (List.isEmpty_iff.mp empty ▸ usable.mem_reachable.mpr ⟨text, found⟩)
    simp [← usable.lookup_file, absent]
  · split at prepared
    · obtain ⟨-, rfl⟩ := Prod.mk.inj prepared
      refine ⟨sameDirectories_removeAll fun name member => ?_, fun name text => ?_⟩
      · obtain ⟨text, found⟩ := usable.mem_reachable.mp (List.mem_filter.mp member).1
        simp [isDirectory, found]
      · rw [lookup_removeAll, ← usable.lookup_file]
        split
        · next member =>
          have stale := (List.mem_filter.mp member).2
          simp [stale]
        · next kept =>
          refine ⟨fun found => ⟨found, fun stale => ?_⟩, And.left⟩
          exact kept (List.mem_filter.mpr ⟨usable.mem_reachable.mpr ⟨text, found⟩, stale⟩)
    · cases prepared

end Usable

end OutputDirectory

def Outcome.contents (outcome : Outcome) : List (String × String) :=
  outcome.artifacts.map fun artifact => (artifact.name, artifact.text)

def Outcome.held (outcome : Outcome) : Table String := Table.ofEntries outcome.contents

namespace Generation

open Session OutputDirectory

variable {configuration : Configuration} {graph : Graph} {sink : Sink} {report : Report}

/-- The configuration is valid, and its headers are parsed to this graph. -/
def Parses (configuration : Configuration) (scan : List String → Except ScanFailure Scan) (graph : Graph) : Prop :=
  configuration.validate = .ok ⟨⟩ ∧ ∃ found, scan configuration.headers = .ok found ∧ found.result = .ok graph

theorem scanHeaders_ok_iff {scan : List String → Except ScanFailure Scan} :
    (scanHeaders configuration scan).1 = .ok graph ↔ Parses configuration scan graph := by
  rw [scanHeaders, Parses]
  rcases configuration.validate with fault | ⟨⟩
  · simp
  · rcases scan configuration.headers with failure | found
    · simp
    · rcases read : found.result with kind | read <;> simp [read, Except.mapError]

theorem prepare_into {setting : Setting} {events : List Event}
    (prepared : prepare configuration graph sink = .ok (setting, events)) :
    setting.sink = sink ∧ ∀ other, prepare configuration graph other = .ok (setting.into other, events) := by
  simp only [prepare] at prepared ⊢
  cases found : primitives configuration with
  | error error => rw [found] at prepared; cases prepared
  | ok targets =>
    cases context : prepareContext configuration graph with
    | error error => simp only [found, context, bind, Except.bind] at prepared; cases prepared
    | ok context =>
      simp only [found, context, bind, Except.bind] at prepared ⊢
      cases prepared
      exact ⟨rfl, fun _ => rfl⟩

theorem names_report (success : (fromGraph configuration graph sink).result = .ok report) :
    (fromGraph configuration graph sink).contents.map Prod.fst = report.artifacts ∧ report.artifacts.Nodup := by
  obtain ⟨setting, events, after, prepared, gives, artifacts, rfl⟩ := fromGraph_ok success
  obtain ⟨rfl, context⟩ := named_prepare prepared
  obtain ⟨used, roots, covers, advance⟩ := serves_writeAll (Context.named_prepareContext context) gives
  rw [Outcome.contents, artifacts, List.map_map]
  exact ⟨rfl, distinct_artifactNames ⟨rfl, rfl, rfl⟩ advance⟩

/-- A run that succeeds with a sink does the same with any sink that accepts everything. -/
theorem fromGraph_into (success : (fromGraph configuration graph sink).result = .ok report) (other : Sink)
    (accepts : ∀ held name, other.accepts held name) :
    (fromGraph configuration graph other).result = .ok report ∧
      (fromGraph configuration graph other).artifacts = (fromGraph configuration graph sink).artifacts ∧
      Accepted sink (fromGraph configuration graph sink).artifacts := by
  obtain ⟨setting, events, after, prepared, gives, artifacts, rfl⟩ := fromGraph_ok success
  obtain ⟨rfl, also⟩ := prepare_into prepared
  have follows := follows_writeAll accepts graph gives
  rw [Gives] at follows
  rw [fromGraph_of_prepare (also other), follows, artifacts]
  exact ⟨rfl, rfl, accepted_writeAll rfl gives⟩

section

variable {scan : List String → Except ScanFailure Scan} {tree made : FileTree} {location : Location}

theorem runInto_failed (failed : ∀ graph, ¬ Parses configuration scan graph) :
    (∃ error, (runInto configuration scan tree).result = .error error) ∧
      (runInto configuration scan tree).tree = tree := by
  rcases scanned : scanHeaders configuration scan with ⟨error | graph, events⟩
  · rw [runInto, scanned]
    exact ⟨⟨error, rfl⟩, rfl⟩
  · exact absurd (scanHeaders_ok_iff.mp (congrArg Prod.fst scanned)) (failed graph)

theorem runInto_refused {error : GenerationError} (parses : Parses configuration scan graph)
    (refused : outcome (OutputDirectory.prepare configuration.outputDir configuration.forceClear) tree =
      (.error error, made)) :
    (runInto configuration scan tree).result = .error error ∧ (runInto configuration scan tree).tree = made := by
  rcases scanned : scanHeaders configuration scan with ⟨failed, events⟩
  rw [← scanHeaders_ok_iff, scanned] at parses
  obtain rfl : failed = .ok graph := parses
  rw [outcome] at refused
  rw [runInto, scanned]
  simp only [refused, and_self]

theorem runInto_prepared {events : List Event} {cleared : FileTree} (parses : Parses configuration scan graph)
    (prepared : Gives (OutputDirectory.prepare configuration.outputDir configuration.forceClear) tree
      events cleared) :
    let ended := fromGraph configuration graph (OutputDirectory.sink cleared configuration.outputDir)
    (runInto configuration scan tree).result = ended.result ∧
      (runInto configuration scan tree).tree = store configuration.outputDir ended.contents cleared := by
  rcases scanned : scanHeaders configuration scan with ⟨failed, reported⟩
  rw [← scanHeaders_ok_iff, scanned] at parses
  obtain rfl : failed = .ok graph := parses
  rw [Gives, outcome] at prepared
  rw [runInto, scanned]
  simp only [prepared, Outcome.contents, and_self]

/-- A sink into a directory has accepted only artifacts that can be written there. -/
theorem storable_of_accepted {directory : String} {ended : Outcome}
    (accepted : Accepted (OutputDirectory.sink tree directory) ended.artifacts) :
    Storable directory tree ended.contents := by
  intro early entry late same
  obtain ⟨front, back, split, rfl, rest⟩ := List.map_eq_append_iff.mp same
  obtain ⟨artifact, others, rfl, rfl, rfl⟩ := List.map_eq_cons_iff.mp rest
  exact accepted front artifact others split

/-- Artifacts that are stored in a cleared directory lie beside the files that are no artifacts. -/
theorem lookup_stored {directory : String} {ended : Outcome} {cleared : FileTree}
    (accepted : Accepted (OutputDirectory.sink cleared directory) ended.artifacts)
    (found : cleared.directory? directory = some location) (distinct : (ended.contents.map Prod.fst).Nodup)
    (plain : ∀ artifact ∈ ended.contents.map Prod.fst, artifact ≠ "" ∧ '/' ∉ artifact.toList)
    (kept : ∀ name text, cleared.lookup (location ++ [name]) = some (.file text) ↔
      tree.lookup (location ++ [name]) = some (.file text) ∧ ¬ isStale name) :
    (store directory ended.contents cleared).directory? directory = some location ∧ ∀ name text,
      (store directory ended.contents cleared).lookup (location ++ [name]) = some (.file text) ↔
        (tree.lookup (location ++ [name]) = some (.file text) ∧ ¬ isStale name) ∨
        ∃ artifact ∈ ended.contents.map Prod.fst, name = artifact ++ ".cs" ∧ ended.held.lookup artifact = some text := by
  obtain ⟨directories, files⟩ := lookup_store (storable_of_accepted accepted) found distinct
    fun entry member => (plain entry.1 (List.mem_map_of_mem member)).2
  refine ⟨(directories.directory?_eq directory).trans found, fun name text => ?_⟩
  have held (artifact : String) : ended.held.lookup artifact = some text ↔ (artifact, text) ∈ ended.contents :=
    Table.lookup_ofEntries_eq_some_iff distinct
  rw [files, kept]
  refine or_congr ⟨And.left, fun other => ⟨other, ?_⟩⟩ ⟨?_, ?_⟩
  · rintro entry member rfl
    exact other.2 (isStale_artifact (plain entry.1 (List.mem_map_of_mem member)).1)
  · rintro ⟨entry, member, rfl, rfl⟩
    exact ⟨entry.1, List.mem_map_of_mem member, rfl, (held entry.1).mpr member⟩
  · rintro ⟨artifact, -, rfl, written⟩
    exact ⟨(artifact, text), (held artifact).mp written, rfl, rfl⟩

/-- A directory that holds a file is refused if it may not be cleared. -/
theorem runInto_notEmpty {name text : String} (parses : Parses configuration scan graph)
    (usable : Usable tree made configuration.outputDir location)
    (found : tree.lookup (location ++ [name]) = some (.file text)) (unforced : configuration.forceClear = false) :
    (runInto configuration scan tree).result = .error (.outputNotEmpty configuration.outputDir) ∧
      (runInto configuration scan tree).tree = made := by
  have present : name ∈ reachable made configuration.outputDir location :=
    usable.mem_reachable.mpr ⟨text, (usable.lookup_file _ _).mpr found⟩
  have filled : ¬ (reachable made configuration.outputDir location).isEmpty := fun empty =>
    List.not_mem_nil (List.isEmpty_iff.mp empty ▸ present)
  apply runInto_refused parses
  rw [usable.outcome_prepare]
  simp [filled, unforced]

/-- A run that fails to parse its headers changes no file. One that finds files and may not clear them
changes none either. One that succeeds leaves the files that are no artifacts, and one file for each of
its artifacts, with the text that a run in memory holds. -/
theorem runInto_effect (configuration : Configuration) (scan : List String → Except ScanFailure Scan)
    (tree : FileTree) :
    ((∀ graph, ¬ Parses configuration scan graph) →
      (∃ error, (runInto configuration scan tree).result = .error error) ∧
        (runInto configuration scan tree).tree = tree) ∧
    ∀ graph made location, Parses configuration scan graph →
      Usable tree made configuration.outputDir location →
      ((∃ name text, tree.lookup (location ++ [name]) = some (.file text)) →
        configuration.forceClear = false →
        (runInto configuration scan tree).result = .error (.outputNotEmpty configuration.outputDir) ∧
        ∀ place text, (runInto configuration scan tree).tree.lookup place = some (.file text) ↔
          tree.lookup place = some (.file text)) ∧
      ∀ report, (runInto configuration scan tree).result = .ok report →
        (∀ artifact ∈ report.artifacts, artifact ≠ "" ∧ '/' ∉ artifact.toList) →
        (fromGraph configuration graph (.memory none)).result = .ok report ∧ report.artifacts.Nodup ∧
        (∀ artifact ∈ report.artifacts,
          ∃ text, (fromGraph configuration graph (.memory none)).held.lookup artifact = some text) ∧
        (runInto configuration scan tree).tree.directory? configuration.outputDir = some location ∧
        ∀ name text, (runInto configuration scan tree).tree.lookup (location ++ [name]) = some (.file text) ↔
          (tree.lookup (location ++ [name]) = some (.file text) ∧ ¬ isStale name) ∨
          ∃ artifact ∈ report.artifacts, name = artifact ++ ".cs" ∧
            (fromGraph configuration graph (.memory none)).held.lookup artifact = some text := by
  refine ⟨runInto_failed, fun graph made location parses usable => ⟨?_, fun report success plain => ?_⟩⟩
  · rintro ⟨name, text, found⟩ unforced
    obtain ⟨result, left⟩ := runInto_notEmpty parses usable found unforced
    exact ⟨result, fun place text => left ▸ usable.lookup_file place text⟩
  · rcases prepared : outcome (OutputDirectory.prepare configuration.outputDir configuration.forceClear) tree with
      ⟨error | events, cleared⟩
    · rw [(runInto_refused parses prepared).1] at success
      cases success
    obtain ⟨result, left⟩ := runInto_prepared parses prepared
    obtain ⟨directories, kept⟩ := usable.of_prepare prepared
    rw [result] at success
    obtain ⟨memory, same, accepted⟩ := fromGraph_into success (.memory none) (by simp [Sink.memory])
    obtain ⟨names, distinct⟩ := names_report success
    have held : (fromGraph configuration graph (.memory none)).held =
        (fromGraph configuration graph (OutputDirectory.sink cleared configuration.outputDir)).held := by
      rw [Outcome.held, Outcome.contents, same]
      rfl
    rw [left, held, ← names]
    rw [← names] at distinct plain
    have found := (directories.directory?_eq configuration.outputDir).trans usable.found
    refine ⟨memory, distinct, fun artifact member => ?_, lookup_stored accepted found distinct plain kept⟩
    obtain ⟨entry, listed, rfl⟩ := List.mem_map.mp member
    exact ⟨entry.2, (Table.lookup_ofEntries_eq_some_iff distinct).mpr listed⟩

def usedTree : FileTree :=
  ⟨[(["out"], .directory), (["out", "notes.txt"], .file "keep"), (["out", "Old.cs"], .file "stale")], []⟩

def treeScan (_ : List String) : Except ScanFailure Scan := .ok ⟨.ok treeGraph, []⟩

def missingScan (_ : List String) : Except ScanFailure Scan := .error (.unreadableDump "tree.json")

theorem usable_usedTree : Usable usedTree usedTree "out" ["out"] := by
  refine ⟨rfl, rfl, fun name present => ?_⟩
  have listed : name = "notes.txt" ∨ name = "Old.cs" := by
    by_contra other
    obtain ⟨notNotes, notOld⟩ := not_or.mp other
    exact present (by simp [FileTree.lookup, usedTree, List.lookup_cons, beq_eq_false_iff_ne.mpr notNotes,
      beq_eq_false_iff_ne.mpr notOld])
  rcases listed with rfl | rfl <;> rfl

def clearingConfiguration : Configuration := { treeConfiguration with forceClear := true }

theorem runInto_effect_usedTree :
    (runInto treeConfiguration missingScan usedTree).tree = usedTree ∧
    (runInto treeConfiguration treeScan usedTree).result = .error (.outputNotEmpty "out") ∧
    (runInto clearingConfiguration treeScan usedTree).result = .ok treeReport ∧
    (runInto clearingConfiguration treeScan usedTree).tree.lookup ["out", "notes.txt"] = some (.file "keep") ∧
    (runInto clearingConfiguration treeScan usedTree).tree.lookup ["out", "Old.cs"] ≠ some (.file "stale") := by
  have fails (graph : Graph) : ¬ Parses treeConfiguration missingScan graph := by
    rintro ⟨-, found, failed, -⟩
    cases failed
  have parses : Parses treeConfiguration treeScan treeGraph := ⟨rfl, _, rfl, rfl⟩
  have clears : Parses clearingConfiguration treeScan treeGraph := ⟨rfl, _, rfl, rfl⟩
  have success : (runInto clearingConfiguration treeScan usedTree).result = .ok treeReport := by
    decide +kernel
  have unchanged := (runInto_effect treeConfiguration missingScan usedTree).1 fails
  have refused := ((runInto_effect treeConfiguration treeScan usedTree).2 treeGraph usedTree ["out"] parses
    usable_usedTree).1 ⟨"notes.txt", "keep", rfl⟩ rfl
  obtain ⟨-, -, -, -, files⟩ := ((runInto_effect clearingConfiguration treeScan usedTree).2 treeGraph usedTree
    ["out"] clears usable_usedTree).2 treeReport success (by decide)
  have notes := (files "notes.txt" "keep").mpr (.inl ⟨rfl, by decide⟩)
  refine ⟨unchanged.2, refused.1, success, notes, fun kept => ?_⟩
  rcases (files "Old.cs" "stale").mp kept with ⟨-, other⟩ | ⟨artifact, listed, same, -⟩
  · exact other (by decide)
  · exact (by decide : ∀ artifact ∈ treeReport.artifacts, "Old.cs" ≠ artifact ++ ".cs") artifact listed same

end

end Generation

end Interop
