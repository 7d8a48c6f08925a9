import Mathlib.Data.List.Basic
import Interop.CommandLine.Arguments

/-! Options written as arguments are read back. Each switch with a value is one argument, so the value may be
any text; only a path may not be empty. -/
namespace Interop.CommandLine

def Switch.written (switch : Switch) (value : String) : String := "--" ++ switch.long ++ "=" ++ value

namespace Options

def valued (options : Options) : List (Switch × String) :=
  (.config, options.config) :: (.graph, options.graph) ::
    ((options.overrides.output.map fun directory => (Switch.output, directory)).toList ++
      (options.overrides.namespaceName.map fun name => (Switch.namespaceName, name)).toList)

def written (options : Options) : List String :=
  options.valued.map (fun entry => entry.1.written entry.2) ++
    if options.overrides.noClear then ["--no-clear"] else []

end Options

variable {switch : Switch} {value : String} {given : List (Switch × String)}

theorem steps?_written (valued : switch.takesValue) :
    steps? (switch.written value) = some [.valued switch value] := by
  have spelled : (switch.written value).toList = '-' :: '-' :: (switch.long.toList ++ '=' :: value.toList) := by
    simp [Switch.written]
  have step : longStep (switch.long.toList ++ '=' :: value.toList) = .valued switch (String.ofList value.toList) := by
    cases switch <;> first | rfl | cases valued
  rw [steps?, spelled]
  simp only [step, String.ofList_toList]

theorem written_ne (switch : Switch) (value : String) : switch.written value ≠ "--" := by
  intro same
  have length := congrArg (List.length ∘ String.toList) same
  simp [Switch.written] at length

theorem read_written (valued : switch.takesValue) :
    Draft.read ⟨given, none, false⟩ (switch.written value) = Draft.add ⟨given, none, false⟩ switch value := by
  rw [Draft.read]
  simp only [Bool.false_eq_true, if_false, steps?_written valued, written_ne switch value, List.foldlM_cons,
    List.foldlM_nil]
  exact bind_pure _

/-- A value is added to what was given before. -/
theorem read_fresh (valued : switch.takesValue) (admitted : switch.admits value) (fresh : given.lookup switch = none) :
    Draft.read ⟨given, none, false⟩ (switch.written value) = .ok ⟨(switch, value) :: given, none, false⟩ := by
  rw [read_written valued, Draft.add]
  simp [admitted, fresh]

theorem read_refused (valued : switch.takesValue) (refused : switch.admits value = false) :
    Draft.read ⟨given, none, false⟩ (switch.written value) = .error (.usage (.emptyValue switch)) := by
  rw [read_written valued, Draft.add]
  simp [valued, refused]

section Entries

theorem lookup_eq_none_of_notMem (fresh : switch ∉ given.map Prod.fst) : given.lookup switch = none := by
  rw [List.lookup_eq_none_iff]
  intro entry member
  refine bne_iff_ne.mpr ?_
  rintro rfl
  exact fresh (List.mem_map_of_mem member)

variable {entries : List (Switch × String)}

/-- Entries are read one after the other if no switch is given twice. -/
theorem foldlM_read (valued : ∀ entry ∈ entries, entry.1.takesValue)
    (admitted : ∀ entry ∈ entries, entry.1.admits entry.2)
    (distinct : (entries.map Prod.fst ++ given.map Prod.fst).Nodup) :
    (entries.map fun entry => entry.1.written entry.2).foldlM Draft.read ⟨given, none, false⟩ =
      .ok ⟨entries.reverse ++ given, none, false⟩ := by
  induction entries generalizing given with
  | nil => rfl
  | cons entry entries ih =>
    obtain ⟨valued, others⟩ := List.forall_mem_cons.mp valued
    obtain ⟨admitted, admitted'⟩ := List.forall_mem_cons.mp admitted
    obtain ⟨own, -⟩ := List.nodup_cons.mp distinct
    have fresh := lookup_eq_none_of_notMem fun member => own (List.mem_append_right _ member)
    have later : (entries.map Prod.fst ++ (entry :: given).map Prod.fst).Nodup :=
      List.perm_middle.nodup_iff.mpr distinct
    rw [List.map_cons, List.foldlM_cons, read_fresh valued admitted fresh]
    refine (ih others admitted' later).trans ?_
    simp

/-- The first value that is not admitted is refused. -/
theorem foldlM_read_refused (valued : ∀ entry ∈ entries, entry.1.takesValue) (distinct : (entries.map Prod.fst).Nodup)
    (refused : ∃ entry ∈ entries, entry.1.admits entry.2 = false) :
    ∃ switch, (entries.map fun entry => entry.1.written entry.2).foldlM Draft.read ⟨[], none, false⟩ =
      .error (.usage (.emptyValue switch)) := by
  obtain ⟨bad, found⟩ : ∃ bad, entries.find? (fun entry => !entry.1.admits entry.2) = some bad := by
    refine Option.isSome_iff_exists.mp (List.find?_isSome.mpr ?_)
    simpa using refused
  obtain ⟨rejects, early, late, rfl, admitted⟩ := List.find?_eq_some_iff_append.mp found
  obtain ⟨valued, later⟩ := List.forall_mem_append.mp valued
  have front : (early.map Prod.fst).Nodup := distinct.sublist ((List.sublist_append_left early _).map Prod.fst)
  have read := @foldlM_read [] early valued (by simpa using admitted) (by simpa using front)
  have refusal := @read_refused bad.1 bad.2 (early.reverse ++ []) (later bad List.mem_cons_self)
    (by simpa using rejects)
  refine ⟨bad.1, ?_⟩
  rw [List.map_append, List.foldlM_append, read, List.map_cons]
  change (Draft.read _ _ >>= _) = _
  rw [refusal]
  rfl

end Entries

namespace Options

variable {options : Options}

theorem takesValue_valued (options : Options) : ∀ entry ∈ options.valued, entry.1.takesValue := by
  obtain ⟨config, graph, ⟨output, namespaceName, noClear⟩⟩ := options
  cases output <;> cases namespaceName <;> simp [valued, Switch.takesValue]

theorem nodup_valued (options : Options) : (options.valued.map Prod.fst).Nodup := by
  obtain ⟨config, graph, ⟨output, namespaceName, noClear⟩⟩ := options
  cases output <;> cases namespaceName <;> simp [valued]

/-- Only an empty path is not admitted. -/
theorem admits_valued_iff : (∀ entry ∈ options.valued, entry.1.admits entry.2) ↔
    options.config ≠ "" ∧ options.graph ≠ "" ∧ options.overrides.output ≠ some "" := by
  obtain ⟨config, graph, ⟨output, namespaceName, noClear⟩⟩ := options
  cases output <;> cases namespaceName <;> simp [valued, Switch.admits]

/-- Options are read back from their arguments. -/
theorem parse_valued (admitted : ∀ entry ∈ options.valued, entry.1.admits entry.2) :
    parse options.written = .ok options := by
  have read := @foldlM_read [] _ options.takesValue_valued admitted (by simpa using options.nodup_valued)
  rw [parse, written, List.foldlM_append, read]
  obtain ⟨config, graph, ⟨output, namespaceName, noClear⟩⟩ := options
  cases noClear <;> cases output <;> cases namespaceName <;> rfl

/-- Options with an empty path are refused. -/
theorem parse_valued_refused (refused : ¬ ∀ entry ∈ options.valued, entry.1.admits entry.2) :
    ∃ error, parse options.written = .error (.usage error) := by
  obtain ⟨switch, read⟩ := foldlM_read_refused options.takesValue_valued options.nodup_valued (by simpa using refused)
  refine ⟨.emptyValue switch, ?_⟩
  rw [parse, written, List.foldlM_append, read]
  rfl

end Options

end Interop.CommandLine
