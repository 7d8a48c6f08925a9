import Interop.Generation.Basic
import Interop.Proofs.Session.Advance

/-! What the parts of a run ask for. Registration asks for what a name stands for, signatures for
what functions refer to, and the artifacts of a library for nothing more; a part that succeeds has
asked for exactly that, whatever came before it. -/
namespace Interop

section

variable {claimed : List String} {candidates later : List Function} {function : Function}

theorem mem_claimFunctions : function ∈ (claimFunctions claimed candidates).1 ↔
    function.name ∉ claimed ∧ candidates.find? (·.name = function.name) = some function := by
  induction candidates generalizing claimed with
  | nil => simp [claimFunctions]
  | cons first rest ih =>
    rw [claimFunctions, List.find?_cons]
    by_cases same : first.name = function.name
    · by_cases taken : first.name ∈ claimed
      · simp [taken, same ▸ taken, ih]
      · simp [same, same ▸ taken, ih, eq_comm]
    · by_cases taken : first.name ∈ claimed
      · simp [taken, same, ih]
      · have different : function ≠ first := fun equal => same (equal ▸ rfl)
        simp [taken, same, ih, different, Ne.symm same]

theorem claimFunctions_append : claimFunctions claimed (candidates ++ later) =
    let first := claimFunctions claimed candidates
    let second := claimFunctions first.2 later
    (first.1 ++ second.1, second.2) := by
  induction candidates generalizing claimed with
  | nil => rfl
  | cons function rest ih =>
    simp only [List.cons_append, claimFunctions]
    split
    · exact ih
    · rw [ih]
      rfl

def Library.functions (library : Library) (graph : Graph) : List Function :=
  (library.units graph).flatMap (·.functions)

theorem Library.partition_ok {library : Library} {graph : Graph}
    {result : List Function × List String} (found : library.partition graph claimed = .ok result) :
    result = claimFunctions claimed (library.functions graph) := by
  rw [Library.partition] at found
  split at found
  · cases found
  · exact (Except.ok.inj found).symm

end

namespace Session

open Work Reading

/-- A part of a session has asked for exactly the declarations that are referred to, and those
used are among them. -/
def Serves (setting : Setting) (refers : String → Prop) (used : List String)
    (before after : Progress) : Prop :=
  ∃ roots, Covers refers roots used ∧ Advance setting roots before after

variable {setting : Setting} {refers refers' : String → Prop} {used used' : List String}
  {before middle after : Progress}

theorem Serves.congr (serves : Serves setting refers used before after)
    (same : ∀ name, refers name ↔ refers' name) : Serves setting refers' used before after := by
  obtain ⟨roots, covers, advance⟩ := serves
  exact ⟨roots, covers.congr same, advance⟩

theorem Serves.trans (early : Serves setting refers used before middle)
    (late : Serves setting refers' used' middle after) :
    Serves setting (fun name => refers name ∨ refers' name) (used ++ used') before after := by
  obtain ⟨roots, covers, advance⟩ := early
  obtain ⟨roots', covers', advance'⟩ := late
  exact ⟨roots ++ roots', covers.append covers', advance.trans advance'⟩

theorem Serves.supplied (serves : Serves setting refers used before after) : used ⊆ after.registered := by
  obtain ⟨roots, covers, advance⟩ := serves
  exact List.Subset.trans covers.used advance.registered

theorem Serves.nothing (advance : Advance setting [] before after) :
    Serves setting (fun _ => False) [] before after :=
  ⟨[], ⟨List.mem_nil_iff, List.Subset.refl _⟩, advance⟩

/-- Artifacts that declare no structure or enumeration ask for nothing. -/
theorem advance_write {name : String} {declaration : Declaration}
    (gives : Gives (write setting name declaration) before ⟨⟩ after) (untagged : declaration.tag? = none)
    (held : declaration.names ⊆ before.registered) : Advance setting [] before after := by
  obtain ⟨free, -, rfl⟩ := gives_write.mp gives
  have written : Written setting before (before.store (setting.artifact name declaration))
      [setting.artifact name declaration] := by
    refine ⟨rfl, fun artifact member => ?_, fun artifact member tagged => ?_⟩
    · obtain rfl := List.mem_singleton.mp member
      exact held
    · obtain rfl := List.mem_singleton.mp member
      rw [Setting.artifact, untagged] at tagged
      cases tagged
  exact advance_of_registered (List.nil_subset _) rfl written fun tidy => tidy.store free

/-- Steps that ask for nothing as long as some declarations are registered. -/
theorem advance_forM {α : Type} {work : α → Work Progress Unit} {held : List String} {items : List α}
    (each : ∀ item before after, held ⊆ before.registered →
      Gives (work item) before ⟨⟩ after → Advance setting [] before after)
    (start : held ⊆ before.registered) (gives : Gives (items.forM work) before ⟨⟩ after) :
    Advance setting [] before after := by
  induction items generalizing before with
  | nil =>
    obtain ⟨-, rfl⟩ := gives_pure.mp gives
    exact Advance.refl before (List.nil_subset _)
  | cons item items ih =>
    rw [List.forM_eq_forM, List.forM_cons] at gives
    obtain ⟨_, middle, first, rest⟩ := gives_bind.mp gives
    have early := each item before middle start first
    exact early.trans (ih (List.Subset.trans start early.extended) rest)

/-- The steps of binding a library: its functions get their signatures, and then its artifacts are
written, those of the platforms first. -/
theorem steps_of_bindLibrary {graph : Graph} {claimed claimed' : List String} {library : Library}
    (gives : Gives (bindLibrary setting graph claimed library) before claimed' after) :
    claimed' = (claimFunctions claimed (library.functions graph)).2 ∧
      ∃ signatures signed platforms contract facade,
        Gives ((claimFunctions claimed (library.functions graph)).1.mapM (signature setting)) before
          signatures signed ∧
        Gives (library.binaries.forM (writePlatform setting library signatures)) signed ⟨⟩ platforms ∧
        Gives (write setting ("I" ++ library.name)
          (.interface ("I" ++ library.name) signatures setting.constants)) platforms ⟨⟩ contract ∧
        Gives (write setting library.name (.facade library.name ("I" ++ library.name)
          (library.binaries.map (·.platform)) library.defaultPlatform signatures setting.constants))
          contract ⟨⟩ facade ∧
        after = facade.note (.boundLibrary library.name signatures.length
          (library.binaries.map (·.platform)).length) := by
  obtain ⟨partition, _, lifted, gives⟩ := gives_bind.mp gives
  obtain ⟨found, rfl⟩ := gives_lift.mp lifted
  obtain rfl := Library.partition_ok found
  obtain ⟨signatures, signed, resolved, gives⟩ := gives_bind.mp gives
  obtain ⟨_, platforms, written, gives⟩ := gives_bind.mp gives
  obtain ⟨_, contract, interface, gives⟩ := gives_bind.mp gives
  obtain ⟨_, facade, chosen, gives⟩ := gives_bind.mp gives
  obtain ⟨_, noted, reported, gives⟩ := gives_bind.mp gives
  obtain ⟨rfl, rfl⟩ := gives_pure.mp gives
  obtain rfl : facade.note _ = noted := congrArg Prod.snd reported
  exact ⟨rfl, signatures, signed, platforms, contract, facade, resolved, written, interface, chosen, rfl⟩

section

variable (named : setting.context.Named)

include named

theorem advance_replay {reading : Reading α} {value : α}
    (gives : Gives (reading.replay (emit setting)) before value after) :
    Yields reading value reading.entered ∧ Advance setting reading.entered before after :=
  advance_replay_below (fun _ _ _ _ _ emitted => advance_emit named emitted) (Nat.lt_succ_self _) gives

theorem serves_replay {reading : Reading α} {value : α}
    (covers : ∀ names, Yields reading value names → Covers refers names used)
    (gives : Gives (reading.replay (emit setting)) before value after) :
    Serves setting refers used before after := by
  obtain ⟨yields, advance⟩ := advance_replay named gives
  exact ⟨_, covers _ yields, advance⟩

theorem serves_register {name : String} {registration : Registration}
    (gives : Gives (register setting name) before registration after) :
    Serves setting (StandsFor setting name) [registration.name] before after := by
  have entered : Gives ((effects setting).enter name) before registration.name after :=
    gives_bind.mpr ⟨registration, after, gives, gives_pure.mpr ⟨rfl, rfl⟩⟩
  rw [effects, ← replay_effects_enter (faithful_emit setting)] at entered
  exact serves_replay named (fun _ => covers_enter) entered

theorem serves_registerAll {names : List String}
    (gives : Gives (registerAll setting names) before ⟨⟩ after) :
    ∃ used, Serves setting (fun target => ∃ name ∈ names, StandsFor setting name target) used before after := by
  induction names generalizing before with
  | nil =>
    obtain ⟨-, rfl⟩ := gives_pure.mp gives
    exact ⟨[], (Serves.nothing (Advance.refl before (List.nil_subset _))).congr fun _ => by simp⟩
  | cons name names ih =>
    rw [registerAll, List.forM_eq_forM, List.forM_cons] at gives
    obtain ⟨_, middle, first, rest⟩ := gives_bind.mp gives
    obtain ⟨registration, _, registered, done⟩ := gives_bind.mp first
    obtain ⟨-, rfl⟩ := gives_pure.mp done
    obtain ⟨used, late⟩ := ih rest
    exact ⟨_, ((serves_register named registered).trans late).congr fun _ => by simp⟩

theorem serves_signature {function : Function} {result : Signature}
    (gives : Gives (signature setting function) before result after) :
    Serves setting (FunctionRefers setting function) (result.targets.flatMap Target.names) before after := by
  rw [signature, effects, ← replay_signatureWith (faithful_emit setting)] at gives
  exact serves_replay named (fun _ => covers_signatureWith) gives

theorem serves_signatures {functions : List Function} {signatures : List Signature}
    (gives : Gives (functions.mapM (signature setting)) before signatures after) :
    Serves setting (fun name => ∃ function ∈ functions, FunctionRefers setting function name)
      ((signatures.flatMap Signature.targets).flatMap Target.names) before after := by
  induction functions generalizing signatures before with
  | nil =>
    obtain ⟨rfl, rfl⟩ := gives_pure.mp gives
    exact (Serves.nothing (Advance.refl before (List.nil_subset _))).congr fun _ => by simp
  | cons function functions ih =>
    rw [List.mapM_cons] at gives
    obtain ⟨first, middle, early, rest⟩ := gives_bind.mp gives
    obtain ⟨others, _, late, done⟩ := gives_bind.mp rest
    obtain ⟨rfl, rfl⟩ := gives_pure.mp done
    rw [List.flatMap_cons, List.flatMap_append]
    exact ((serves_signature named early).trans (ih late)).congr fun _ => by simp

/-- A library asks for what its own functions refer to. -/
theorem serves_bindLibrary {graph : Graph} {claimed claimed' : List String} {library : Library}
    (gives : Gives (bindLibrary setting graph claimed library) before claimed' after) :
    claimed' = (claimFunctions claimed (library.functions graph)).2 ∧
      ∃ used, Serves setting (fun name => ∃ function ∈ (claimFunctions claimed (library.functions graph)).1,
        FunctionRefers setting function name) used before after := by
  obtain ⟨rfl, signatures, bound, platforms, contract, facade, signed, written, interface, chosen, noted⟩ :=
    steps_of_bindLibrary gives
  have serves := serves_signatures named signed
  have each (binary : Binary) (before after : Progress)
      (held : (signatures.flatMap Signature.targets).flatMap Target.names ⊆ before.registered)
      (gives : Gives (writePlatform setting library signatures binary) before ⟨⟩ after) :
      Advance setting [] before after := by
    obtain ⟨_, middle, native, wrapper⟩ := gives_bind.mp gives
    have early := advance_write native rfl held
    exact early.trans (advance_write wrapper rfl (List.Subset.trans held early.extended))
  have first := advance_forM each serves.supplied written
  have held := List.Subset.trans serves.supplied first.extended
  have second := advance_write interface rfl held
  have third := advance_write chosen rfl (List.Subset.trans held second.extended)
  have fourth : Advance setting [] facade after := noted ▸ advance_note _ facade
  have writes := ((first.trans second).trans third).trans fourth
  exact ⟨rfl, _, (serves.trans (Serves.nothing writes)).congr fun _ => iff_of_eq (or_false _)⟩

theorem serves_libraries {graph : Graph} {libraries : List Library} {claimed claimed' : List String}
    (gives : Gives (libraries.foldlM (bindLibrary setting graph) claimed) before claimed' after) :
    ∃ used, Serves setting (fun name =>
      ∃ function ∈ (claimFunctions claimed (libraries.flatMap (·.functions graph))).1,
        FunctionRefers setting function name) used before after := by
  induction libraries generalizing claimed before with
  | nil =>
    obtain ⟨-, rfl⟩ := gives_pure.mp gives
    exact ⟨[], (Serves.nothing (Advance.refl before (List.nil_subset _))).congr fun _ => by
      simp [claimFunctions]⟩
  | cons library libraries ih =>
    rw [List.foldlM_cons] at gives
    obtain ⟨_, middle, first, rest⟩ := gives_bind.mp gives
    obtain ⟨rfl, used, early⟩ := serves_bindLibrary named first
    obtain ⟨used', late⟩ := ih rest
    refine ⟨_, (early.trans late).congr fun name => ?_⟩
    rw [List.flatMap_cons, claimFunctions_append]
    simp only [List.mem_append, or_and_right, exists_or]

end

end Session

end Interop
