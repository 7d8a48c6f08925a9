import Interop.Proofs.Session.Fault
import Interop.Proofs.Session.Overrides
import Interop.Proofs.Session.Request

/-! Calls after a failed one. A declaration is marked before its fields are resolved, and a call that fails
takes no mark back: the declarations in the making stay registered and are never written. They are a
chain, from the one that was called for to the one that has a fault of its own; apart from these, what is
registered is written. -/
namespace Interop.Session

open Work Reading

section

variable (setting : Setting)

/-- Where a session is after some calls, whether they succeeded or not. -/
def afterCalls (calls : List String) : Progress :=
  calls.foldl (fun progress name => (outcome (register setting name) progress).2) .start

/-- Declarations in the making: each refers to the next, and the last has a fault of its own. -/
structure Stuck (error : GenerationError) (stack : List String) : Prop where
  linked : stack.IsChain (Asks setting)
  fault : ∃ last declaration, stack.getLast? = some last ∧ setting.context.tag? last = some declaration ∧
    DeclarationFault setting declaration error

end

/-- A name is registered between two states, but no artifact of that name is written. -/
def Unwritten (before after : Progress) (name : String) : Prop :=
  name ∈ after.registered ∧ name ∉ before.registered ∧ name ∉ after.artifactNames

section

variable (setting : Setting)

/-- A call fails and leaves a stack of declarations in the making behind. -/
structure Abandons (before : Progress) (name : String) (stack : List String) : Prop where
  stuck : ∃ error, Fails (register setting name) before error (outcome (register setting name) before).2 ∧
    Stuck setting error stack
  starts : ∃ target, StandsFor setting name target ∧ stack.head? = some target
  mem_iff : ∀ other, other ∈ stack ↔ Unwritten before (outcome (register setting name) before).2 other

def Abandoned (calls : List String) (name : String) : Prop :=
  ∃ early call late stack, calls = early ++ call :: late ∧
    Abandons setting (afterCalls setting early) call stack ∧ name ∈ stack

structure Accrues (before after : Progress) : Prop where
  artifacts : before.artifactNames ⊆ after.artifactNames
  tidy : Tidy before → Tidy after
  known : ∀ name ∈ after.registered, name ∈ before.registered ∨ setting.context.isKnown name

structure Resting (progress : Progress) : Prop where
  tidy : Tidy progress
  clean : progress.claimed ⊆ progress.registered
  known : ∀ name ∈ progress.registered, setting.context.isKnown name

end

variable {setting : Setting} {before middle after : Progress} {name target : String} {error : GenerationError}
  {stack calls : List String}

theorem frame_accrues : Frame (Accrues setting) where
  refl progress := ⟨List.Subset.refl _, id, fun _ => .inl⟩
  trans early late := by
    refine ⟨List.Subset.trans early.artifacts late.artifacts, fun tidy => late.tidy (early.tidy tidy), ?_⟩
    intro name present
    rcases late.known name present with former | known
    · exact early.known name former
    · exact .inr known

theorem accrues_note (event : Event) : Keeps (Accrues setting) (note event) :=
  fun _ => ⟨List.Subset.refl _, fun tidy => ⟨tidy.claimed, tidy.distinct⟩, fun _ => .inl⟩

theorem Accrues.of_mark (known : setting.context.isKnown name) (later : Accrues setting (before.mark name) middle) :
    Accrues setting before middle where
  artifacts := later.artifacts
  tidy tidy := later.tidy ⟨tidy.claimed, tidy.distinct⟩
  known other present := by
    rcases later.known other present with marked | known
    · rcases List.mem_cons.mp marked with rfl | former
      · exact .inr known
      · exact .inl former
    · exact .inr known

theorem Accrues.store {artifact : Artifact} (accrues : Accrues setting before middle)
    (free : artifact.name ∉ middle.claimed) : Accrues setting before (middle.store artifact) where
  artifacts := by
    refine List.Subset.trans accrues.artifacts ?_
    rw [Progress.artifactNames, Progress.artifactNames, Progress.store, List.map_append]
    exact List.subset_append_left _ _
  tidy tidy := (accrues.tidy tidy).store free
  known := accrues.known

/-- Work on two states one after another, where the first leaves nothing unwritten. -/
theorem unwritten_iff_of_none (nothing : ∀ other, ¬ Unwritten before middle other) (extended : Extends before middle)
    (kept : middle.artifactNames ⊆ after.artifactNames) :
    Unwritten before after name ↔ Unwritten middle after name := by
  constructor
  · rintro ⟨present, absent, unwritten⟩
    exact ⟨present, fun held => nothing name ⟨held, absent, fun written => unwritten (kept written)⟩, unwritten⟩
  · rintro ⟨present, absent, unwritten⟩
    exact ⟨present, fun held => absent (extended held), unwritten⟩

theorem unwritten_mark_iff {other : String} (different : other ≠ name) :
    Unwritten (before.mark name) after other ↔ Unwritten before after other := by
  have marked : other ∈ (before.mark name).registered ↔ other ∈ before.registered := by
    rw [Progress.mark, List.mem_cons]
    exact ⟨fun held => held.resolve_left different, .inr⟩
  rw [Unwritten, Unwritten, marked]

/-- A declaration in the making is unwritten, and so is what is unwritten below it. -/
theorem mem_cons_iff_unwritten (own : Unwritten before after name)
    (below : ∀ other, other ∈ stack ↔ Unwritten (before.mark name) after other) (other : String) :
    other ∈ name :: stack ↔ Unwritten before after other := by
  rw [List.mem_cons]
  by_cases same : other = name
  · simp [same, own]
  · rw [below, unwritten_mark_iff same]
    simp [same]

/-- Success leaves nothing unwritten. -/
theorem Advance.not_unwritten {roots : List String} (advance : Advance setting roots before after) :
    ¬ Unwritten before after name := by
  rintro ⟨present, absent, unwritten⟩
  obtain ⟨artifact, member, rfl, -⟩ := advance.emitted name present absent
  exact unwritten (List.mem_map_of_mem member)

/-- Emission fails below a declaration in the making or when its artifact is handed over. -/
theorem fails_emit (known : setting.context.isKnown name) (failed : Fails (emit setting name) before error after) :
    name ∉ before.registered ∧ ∃ declaration, setting.context.tag? name = some declaration ∧
      (Fails ((plan setting name declaration).replay (emit setting)) (before.mark name) error after ∨
        ∃ made middle, Gives ((plan setting name declaration).replay (emit setting)) (before.mark name) made middle ∧
          Fails (write setting (artifactName name declaration) made) middle error after) := by
  rw [Fails, outcome_emit] at failed
  split at failed
  · cases failed
  · next fresh =>
    split at failed
    · next unknown => simp [Context.isKnown, unknown] at known
    · next declaration tag =>
      refine ⟨fresh, declaration, tag, ?_⟩
      rcases fails_bind.mp failed with failed | ⟨_, _, _, done⟩
      · rw [emitDeclaration_replay (faithful_emit setting)] at failed
        exact fails_bind.mp failed
      · exact absurd done fails_pure

/-- A replay fails with what the reading ends with, or in a declaration that it asks for. -/
theorem fails_replay {actions : List Action} {result : Except GenerationError α}
    (failed : Fails (replay (emit setting) ⟨actions, result⟩) before error after) :
    (Gives (replay (emit setting) ⟨actions, .ok ⟨⟩⟩) before PUnit.unit after ∧ result = .error error) ∨
      ∃ early target late middle, actions = early ++ .enter target :: late ∧
        Gives (replay (emit setting) ⟨early, .ok ⟨⟩⟩) before PUnit.unit middle ∧
        Fails (emit setting target) middle error after := by
  induction actions generalizing before with
  | nil =>
    rcases fails_bind.mp failed with nothing | ⟨_, _, nothing, ended⟩
    · cases nothing
    · obtain ⟨-, rfl⟩ := gives_pure.mp nothing
      obtain ⟨found, rfl⟩ := fails_lift.mp ended
      exact .inl ⟨rfl, found⟩
  | cons action actions ih =>
    rw [replay_cons] at failed
    rcases fails_bind.mp failed with here | ⟨_, next, first, rest⟩
    · cases action with
      | report event => cases here
      | enter target =>
        rcases fails_bind.mp here with nested | ⟨_, _, _, done⟩
        · exact .inr ⟨[], target, actions, before, rfl, rfl, nested⟩
        · exact absurd done fails_pure
    · rcases ih rest with ⟨performed, found⟩ | ⟨early, target, late, middle, rfl, performed, nested⟩
      · exact .inl ⟨gives_replay_cons.mpr ⟨next, first, performed⟩, found⟩
      · exact .inr ⟨action :: early, target, late, middle, rfl,
          gives_replay_cons.mpr ⟨next, first, performed⟩, nested⟩

theorem mem_entered {reading : Reading α} {early late : List Action}
    (split : reading.actions = early ++ .enter target :: late) : target ∈ reading.entered := by
  rw [entered, split]
  exact List.mem_filterMap.mpr ⟨.enter target, List.mem_append_right _ List.mem_cons_self, rfl⟩

theorem Stuck.single {declaration : TagDeclaration} (tag : setting.context.tag? name = some declaration)
    (fault : DeclarationFault setting declaration error) : Stuck setting error [name] :=
  ⟨List.isChain_singleton name, name, declaration, rfl, tag, fault⟩

theorem Stuck.cons (stuck : Stuck setting error (target :: stack)) (asks : Asks setting name target) :
    Stuck setting error (name :: target :: stack) where
  linked := List.isChain_cons_cons.mpr ⟨asks, stuck.linked⟩
  fault := by
    rw [List.getLast?_cons_cons]
    exact stuck.fault

/-- A declaration in the making is registered and not written. -/
theorem unwritten_own (tidy : Tidy before) (clean : before.claimed ⊆ before.registered)
    (fresh : name ∉ before.registered) (emits : Emits setting (before.mark name) after)
    (accrues : Accrues setting (before.mark name) after) : Unwritten before after name := by
  have tidy := accrues.tidy ⟨tidy.claimed, tidy.distinct⟩
  exact ⟨emits.extended List.mem_cons_self, fresh,
    fun written => emits.not_claimed clean fresh ((tidy.claimed name).mpr written)⟩

theorem afterCalls_concat (calls : List String) (call : String) :
    afterCalls setting (calls ++ [call]) = (outcome (register setting call) (afterCalls setting calls)).2 := by
  simp only [afterCalls, List.foldl_append, List.foldl_cons, List.foldl_nil]

theorem abandoned_concat_iff {call : String} : Abandoned setting (calls ++ [call]) name ↔
    Abandoned setting calls name ∨
      ∃ stack, Abandons setting (afterCalls setting calls) call stack ∧ name ∈ stack := by
  constructor
  · rintro ⟨early, other, late, stack, split, abandons, member⟩
    rcases List.eq_nil_or_concat late with rfl | ⟨rest, last, rfl⟩
    · obtain ⟨rfl, same⟩ := List.append_inj' split rfl
      obtain rfl := (List.cons.inj same).1
      exact .inr ⟨stack, abandons, member⟩
    · rw [List.concat_eq_append, ← List.cons_append, ← List.append_assoc] at split
      obtain ⟨rfl, -⟩ := List.append_inj' split rfl
      exact .inl ⟨early, other, rest, stack, rfl, abandons, member⟩
  · rintro (⟨early, other, late, stack, rfl, abandons, member⟩ | ⟨stack, abandons, member⟩)
    · exact ⟨early, other, late ++ [call], stack, by simp, abandons, member⟩
    · exact ⟨calls, call, [], stack, rfl, abandons, member⟩

section

variable (named : setting.context.Named) (accepts : ∀ contents name, setting.sink.accepts contents name = true)

include named accepts

theorem accrues_emit (name : String) : Keeps (Accrues setting) (emit setting name) := by
  refine keeps_emitWithin setting frame_accrues accrues_note ?_ _ name
  intro name declaration before middle tag fresh later
  have accrues := later.of_mark (by simp [Context.isKnown, tag])
  refine ⟨accrues, fun made _ => ?_⟩
  rw [outcome_write, artifactName_eq named tag, accepts]
  split
  · exact accrues
  · next free => exact accrues.store free

theorem accrues_register (name : String) : Keeps (Accrues setting) (register setting name) :=
  keeps_register frame_accrues (accrues_emit named accepts) name

theorem accrues_replay (reading : Reading α) : Keeps (Accrues setting) (reading.replay (emit setting)) :=
  keeps_replay frame_accrues accrues_note (accrues_emit named accepts) reading

/-- By induction on how many names are left to register: what was asked for before the failure is written,
and below it lies a shorter stack. -/
theorem stuck_of_emit (known : setting.context.isKnown name) (tidy : Tidy before)
    (clean : before.claimed ⊆ before.registered) (failed : Fails (emit setting name) before error after) :
    ∃ rest, Stuck setting error (name :: rest) ∧ ∀ other, other ∈ name :: rest ↔ Unwritten before after other := by
  generalize left : unregistered setting.context before = count
  induction count using Nat.strongRecOn generalizing name before with
  | ind count ih =>
    subst left
    obtain ⟨fresh, declaration, tag, stopped⟩ := fails_emit known failed
    rcases stopped with unread | ⟨made, middle, replayed, refused⟩
    · rcases fails_replay unread with ⟨performed, found⟩ | ⟨early, target, late, middle, split, performed, nested⟩
      · have emits := (emits_replay named _).of_gives performed
        have accrues := (accrues_replay named accepts _).of_gives performed
        obtain ⟨-, advance⟩ := advance_replay named performed
        have own := unwritten_own tidy clean fresh emits accrues
        refine ⟨[], .single tag (fault_of_plan found), mem_cons_iff_unwritten own fun other => ?_⟩
        exact ⟨fun member => absurd member List.not_mem_nil, fun unwritten => absurd unwritten advance.not_unwritten⟩
      · have emits := (emits_replay named _).of_gives performed
        have accrues := (accrues_replay named accepts _).of_gives performed
        obtain ⟨-, advance⟩ := advance_replay named performed
        obtain ⟨refers, below⟩ := within_plan name declaration target (mem_entered split)
        have fewer := (unregistered_anti setting.context emits.extended).trans_lt (unregistered_mark known fresh)
        obtain ⟨rest, stuck, mem_iff⟩ := ih _ fewer below (accrues.tidy ⟨tidy.claimed, tidy.distinct⟩)
          (emits.clean (List.Subset.trans clean (extends_mark before name))) nested rfl
        have emits' := (emits_emit named target).of_fails nested
        have accrues' := (accrues_emit named accepts target).of_fails nested
        have own := unwritten_own tidy clean fresh (frame_emits.trans emits emits')
          (frame_accrues.trans accrues accrues')
        refine ⟨target :: rest, stuck.cons ⟨declaration, tag, refers⟩, mem_cons_iff_unwritten own fun other => ?_⟩
        rw [mem_iff]
        exact (unwritten_iff_of_none (fun _ => advance.not_unwritten) advance.extended accrues'.artifacts).symm
    · -- no artifact of that name is there, and the sink accepts all
      have free := ((emits_replay named _).of_gives replayed).not_claimed clean fresh
      rw [Fails, outcome_write, artifactName_eq named tag, if_neg free, accepts] at refused
      cases refused

/-- A call that fails leaves a stack behind, or the session as it was. -/
theorem abandons_of_register (resting : Resting setting before)
    (failed : Fails (register setting name) before error after) :
    (∀ target, ¬ StandsFor setting name target) ∧ after = before ∨ ∃ stack, Abandons setting before name stack := by
  have ends : (outcome (register setting name) before).2 = after := congrArg Prod.snd failed
  have stuck {target : String} (stands : StandsFor setting name target)
      (emitted : Fails (emit setting target) before error after) : ∃ stack, Abandons setting before name stack := by
    obtain ⟨rest, stuck, mem_iff⟩ := stuck_of_emit named accepts stands.isKnown resting.tidy resting.clean emitted
    exact ⟨target :: rest, ⟨error, ends ▸ failed, stuck⟩, ⟨target, stands, rfl⟩, ends ▸ mem_iff⟩
  by_cases known : setting.context.isKnown name
  · rw [register_of_known known] at failed
    exact .inr (stuck (.known known) failed)
  cases redirected : redirect setting name with
  | ok target =>
    have stands := (redirect_eq_ok_iff known).mp redirected
    rw [register_of_standsFor known stands, register_of_known stands.isKnown] at failed
    rcases fails_bind.mp failed with emitted | ⟨_, _, _, done⟩
    · exact .inr (stuck stands emitted)
    · exact absurd done fails_pure
  | error other =>
    refine .inl ⟨fun target stands => ?_, ?_⟩
    · cases redirected.symm.trans ((redirect_eq_ok_iff known).mpr stands)
    · exact congrArg Prod.snd (failed.symm.trans (fails_register known redirected before))

theorem Resting.register (resting : Resting setting before) (name : String) :
    Resting setting (outcome (register setting name) before).2 where
  tidy := (accrues_register named accepts name before).tidy resting.tidy
  clean := (emits_register named name before).clean resting.clean
  known other present := by
    rcases (accrues_register named accepts name before).known other present with former | known
    · exact resting.known other former
    · exact known

theorem resting_afterCalls (calls : List String) : Resting setting (afterCalls setting calls) := by
  induction calls using List.reverseRecOn with
  | nil => exact ⟨tidy_start, List.Subset.refl _, nofun⟩
  | append_singleton calls call ih =>
    rw [afterCalls_concat]
    exact ih.register named accepts call

/-- What a call registers is written, or the call fails and abandons it. -/
theorem unwritten_register_iff (resting : Resting setting before) :
    Unwritten before (outcome (register setting target) before).2 name ↔
      ∃ stack, Abandons setting before target stack ∧ name ∈ stack := by
  constructor
  · intro unwritten
    rcases run : outcome (register setting target) before with ⟨error | registration, after⟩
    · rw [run] at unwritten
      rcases abandons_of_register named accepts resting run with ⟨-, rfl⟩ | ⟨stack, abandons⟩
      · exact absurd unwritten.1 unwritten.2.1
      · refine ⟨stack, abandons, (abandons.mem_iff name).mpr ?_⟩
        rwa [run]
    · rw [run] at unwritten
      obtain ⟨roots, -, advance⟩ := serves_register named run
      exact absurd unwritten advance.not_unwritten
  · rintro ⟨stack, abandons, member⟩
    exact (abandons.mem_iff name).mp member

/-- Later calls neither write what an earlier one abandoned nor lose what was written: by induction on the
calls, the names registered without an artifact are those abandoned. -/
theorem not_written_iff_abandoned (calls : List String) (name : String) :
    name ∈ (afterCalls setting calls).registered ∧ name ∉ (afterCalls setting calls).artifactNames ↔
      Abandoned setting calls name := by
  induction calls using List.reverseRecOn with
  | nil => simp [afterCalls, Progress.start, Abandoned]
  | append_singleton calls call ih =>
    have resting := resting_afterCalls named accepts calls
    have emits := emits_register named call (afterCalls setting calls)
    have accrues := accrues_register named accepts call (afterCalls setting calls)
    have tidy := (resting.register named accepts call).tidy
    rw [abandoned_concat_iff, ← unwritten_register_iff named accepts resting, ← ih, afterCalls_concat]
    constructor
    · rintro ⟨present, unwritten⟩
      by_cases held : name ∈ (afterCalls setting calls).registered
      · exact .inl ⟨held, fun written => unwritten (accrues.artifacts written)⟩
      · exact .inr ⟨present, held, unwritten⟩
    · rintro (⟨held, unwritten⟩ | ⟨present, -, unwritten⟩)
      · refine ⟨emits.extended held, fun written => ?_⟩
        rcases emits.claimed name ((tidy.claimed name).mpr written) with former | ⟨absent, -⟩
        · exact unwritten ((resting.tidy.claimed name).mp former)
        · exact absent held
      · exact ⟨present, unwritten⟩

end

/-- Only a registered name is answered with an earlier call. -/
theorem gives_alreadyEmitted {other : String}
    (gives : Gives (register setting name) before (.alreadyEmitted other) after) :
    other = name ∧ after = before ∧ name ∈ before.registered := by
  unfold register registerBy at gives
  split at gives
  · rcases gives_emit.mp gives with ⟨held, same, rfl⟩ | ⟨-, same, -⟩
    · exact ⟨Registration.alreadyEmitted.inj same, rfl, held⟩
    · cases same
  · split at gives
    · obtain ⟨_, _, _, done⟩ := gives_bind.mp gives
      cases (gives_pure.mp done).1
    · exact absurd gives gives_throw

/-- Registering a registered name again is answered with an earlier call, and nothing is done. -/
theorem register_registered (resting : Resting setting before) (held : name ∈ before.registered) :
    Gives (register setting name) before (.alreadyEmitted name) before := by
  rw [register_of_known (resting.known name held)]
  exact gives_emit.mpr (.inl ⟨held, rfl, rfl⟩)

/-- When the answer that a name was emitted earlier is true. Calls are made one after another, each whether
or not those before it failed. A call that fails has left the session as it was, or abandoned a stack of
declarations in the making; a registered name has been written unless an earlier call abandoned it, and one
that was abandoned is answered for ever after as if it had been written. -/
theorem written_iff_not_abandoned {graph : Graph}
    (indexed : Context.index graph = .ok setting.context ∨
      Generation.prepareContext setting.configuration graph = .ok setting.context)
    (sink : setting.sink = .memory none) (calls : List String) :
    (∀ name error after, Fails (register setting name) (afterCalls setting calls) error after →
      (∀ target, ¬ StandsFor setting name target) ∧ after = afterCalls setting calls ∨
      ∃ stack, Abandons setting (afterCalls setting calls) name stack) ∧
    (∀ name ∈ (afterCalls setting calls).registered,
      name ∈ (afterCalls setting calls).artifactNames ↔ ¬ Abandoned setting calls name) ∧
    (∀ name other after, Gives (register setting name) (afterCalls setting calls) (.alreadyEmitted other) after →
      other = name ∧ after = afterCalls setting calls ∧
      (other ∈ (afterCalls setting calls).artifactNames ↔ ¬ Abandoned setting calls other)) ∧
    ∀ name, Abandoned setting calls name →
      Gives (register setting name) (afterCalls setting calls) (.alreadyEmitted name) (afterCalls setting calls) ∧
      name ∉ (afterCalls setting calls).artifactNames := by
  have named : setting.context.Named := by
    rcases indexed with indexed | prepared
    · exact (Context.lists_index indexed).named
    · exact Context.named_prepareContext prepared
  have accepts (contents : List (String × String)) (name : String) :
      setting.sink.accepts contents name = true := by
    rw [sink]
    rfl
  have resting := resting_afterCalls named accepts calls
  have written (name : String) (held : name ∈ (afterCalls setting calls).registered) :
      name ∈ (afterCalls setting calls).artifactNames ↔ ¬ Abandoned setting calls name := by
    rw [← not_written_iff_abandoned named accepts calls name, not_and, not_not]
    exact ⟨fun written _ => written, fun written => written held⟩
  refine ⟨fun name error after failed => abandons_of_register named accepts resting failed, written, ?_, ?_⟩
  · intro name other after gives
    obtain ⟨rfl, rfl, held⟩ := gives_alreadyEmitted gives
    exact ⟨rfl, rfl, written _ held⟩
  · intro name abandoned
    obtain ⟨held, unwritten⟩ := (not_written_iff_abandoned named accepts calls name).mpr abandoned
    exact ⟨register_registered resting held, unwritten⟩

def brokenGraph : Graph := ⟨[{
  fileName := "broken.h"
  structs := [⟨"Broken", [⟨"missing", .pointer (.tag (.named "Missing"))⟩], false, false⟩,
    ⟨"Outer", [⟨"inner", .tag (.named "Broken")⟩], false, false⟩]
  enums := []
  typedefs := []
  functions := []
  macros := [] }]⟩

def brokenSetting : Setting where
  configuration := {
    includeDirs := []
    libraries := []
    outputDir := "out"
    namespaceName := "Lib"
    forceClear := false
    forceTypes := []
    notFoundOverrides := []
    macroSearches := []
    primitiveTypes := none
    typedefStrategies := []
    nameOverrides := []
    anonymousEnumPrefixes := [] }
  context := ((Context.index brokenGraph).toOption).getD .empty
  primitives := []
  constants := []
  sink := .memory none

theorem written_iff_not_abandoned_broken : Context.index brokenGraph = .ok brokenSetting.context ∧
    Abandoned brokenSetting ["Outer"] "Outer" ∧ Abandoned brokenSetting ["Outer"] "Broken" ∧
    Gives (register brokenSetting "Broken") (afterCalls brokenSetting ["Outer"]) (.alreadyEmitted "Broken")
      (afterCalls brokenSetting ["Outer"]) ∧
    "Broken" ∉ (afterCalls brokenSetting ["Outer"]).artifactNames := by
  have indexed : Context.index brokenGraph = .ok brokenSetting.context := rfl
  obtain ⟨-, written, -, answered⟩ :=
    @written_iff_not_abandoned brokenSetting brokenGraph (.inl indexed) rfl ["Outer"]
  have outer : Abandoned brokenSetting ["Outer"] "Outer" :=
    not_not.mp ((written "Outer" (by decide +kernel)).not.mp (by decide +kernel))
  have broken : Abandoned brokenSetting ["Outer"] "Broken" :=
    not_not.mp ((written "Broken" (by decide +kernel)).not.mp (by decide +kernel))
  exact ⟨indexed, outer, broken, answered "Broken" broken⟩

/-- A name may be answered as emitted earlier though no artifact of that name was written. -/
theorem not_always_written : ¬ ∀ (setting : Setting) (graph : Graph) (calls : List String) (name : String)
    (after : Progress), Context.index graph = .ok setting.context → setting.sink = .memory none →
    Gives (register setting name) (afterCalls setting calls) (.alreadyEmitted name) after →
    name ∈ (afterCalls setting calls).artifactNames := by
  intro always
  have answered : Gives (register brokenSetting "Broken") (afterCalls brokenSetting ["Broken"])
      (.alreadyEmitted "Broken") (afterCalls brokenSetting ["Broken"]) := rfl
  have written := always brokenSetting brokenGraph ["Broken"] "Broken" _ rfl rfl answered
  exact absurd written (by decide +kernel)

end Interop.Session
