import Interop.Proofs.Session.Binding
import Interop.Proofs.Session.Redirection

/-! Registration in any order. Whether a declaration can be generated, and the artifact it gets,
follow from the setting alone; a session between two registrations holds exactly what the names
registered so far lead to. Names may therefore be registered in any order. -/
namespace Interop.Session

open Work Reading

section

variable (setting : Setting)

def Declarable (name : String) : Prop :=
  ∃ declaration made names, setting.context.tag? name = some declaration ∧
    Yields (plan setting name declaration) made names

def Ready (name : String) : Prop := ∀ target, Reaches setting name target → Declarable setting target

/-- What emission does between two states, whether it succeeds or not. -/
structure Emits (before after : Progress) : Prop where
  extended : Extends before after
  claimed : ∀ name ∈ after.claimed, name ∈ before.claimed ∨
    name ∉ before.registered ∧ name ∈ after.registered
  made : ∀ artifact ∈ after.artifacts, artifact ∈ before.artifacts ∨ Makes setting artifact

/-- No declaration is in the making, and none that was generated lacks anything. -/
structure Settled (progress : Progress) : Prop where
  claimed : progress.claimed ⊆ progress.registered
  closed : ∀ name ∈ progress.registered, ∀ target, Asks setting name target → target ∈ progress.registered
  declarable : ∀ name ∈ progress.registered, Declarable setting name

end

variable {setting : Setting} {roots : List String} {before middle after : Progress}

/-- The artifact of a name is decided by the setting. -/
theorem Makes.unique {artifact other : Artifact} (left : Makes setting artifact)
    (right : Makes setting other) (same : artifact.name = other.name) : artifact = other := by
  obtain ⟨name, made, text⟩ := artifact
  obtain ⟨name', made', text'⟩ := other
  obtain rfl : name = name' := same
  obtain ⟨declaration, names, tag, ⟨result, -⟩, own⟩ := left
  obtain ⟨declaration', names', tag', ⟨result', -⟩, own'⟩ := right
  obtain rfl := Option.some.inj (tag.symm.trans tag')
  obtain rfl : made = made' := Except.ok.inj (result.symm.trans result')
  obtain rfl : text = text' := own.trans own'.symm
  rfl

theorem Ready.reaches {name target : String} (ready : Ready setting name)
    (reaches : Reaches setting name target) : Ready setting target :=
  fun other later => ready other (reaches.trans later)

theorem frame_emits : Frame (Emits setting) where
  refl progress := ⟨Extends.refl progress, fun _ => .inl, fun _ => .inl⟩
  trans early late := by
    refine ⟨early.extended.trans late.extended, ?_, ?_⟩
    · intro name claimed
      rcases late.claimed name claimed with former | ⟨absent, present⟩
      · rcases early.claimed name former with former | ⟨absent, present⟩
        · exact .inl former
        · exact .inr ⟨absent, late.extended present⟩
      · exact .inr ⟨fun held => absent (early.extended held), present⟩
    · intro artifact member
      rcases late.made artifact member with former | makes
      · exact early.made artifact former
      · exact .inr makes

theorem emits_note (event : Event) : Keeps (Emits setting) (note event) :=
  fun _ => ⟨List.Subset.refl _, fun _ => .inl, fun _ => .inl⟩

theorem Emits.of_mark {name : String} (later : Emits setting (before.mark name) middle) :
    Emits setting before middle where
  extended := (extends_mark before name).trans later.extended
  claimed other claimed := by
    rcases later.claimed other claimed with former | ⟨absent, present⟩
    · exact .inl former
    · exact .inr ⟨fun held => absent (extends_mark before name held), present⟩
  made := later.made

/-- The artifact of a name in the making is not written yet. -/
theorem Emits.not_claimed (emits : Emits setting (before.mark name) after) (clean : before.claimed ⊆ before.registered)
    (fresh : name ∉ before.registered) : name ∉ after.claimed := by
  intro claimed
  rcases emits.claimed name claimed with former | ⟨absent, -⟩
  · exact fresh (clean former)
  · exact absent List.mem_cons_self

theorem Emits.clean (emits : Emits setting before after) (clean : before.claimed ⊆ before.registered) :
    after.claimed ⊆ after.registered := by
  intro name claimed
  rcases emits.claimed name claimed with former | ⟨-, present⟩
  · exact emits.extended (clean former)
  · exact present

section

variable (named : setting.context.Named)

include named

theorem emits_emit (name : String) : Keeps (Emits setting) (emit setting name) := by
  refine keeps_emitWithin setting frame_emits emits_note ?_ _ name
  intro name declaration before middle tag fresh later
  have emits := later.of_mark
  have marked : name ∈ middle.registered := later.extended List.mem_cons_self
  refine ⟨emits, fun made result => ?_⟩
  rw [outcome_write, artifactName_eq named tag]
  split
  · exact emits
  · have claimed (other : String) (member : other ∈ name :: middle.claimed) :
        other ∈ before.claimed ∨ other ∉ before.registered ∧ other ∈ middle.registered := by
      rcases List.mem_cons.mp member with rfl | former
      · exact .inr ⟨fresh, marked⟩
      · exact emits.claimed other former
    split
    · refine ⟨emits.extended, claimed, fun artifact member => ?_⟩
      rcases List.mem_append.mp member with former | own
      · exact emits.made artifact former
      · obtain rfl := List.mem_singleton.mp own
        exact .inr ⟨declaration, _, tag, ⟨result, rfl⟩, rfl⟩
    · exact ⟨emits.extended, claimed, emits.made⟩

theorem emits_register (name : String) : Keeps (Emits setting) (register setting name) :=
  keeps_register frame_emits (emits_emit named) name

theorem emits_replay (reading : Reading α) : Keeps (Emits setting) (reading.replay (emit setting)) :=
  keeps_replay frame_emits emits_note (emits_emit named) reading

theorem emits_registerAll (names : List String) : Keeps (Emits setting) (registerAll setting names) :=
  keeps_registerAll frame_emits (emits_emit named) names

end

/-- A reading that ends well is replayed to its end, if emission succeeds below a number of names
left to register. -/
theorem exists_gives_replay_below {limit : Nat} (named : setting.context.Named)
    (emits : ∀ name before, unregistered setting.context before < limit → Ready setting name →
      before.claimed ⊆ before.registered →
      ∃ registration after, Gives (emit setting name) before registration after)
    {reading : Reading α} {value : α} {names : List String} (yields : Yields reading value names)
    (ready : ∀ name ∈ names, Ready setting name) (clean : before.claimed ⊆ before.registered)
    (below : unregistered setting.context before < limit) :
    ∃ after, Gives (reading.replay (emit setting)) before value after := by
  obtain ⟨actions, result⟩ := reading
  obtain ⟨found, rfl⟩ := yields
  induction actions generalizing before with
  | nil =>
    exact ⟨before, gives_bind.mpr ⟨⟨⟩, before, gives_pure.mpr ⟨rfl, rfl⟩, gives_lift.mpr ⟨found, rfl⟩⟩⟩
  | cons action actions ih =>
    cases action with
    | report event =>
      have still : (before.note event).claimed ⊆ (before.note event).registered := clean
      obtain ⟨after, rest⟩ := ih still below found ready
      exact ⟨after, gives_replay_cons.mpr ⟨before.note event, rfl, rest⟩⟩
    | enter name =>
      have first : name ∈ entered ⟨.enter name :: actions, result⟩ := List.mem_cons_self
      obtain ⟨registration, middle, emitted⟩ := emits name before below (ready name first) clean
      have kept := (emits_emit named name).of_gives emitted
      have fewer := unregistered_anti setting.context kept.extended
      obtain ⟨after, rest⟩ := ih (kept.clean clean) (by omega) found fun other member =>
        ready other (List.mem_cons_of_mem _ member)
      exact ⟨after, gives_replay_cons.mpr ⟨middle,
        gives_bind.mpr ⟨registration, middle, emitted, gives_pure.mpr ⟨rfl, rfl⟩⟩, rest⟩⟩

section

variable (named : setting.context.Named) (accepts : ∀ contents name, setting.sink.accepts contents name = true)

include named accepts

/-- Emission succeeds where all that a declaration leads to can be declared: the artifact of a name
in the making is not written yet. -/
theorem exists_gives_emit {name : String} (ready : Ready setting name)
    (clean : before.claimed ⊆ before.registered) :
    ∃ registration after, Gives (emit setting name) before registration after := by
  generalize left : unregistered setting.context before = count
  induction count using Nat.strongRecOn generalizing name before with
  | ind count ih =>
    subst left
    by_cases held : name ∈ before.registered
    · exact ⟨_, before, gives_emit.mpr (.inl ⟨held, rfl, rfl⟩)⟩
    obtain ⟨declaration, made, names, tag, yields⟩ := ready name .refl
    have next (target : String) (member : target ∈ names) : Ready setting target :=
      ready.reaches (.single ⟨declaration, tag, ((covers_declare yields).mem_iff target).mp member⟩)
    have fewer := unregistered_mark (Context.mem_knownNames.mp (Context.mem_knownNames_of_tag? tag)) held
    have marked : (before.mark name).claimed ⊆ (before.mark name).registered :=
      List.Subset.trans clean (extends_mark before name)
    obtain ⟨middle, replayed⟩ := exists_gives_replay_below named
      (fun name before less ready clean => ih _ less ready clean rfl) yields next marked fewer
    have free : name ∉ middle.claimed := ((emits_replay named _).of_gives replayed).not_claimed clean held
    have own := artifactName_eq named tag
    exact ⟨_, _, gives_emit.mpr (.inr ⟨held, rfl, declaration, made, middle, tag, replayed,
      gives_write.mpr ⟨own.symm ▸ free, accepts _ _, rfl⟩⟩)⟩

/-- A name can be registered if it stands for a declaration that resolves with all it leads to. -/
theorem exists_gives_register {name target : String} (stands : StandsFor setting name target)
    (ready : Ready setting target) (clean : before.claimed ⊆ before.registered) :
    ∃ registration after, Gives (register setting name) before registration after := by
  obtain ⟨registration, after, emitted⟩ := exists_gives_emit named accepts ready clean
  unfold register registerBy
  by_cases known : setting.context.isKnown name
  · obtain rfl := stands.unique (.known known)
    rw [if_pos known]
    exact ⟨registration, after, emitted⟩
  · rw [if_neg known, (redirect_eq_ok_iff known).mpr stands]
    exact ⟨_, after, gives_bind.mpr ⟨registration, after, emitted, gives_pure.mpr ⟨rfl, rfl⟩⟩⟩

end

theorem Settled.ready {name : String} (settled : Settled setting before) (member : name ∈ before.registered) :
    Ready setting name := by
  intro target reaches
  have present : target ∈ before.registered := by
    induction reaches with
    | refl => exact member
    | tail _ asks ih => exact settled.closed _ ih _ asks
  exact settled.declarable target present

theorem Settled.advance (settled : Settled setting before) (emits : Emits setting before after)
    (advance : Advance setting roots before after) : Settled setting after where
  claimed := emits.clean settled.claimed
  closed := by
    intro name present target asks
    by_cases held : name ∈ before.registered
    · exact emits.extended (settled.closed name held target asks)
    · exact advance.closed name present held target asks
  declarable := by
    intro name present
    by_cases held : name ∈ before.registered
    · exact settled.declarable name held
    · obtain ⟨artifact, -, rfl, declaration, names, tag, yields, -⟩ := advance.emitted name present held
      exact ⟨declaration, _, names, tag, yields⟩

theorem settled_start : Settled setting Progress.start := ⟨List.Subset.refl _, nofun, nofun⟩

section

variable (named : setting.context.Named)

include named

theorem Settled.register {name : String} {registration : Registration} (settled : Settled setting before)
    (gives : Gives (register setting name) before registration after) : Settled setting after := by
  obtain ⟨roots, -, advance⟩ := serves_register named gives
  exact settled.advance ((emits_register named name).of_gives gives) advance

/-- Between registrations, a name can be registered exactly if it stands for a declaration that
resolves with all it leads to. -/
theorem exists_gives_register_iff (accepts : ∀ contents name, setting.sink.accepts contents name = true)
    (settled : Settled setting before) {name : String} :
    (∃ registration after, Gives (Session.register setting name) before registration after) ↔
      ∃ target, StandsFor setting name target ∧ Ready setting target := by
  constructor
  · rintro ⟨registration, after, gives⟩
    have settled := settled.register named gives
    obtain ⟨roots, covers, advance⟩ := serves_register named gives
    have member : registration.name ∈ roots := covers.used (List.mem_singleton_self _)
    exact ⟨_, (covers.mem_iff _).mp member, settled.ready (advance.registered member)⟩
  · rintro ⟨target, stands, ready⟩
    exact exists_gives_register named accepts stands ready settled.claimed

theorem exists_gives_registerAll_iff (accepts : ∀ contents name, setting.sink.accepts contents name = true)
    (settled : Settled setting before) {names : List String} :
    (∃ after, Gives (registerAll setting names) before ⟨⟩ after) ↔
      ∀ name ∈ names, ∃ target, StandsFor setting name target ∧ Ready setting target := by
  induction names generalizing before with
  | nil => exact ⟨fun _ _ member => absurd member List.not_mem_nil, fun _ => ⟨before, rfl⟩⟩
  | cons name names ih =>
    rw [registerAll, List.forM_eq_forM, List.forM_cons, List.forall_mem_cons,
      ← exists_gives_register_iff named accepts settled]
    constructor
    · rintro ⟨after, gives⟩
      obtain ⟨_, middle, first, rest⟩ := gives_bind.mp gives
      obtain ⟨registration, _, registered, done⟩ := gives_bind.mp first
      obtain ⟨-, rfl⟩ := gives_pure.mp done
      exact ⟨⟨registration, _, registered⟩, (ih (settled.register named registered)).mp ⟨after, rest⟩⟩
    · rintro ⟨⟨registration, middle, registered⟩, others⟩
      obtain ⟨after, rest⟩ := (ih (settled.register named registered)).mpr others
      exact ⟨after, gives_bind.mpr ⟨⟨⟩, middle,
        gives_bind.mpr ⟨registration, middle, registered, gives_pure.mpr ⟨rfl, rfl⟩⟩, rest⟩⟩

/-- What registering names from the start has registered. -/
theorem mem_registered_iff {names : List String} (gives : Gives (registerAll setting names) .start ⟨⟩ after)
    {name : String} : name ∈ after.registered ↔
      ∃ requested ∈ names, ∃ target, StandsFor setting requested target ∧ Reaches setting target name := by
  obtain ⟨used, roots, covers, advance⟩ := serves_registerAll named gives
  have settled := settled_start.advance ((emits_registerAll named names).of_gives gives) advance
  constructor
  · intro present
    obtain ⟨target, member, reaches⟩ := advance.reached name present List.not_mem_nil
    obtain ⟨requested, listed, stands⟩ := (covers.mem_iff target).mp member
    exact ⟨requested, listed, target, stands, reaches⟩
  · rintro ⟨requested, listed, target, stands, reaches⟩
    induction reaches with
    | refl => exact advance.registered ((covers.mem_iff target).mpr ⟨requested, listed, stands⟩)
    | tail _ asks ih => exact settled.closed _ ih _ asks

/-- The artifacts that registering names from the start has written: one for each name registered. -/
theorem mem_artifacts_iff {names : List String} (gives : Gives (registerAll setting names) .start ⟨⟩ after)
    {artifact : Artifact} : artifact ∈ after.artifacts ↔
      Makes setting artifact ∧ artifact.name ∈ after.registered := by
  obtain ⟨used, roots, covers, advance⟩ := serves_registerAll named gives
  have emits := (emits_registerAll named names).of_gives gives
  constructor
  · intro member
    have makes := (emits.made artifact member).resolve_left List.not_mem_nil
    obtain ⟨added, written⟩ := advance.written
    rw [written.artifacts] at member
    obtain ⟨-, present, -⟩ := written.made artifact member (by rw [tag?_of_makes named makes]; rfl)
    exact ⟨makes, present⟩
  · rintro ⟨makes, present⟩
    obtain ⟨other, member, same, makes'⟩ := advance.emitted _ present List.not_mem_nil
    rwa [makes.unique makes' same.symm]

/-- Sessions that have registered the same names from the start hold the same artifacts. -/
theorem artifacts_perm {names names' : List String} {other : Progress}
    (left : Gives (registerAll setting names) .start ⟨⟩ after)
    (right : Gives (registerAll setting names') .start ⟨⟩ other)
    (same : ∀ name, name ∈ after.registered ↔ name ∈ other.registered) :
    after.artifacts.Perm other.artifacts := by
  have distinct {names : List String} {after : Progress}
      (gives : Gives (registerAll setting names) .start ⟨⟩ after) : after.artifacts.Nodup := by
    obtain ⟨used, roots, -, advance⟩ := serves_registerAll named gives
    exact (advance.tidy tidy_start).distinct.of_map
  apply (List.perm_ext_iff_of_nodup (distinct left) (distinct right)).mpr
  intro artifact
  rw [mem_artifacts_iff named left, mem_artifacts_iff named right, same]

end

/-- Names may be registered in any order: all orders succeed or none does, and those that do leave
the same texts under the same names and report the same orphans. -/
theorem registerAll_perm {graph : Graph} {names names' : List String}
    (indexed : Context.index graph = .ok setting.context ∨
      Generation.prepareContext setting.configuration graph = .ok setting.context)
    (sink : setting.sink = .memory none) (perm : names.Perm names') :
    ((∃ after, Gives (registerAll setting names) .start ⟨⟩ after) ↔
      ∃ after, Gives (registerAll setting names') .start ⟨⟩ after) ∧
    ∀ after other, Gives (registerAll setting names) .start ⟨⟩ after →
      Gives (registerAll setting names') .start ⟨⟩ other →
      Table.ofEntries after.contents = Table.ofEntries other.contents ∧
      (report setting after).orphans = (report setting other).orphans := by
  have named : setting.context.Named := by
    rcases indexed with indexed | prepared
    · exact (Context.lists_index indexed).named
    · exact Context.named_prepareContext prepared
  have accepts (contents : List (String × String)) (name : String) :
      setting.sink.accepts contents name = true := by
    rw [sink]
    rfl
  constructor
  · rw [exists_gives_registerAll_iff named accepts settled_start,
      exists_gives_registerAll_iff named accepts settled_start]
    exact forall_congr' fun name => by rw [perm.mem_iff]
  · intro after other left right
    have same (name : String) : name ∈ after.registered ↔ name ∈ other.registered := by
      rw [mem_registered_iff named left, mem_registered_iff named right]
      exact exists_congr fun requested => by rw [perm.mem_iff]
    constructor
    · apply Table.ofEntries_perm ((artifacts_perm named left right same).map _)
      intro entry member entry' member' agree
      obtain ⟨artifact, written, rfl⟩ := List.mem_map.mp member
      obtain ⟨artifact', written', rfl⟩ := List.mem_map.mp member'
      have makes := ((mem_artifacts_iff named left).mp written).1
      have makes' := ((mem_artifacts_iff named left).mp written').1
      rw [makes.unique makes' agree]
    · simp only [report, Context.orphans_eq, same]

def pairGraph : Graph := ⟨[{
  fileName := "pair.h"
  structs := [⟨"Left", [⟨"right", .pointer (.tag (.named "Right"))⟩], false, false⟩,
    ⟨"Right", [⟨"left", .pointer (.tag (.named "Left"))⟩], false, false⟩]
  enums := []
  typedefs := []
  functions := []
  macros := [] }]⟩

def pairSetting : Setting where
  configuration := {
    includeDirs := []
    libraries := []
    outputDir := "out"
    namespaceName := "Pairs"
    forceClear := false
    forceTypes := []
    notFoundOverrides := [("Either", "Right")]
    macroSearches := []
    primitiveTypes := none
    typedefStrategies := []
    nameOverrides := []
    anonymousEnumPrefixes := [] }
  context := ((Context.index pairGraph).toOption).getD .empty
  primitives := []
  constants := []
  sink := .memory none

theorem registerAll_perm_pair : Context.index pairGraph = .ok pairSetting.context ∧
    ((∃ after, Gives (registerAll pairSetting ["Left", "Either"]) .start ⟨⟩ after) ↔
      ∃ after, Gives (registerAll pairSetting ["Either", "Left"]) .start ⟨⟩ after) ∧
    ∃ after, Gives (registerAll pairSetting ["Left", "Either"]) .start ⟨⟩ after := by
  have indexed : Context.index pairGraph = .ok pairSetting.context := rfl
  have swapped := List.Perm.swap "Either" "Left" []
  have same := @registerAll_perm pairSetting pairGraph _ _ (.inl indexed) rfl swapped
  exact ⟨indexed, same.1, _, rfl⟩

end Interop.Session
