import Mathlib.Logic.Relation
import Interop.Proofs.Context
import Interop.Proofs.Session.Reference

/-! What a successful part of a session has achieved. Declarations that are still in the making
are registered but not written; between two states of a successful run, however, whatever became
registered was also written and refers to registered declarations only. `Advance` says so without
a stack, and it composes. -/
namespace Interop.Session

open Work Reading

theorem artifactName_eq {context : Context} (named : context.Named) {name : String}
    {declaration : TagDeclaration} (tag : context.tag? name = some declaration) :
    artifactName name declaration = name := by
  cases declaration with
  | struct struct => exact named.tag? tag
  | enumeration => rfl

section

variable (setting : Setting)

def Asks (name target : String) : Prop :=
  ∃ declaration, setting.context.tag? name = some declaration ∧
    DeclarationRefers setting declaration target

def Reaches : String → String → Prop := Relation.ReflTransGen (Asks setting)

def Makes (artifact : Artifact) : Prop :=
  ∃ declaration names, setting.context.tag? artifact.name = some declaration ∧
    Yields (plan setting artifact.name declaration) artifact.declaration names ∧
    artifact.text = artifact.declaration.text setting.configuration.namespaceName

/-- What the artifacts written between two states are. -/
structure Written (before after : Progress) (added : List Artifact) : Prop where
  artifacts : after.artifacts = before.artifacts ++ added
  names : ∀ artifact ∈ added, artifact.declaration.names ⊆ after.registered
  made : ∀ artifact ∈ added, artifact.declaration.tag?.isSome → Makes setting artifact ∧
    artifact.name ∈ after.registered ∧ artifact.name ∉ before.registered

/-- The names used up are those of artifacts, and each is the name of one artifact. -/
structure Tidy (progress : Progress) : Prop where
  claimed : ∀ name, name ∈ progress.claimed ↔ name ∈ progress.artifactNames
  distinct : progress.artifactNames.Nodup

/-- What a successful part of a session that asks for some declarations has achieved. -/
structure Advance (roots : List String) (before after : Progress) : Prop where
  extended : Extends before after
  registered : roots ⊆ after.registered
  reached : ∀ name ∈ after.registered, name ∉ before.registered →
    ∃ root ∈ roots, Reaches setting root name
  closed : ∀ name ∈ after.registered, name ∉ before.registered →
    ∀ target, Asks setting name target → target ∈ after.registered
  emitted : ∀ name ∈ after.registered, name ∉ before.registered →
    ∃ artifact ∈ after.artifacts, artifact.name = name ∧ Makes setting artifact
  written : ∃ added, Written setting before after added
  tidy : Tidy before → Tidy after

end

variable {setting : Setting} {roots roots' : List String} {before middle after : Progress}

theorem tag?_of_makes (named : setting.context.Named) {artifact : Artifact}
    (makes : Makes setting artifact) : artifact.declaration.tag? = some artifact.name := by
  obtain ⟨declaration, names, tag, yields, -⟩ := makes
  rw [tag?_declare yields, artifactName_eq named tag]

theorem Written.trans {added added' : List Artifact} (early : Written setting before middle added)
    (late : Written setting middle after added') (extended : Extends before middle)
    (extended' : Extends middle after) : Written setting before after (added ++ added') where
  artifacts := by rw [late.artifacts, early.artifacts, List.append_assoc]
  names artifact member := by
    rcases List.mem_append.mp member with first | second
    · exact List.Subset.trans (early.names artifact first) extended'
    · exact late.names artifact second
  made artifact member tagged := by
    rcases List.mem_append.mp member with first | second
    · obtain ⟨makes, present, absent⟩ := early.made artifact first tagged
      exact ⟨makes, extended' present, absent⟩
    · obtain ⟨makes, present, absent⟩ := late.made artifact second tagged
      exact ⟨makes, present, fun held => absent (extended held)⟩

theorem Written.mem {added : List Artifact} (written : Written setting before after added)
    {artifact : Artifact} (member : artifact ∈ before.artifacts) : artifact ∈ after.artifacts :=
  written.artifacts ▸ List.mem_append_left added member

theorem Advance.mem (advance : Advance setting roots before after) {artifact : Artifact}
    (member : artifact ∈ before.artifacts) : artifact ∈ after.artifacts := by
  obtain ⟨added, written⟩ := advance.written
  exact written.mem member

theorem tidy_start : Tidy .start := ⟨fun _ => Iff.rfl, List.nodup_nil⟩

theorem Tidy.store {artifact : Artifact} (tidy : Tidy before) (free : artifact.name ∉ before.claimed) :
    Tidy (before.store artifact) where
  claimed name := by
    change name ∈ artifact.name :: before.claimed ↔ name ∈ (before.artifacts ++ [artifact]).map (·.name)
    rw [List.mem_cons, List.map_append, List.mem_append, tidy.claimed name, or_comm]
    exact or_congr_right List.mem_singleton.symm
  distinct := by
    change ((before.artifacts ++ [artifact]).map (·.name)).Nodup
    rw [List.map_append, List.nodup_append]
    refine ⟨tidy.distinct, List.pairwise_singleton _ _, ?_⟩
    rintro name written other own rfl
    obtain rfl := List.mem_singleton.mp own
    exact free ((tidy.claimed _).mpr written)

/-- What leaves registration alone has asked for registered declarations at most. -/
theorem advance_of_registered {added : List Artifact} (held : roots ⊆ before.registered)
    (same : after.registered = before.registered) (written : Written setting before after added)
    (tidy : Tidy before → Tidy after) : Advance setting roots before after where
  extended := fun _ present => same.symm ▸ present
  registered := same.symm ▸ held
  reached _ present absent := absurd (same ▸ present) absent
  closed _ present absent := absurd (same ▸ present) absent
  emitted _ present absent := absurd (same ▸ present) absent
  written := ⟨added, written⟩
  tidy := tidy

theorem Written.nothing (same : after.artifacts = before.artifacts) : Written setting before after [] where
  artifacts := by rw [same, List.append_nil]
  names := nofun
  made := nofun

theorem advance_note (event : Event) (progress : Progress) :
    Advance setting [] progress (progress.note event) :=
  advance_of_registered (List.nil_subset _) rfl (Written.nothing rfl) fun tidy =>
    ⟨tidy.claimed, tidy.distinct⟩

theorem Advance.refl (progress : Progress) (held : roots ⊆ progress.registered) :
    Advance setting roots progress progress :=
  advance_of_registered held rfl (Written.nothing rfl) id

theorem Advance.trans (early : Advance setting roots before middle)
    (late : Advance setting roots' middle after) : Advance setting (roots ++ roots') before after where
  extended := early.extended.trans late.extended
  registered := List.append_subset.mpr ⟨List.Subset.trans early.registered late.extended, late.registered⟩
  reached name present absent := by
    by_cases held : name ∈ middle.registered
    · obtain ⟨root, member, reaches⟩ := early.reached name held absent
      exact ⟨root, List.mem_append_left _ member, reaches⟩
    · obtain ⟨root, member, reaches⟩ := late.reached name present held
      exact ⟨root, List.mem_append_right _ member, reaches⟩
  closed name present absent target asks := by
    by_cases held : name ∈ middle.registered
    · exact late.extended (early.closed name held absent target asks)
    · exact late.closed name present held target asks
  emitted name present absent := by
    by_cases held : name ∈ middle.registered
    · obtain ⟨artifact, member, makes⟩ := early.emitted name held absent
      exact ⟨artifact, late.mem member, makes⟩
    · exact late.emitted name present held
  written := by
    obtain ⟨added, first⟩ := early.written
    obtain ⟨added', second⟩ := late.written
    exact ⟨added ++ added', first.trans second early.extended late.extended⟩
  tidy := fun tidy => late.tidy (early.tidy tidy)

theorem gives_write {name : String} {declaration : Declaration} :
    Gives (write setting name declaration) before ⟨⟩ after ↔
      name ∉ before.claimed ∧ setting.sink.accepts before.contents name ∧
        after = before.store (setting.artifact name declaration) := by
  rw [Gives, outcome_write]
  split
  · next taken => simp [taken]
  · next free =>
    split
    · next accepted => simp [free, accepted, eq_comm]
    · next refused => simp [refused]

theorem Written.emit {artifact : Artifact} {added : List Artifact}
    (written : Written setting (before.mark artifact.name) middle added) (makes : Makes setting artifact)
    (fresh : artifact.name ∉ before.registered) (marked : artifact.name ∈ middle.registered)
    (held : artifact.declaration.names ⊆ middle.registered) :
    Written setting before (middle.store artifact) (added ++ [artifact]) where
  artifacts := by
    change middle.artifacts ++ _ = _
    rw [written.artifacts, List.append_assoc]
    rfl
  names other member := by
    rcases List.mem_append.mp member with nested | own
    · exact written.names other nested
    · obtain rfl := List.mem_singleton.mp own
      exact held
  made other member tagged := by
    rcases List.mem_append.mp member with nested | own
    · obtain ⟨makes, present, absent⟩ := written.made other nested tagged
      exact ⟨makes, present, fun former => absent (extends_mark before _ former)⟩
    · obtain rfl := List.mem_singleton.mp own
      exact ⟨makes, marked, fresh⟩

/-- Once all that a declaration refers to is registered, writing it ends its own emission. -/
theorem Advance.emit {name : String} {declaration : TagDeclaration} {made : Declaration}
    (tag : setting.context.tag? name = some declaration)
    (yields : Yields (plan setting name declaration) made roots) (fresh : name ∉ before.registered)
    (advance : Advance setting roots (before.mark name) middle)
    (own : artifactName name declaration = name) (free : name ∉ middle.claimed)
    (after_eq : after = middle.store (setting.artifact name made)) :
    Advance setting [name] before after := by
  have covers := covers_declare yields
  have asks (target : String) : Asks setting name target ↔ target ∈ roots := by
    rw [covers.mem_iff]
    constructor
    · rintro ⟨other, tag', refers⟩
      obtain rfl := Option.some.inj (tag.symm.trans tag')
      exact refers
    · exact fun refers => ⟨declaration, tag, refers⟩
  have makes : Makes setting (setting.artifact name made) := ⟨declaration, roots, tag, yields, rfl⟩
  have marked : name ∈ middle.registered := advance.extended List.mem_cons_self
  have older (other : String) (absent : other ∉ before.registered) (different : other ≠ name) :
      other ∉ (before.mark name).registered := by
    rw [Progress.mark, List.mem_cons]
    exact fun held => held.elim different absent
  subst after_eq
  exact {
    extended := (extends_mark before name).trans advance.extended
    registered := List.cons_subset.mpr ⟨marked, List.nil_subset _⟩
    reached := by
      intro other present absent
      by_cases same : other = name
      · exact ⟨name, List.mem_singleton_self name, same ▸ Relation.ReflTransGen.refl⟩
      · obtain ⟨root, member, reaches⟩ := advance.reached other present (older other absent same)
        exact ⟨name, List.mem_singleton_self name, .head ((asks root).mpr member) reaches⟩
    closed := by
      intro other present absent target asked
      by_cases same : other = name
      · subst same
        exact advance.registered ((asks target).mp asked)
      · exact advance.closed other present (older other absent same) target asked
    emitted := by
      intro other present absent
      by_cases same : other = name
      · exact ⟨_, List.mem_append_right _ List.mem_cons_self, same.symm, makes⟩
      · obtain ⟨artifact, member, made⟩ := advance.emitted other present (older other absent same)
        exact ⟨artifact, List.mem_append_left _ member, made⟩
    written := by
      obtain ⟨added, written⟩ := advance.written
      exact ⟨_, written.emit makes fresh marked (List.Subset.trans covers.used advance.registered)⟩
    tidy := fun tidy => (advance.tidy ⟨tidy.claimed, tidy.distinct⟩).store free }

theorem gives_replay_cons {emit : String → Work Progress Registration} {action : Action}
    {actions : List Action} {result : Except GenerationError α} {value : α} :
    Gives (replay emit ⟨action :: actions, result⟩) before value after ↔
      ∃ middle, Gives (action.perform emit) before ⟨⟩ middle ∧
        Gives (replay emit ⟨actions, result⟩) middle value after := by
  rw [replay_cons, gives_bind]
  exact ⟨fun ⟨_, middle, first, rest⟩ => ⟨middle, first, rest⟩,
    fun ⟨middle, first, rest⟩ => ⟨⟨⟩, middle, first, rest⟩⟩

/-- A replay that succeeds has asked for all the reading asks for, if emission does its part
below a number of names left to register. -/
theorem advance_replay_below {limit : Nat}
    (emits : ∀ name before registration after, unregistered setting.context before < limit →
      Gives (emit setting name) before registration after → Advance setting [name] before after)
    {reading : Reading α} {value : α} (below : unregistered setting.context before < limit)
    (gives : Gives (reading.replay (emit setting)) before value after) :
    Yields reading value reading.entered ∧ Advance setting reading.entered before after := by
  obtain ⟨actions, result⟩ := reading
  induction actions generalizing before with
  | nil =>
    obtain ⟨_, _, nothing, ended⟩ := gives_bind.mp gives
    obtain ⟨-, rfl⟩ := gives_pure.mp nothing
    obtain ⟨found, rfl⟩ := gives_lift.mp ended
    exact ⟨⟨found, rfl⟩, Advance.refl before (List.nil_subset _)⟩
  | cons action actions ih =>
    obtain ⟨middle, first, rest⟩ := gives_replay_cons.mp gives
    cases action with
    | report event =>
      obtain rfl : before.note event = middle := congrArg Prod.snd first
      have still : unregistered setting.context (before.note event) < limit := below
      obtain ⟨⟨found, _⟩, advance⟩ := ih still rest
      exact ⟨⟨found, rfl⟩, (advance_note event before).trans advance⟩
    | enter name =>
      obtain ⟨registration, _, emitted, done⟩ := gives_bind.mp first
      obtain ⟨-, rfl⟩ := gives_pure.mp done
      have early := emits name before registration _ below emitted
      have fewer := unregistered_anti setting.context early.extended
      obtain ⟨⟨found, _⟩, advance⟩ := ih (by omega) rest
      exact ⟨⟨found, rfl⟩, early.trans advance⟩

theorem gives_emit {name : String} {registration : Registration} :
    Gives (emit setting name) before registration after ↔
      (name ∈ before.registered ∧ registration = .alreadyEmitted name ∧ after = before) ∨
      (name ∉ before.registered ∧ registration = .emitted name ∧
        ∃ declaration made middle, setting.context.tag? name = some declaration ∧
          Gives ((plan setting name declaration).replay (emit setting)) (before.mark name) made middle ∧
          Gives (write setting (artifactName name declaration) made) middle ⟨⟩ after) := by
  rw [Gives, outcome_emit]
  split
  · next held => simp [held, eq_comm]
  · next fresh =>
    simp only [fresh, false_and, not_false_eq_true, true_and, false_or]
    cases tag : setting.context.tag? name with
    | none => simp
    | some declaration =>
      simp only [Option.some.injEq]
      change Gives _ _ _ _ ↔ _
      rw [emitDeclaration_replay (faithful_emit setting)]
      simp only [gives_bind, gives_pure]
      constructor
      · rintro ⟨⟨⟩, _, ⟨made, middle, replayed, written⟩, rfl, rfl⟩
        exact ⟨rfl, declaration, made, middle, rfl, replayed, written⟩
      · rintro ⟨rfl, _, made, middle, rfl, replayed, written⟩
        exact ⟨⟨⟩, after, ⟨made, middle, replayed, written⟩, rfl, rfl⟩

/-- Emission by induction on the number of names left to register: marking a name makes it
smaller, and no nested emission makes it larger again. -/
theorem advance_emit (named : setting.context.Named) {name : String} {registration : Registration}
    (gives : Gives (emit setting name) before registration after) : Advance setting [name] before after := by
  generalize left : unregistered setting.context before = count
  induction count using Nat.strongRecOn generalizing name registration before after with
  | ind count ih =>
    subst left
    rcases gives_emit.mp gives with ⟨held, -, rfl⟩ |
      ⟨fresh, -, declaration, made, middle, tag, replayed, written⟩
    · exact Advance.refl after (List.cons_subset.mpr ⟨held, List.nil_subset _⟩)
    · have known : setting.context.isKnown name := by simp [Context.isKnown, tag]
      obtain ⟨yields, advance⟩ := advance_replay_below
        (fun name before registration after less gives => ih _ less gives rfl)
        (unregistered_mark known fresh) replayed
      have own := artifactName_eq named tag
      rw [own] at written
      obtain ⟨free, -, stored⟩ := gives_write.mp written
      exact advance.emit tag yields fresh own free stored

end Interop.Session
