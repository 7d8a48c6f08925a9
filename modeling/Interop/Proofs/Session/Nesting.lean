import Interop.Proofs.Session.Advance
import Interop.Proofs.Session.Contract

/-! How deeply typedefs may be nested. A type resolves only if no more typedefs than the limit are
unwrapped inside one another without a tag between, and one that is refused as a cycle has a deeper
nest; the fields of the structures that are registered on the way count each for itself. -/
namespace Interop.Session

open Work Reading

section

variable (setting : Setting)

/-- A type has so many unwrapped typedefs inside one another, with no tag between them. -/
inductive Nests : Nat → CType → Prop where
  | none (type : CType) : Nests 0 type
  | part {depth : Nat} {inner outer : CType} : CType.Part inner outer → Nests depth inner → Nests depth outer
  | underlying {depth : Nat} {name : String} {typedef : Typedef} :
      setting.configuration.typedefStrategies.lookup name ≠ some .namedEnum →
      setting.context.typedef? name = some typedef → Nests depth typedef.underlying →
      Nests (depth + 1) (.typedef name)

def UnwrapsTo (name other : String) : Prop :=
  setting.configuration.typedefStrategies.lookup name ≠ some .namedEnum ∧
    ∃ typedef, setting.context.typedef? name = some typedef ∧
      Relation.ReflTransGen CType.Part (.typedef other) typedef.underlying

/-- A field, under a name that is not overridden, of a structure registered between two states. -/
def NewField (before after : Progress) (m : Member) : Prop :=
  ∃ name ∈ after.registered, name ∉ before.registered ∧
    ∃ struct, setting.context.struct? name = some struct ∧ m ∈ struct.fields ∧
      setting.configuration.nameOverrides.lookup m.name = none

end

variable {setting : Setting} {room depth : Nat} {type inner outer : CType} {name other : String}

theorem Nests.inside (parts : Relation.ReflTransGen CType.Part inner outer) (nests : Nests setting depth inner) :
    Nests setting depth outer := by
  induction parts with
  | refl => exact nests
  | tail _ part ih => exact .part part ih

theorem Nests.of_unwrapsTo (unwraps : UnwrapsTo setting name other) (nests : Nests setting depth (.typedef other)) :
    Nests setting (depth + 1) (.typedef name) := by
  obtain ⟨strategy, typedef, known, parts⟩ := unwraps
  exact .underlying strategy known (nests.inside parts)

/-- A typedef that leads back to itself is nested as deeply as one likes. -/
theorem nests_of_cycle (cycle : Relation.TransGen (UnwrapsTo setting) name name) (depth : Nat) :
    Nests setting depth (.typedef name) := by
  induction depth generalizing name with
  | zero => exact .none _
  | succ depth ih =>
    obtain ⟨next, unwraps, back⟩ := Relation.TransGen.head'_iff.mp cycle
    exact (ih (.tail' back unwraps)).of_unwrapsTo unwraps

/-- Too deep a nest is the one fault that is reported as a cycle. -/
theorem nests_iff_fault : Nests setting (room + 1) type ↔
    ∃ name, Fault setting room type (.typedefCycle name) := by
  constructor
  · intro nests
    generalize deep : room + 1 = depth at nests
    induction nests generalizing room with
    | none => cases deep
    | part part _ ih =>
      obtain ⟨name, fault⟩ := ih deep
      exact ⟨name, .part part fault⟩
    | @underlying depth name typedef strategy known _ ih =>
      obtain rfl := Nat.succ.inj deep
      cases room with
      | zero => exact ⟨name, .noRoom strategy known⟩
      | succ room =>
        obtain ⟨other, fault⟩ := ih rfl
        exact ⟨other, .underlying strategy known fault⟩
  · rintro ⟨name, fault⟩
    generalize same : GenerationError.typedefCycle name = error at fault
    induction fault with
    | builtin | undeclared => cases same
    | part part _ ih => exact .part part (ih same)
    | tag fault | ownEnumeration _ fault =>
      subst same
      cases fault.ofTag
    | noRoom strategy known => exact .underlying strategy known (.none _)
    | underlying strategy known _ ih => exact .underlying strategy known (ih same)

theorem DeclarationFault.nests {declaration : TagDeclaration}
    (fault : DeclarationFault setting declaration (.typedefCycle other)) :
    ∃ struct, declaration = .struct struct ∧ ∃ m ∈ struct.fields,
      setting.configuration.nameOverrides.lookup m.name = none ∧ Nests setting (typedefLimit + 1) m.type := by
  cases declaration with
  | enumeration => cases fault.2
  | struct struct =>
    obtain ⟨m, listed, fault⟩ := fault
    rw [MemberFault] at fault
    cases entry : setting.configuration.nameOverrides.lookup m.name with
    | none =>
      rw [entry] at fault
      exact ⟨struct, rfl, m, listed, entry, nests_iff_fault.mpr ⟨other, fault⟩⟩
    | some target =>
      rw [entry] at fault
      cases fault.2

section

variable {before middle after : Progress} {m : Member}

theorem NewField.split (field : NewField setting before after m) :
    NewField setting before middle m ∨ NewField setting middle after m := by
  obtain ⟨name, present, absent, own⟩ := field
  by_cases held : name ∈ middle.registered
  · exact .inl ⟨name, held, absent, own⟩
  · exact .inr ⟨name, present, held, own⟩

theorem NewField.mono (field : NewField setting before after m) (earlier : middle.registered ⊆ before.registered) :
    NewField setting middle after m := by
  obtain ⟨name, present, absent, own⟩ := field
  exact ⟨name, present, fun held => absent (earlier held), own⟩

/-- New fields have no nest beyond the limit, and one of them has if a cycle is reported. -/
def nesting (setting : Setting) : Contract Progress where
  kept before after := Extends before after ∧
    ∀ m, NewField setting before after m → ¬ Nests setting (typedefLimit + 1) m.type
  broken error before after := Extends before after ∧ ∀ name, error = .typedefCycle name →
    ∃ m, NewField setting before after m ∧ Nests setting (typedefLimit + 1) m.type
  refl state := ⟨.refl state, fun m ⟨_, present, absent, _⟩ => absurd present absent⟩
  trans early late := by
    refine ⟨early.1.trans late.1, fun m field => ?_⟩
    rcases field.split with first | second
    · exact early.2 m first
    · exact late.2 m second
  later early late := by
    refine ⟨early.1.trans late.1, fun name cycle => ?_⟩
    obtain ⟨m, field, nests⟩ := late.2 name cycle
    exact ⟨m, field.mono early.1, nests⟩

theorem respects_nesting (setting : Setting) : Respects setting (nesting setting) where
  notes event progress := ⟨List.Subset.refl _, fun m ⟨_, present, absent, _⟩ => absurd present absent⟩
  unknown name progress _ := ⟨.refl progress, nofun⟩
  below := by
    intro name declaration before after error tag fresh nested
    refine ⟨(extends_mark before name).trans nested.1, fun cycle same => ?_⟩
    obtain ⟨m, field, nests⟩ := nested.2 cycle same
    exact ⟨m, field.mono (extends_mark before name), nests⟩
  faulty := by
    intro name declaration before after error tag fresh kept fault
    refine ⟨(extends_mark before name).trans kept.1, fun cycle same => ?_⟩
    subst same
    obtain ⟨struct, rfl, m, listed, own, nests⟩ := fault.nests
    have found := Context.struct?_eq_some_iff.mpr tag
    exact ⟨m, ⟨name, kept.1 List.mem_cons_self, fresh, struct, found, listed, own⟩, nests⟩
  refused := by
    intro name declaration made before middle after error tag fresh kept failed
    have written := extends_write setting (artifactName name declaration) made middle
    rw [failed] at written
    refine ⟨((extends_mark before name).trans kept.1).trans written, fun cycle same => ?_⟩
    subst same
    rw [Fails, outcome_write] at failed
    split at failed
    · cases failed
    · split at failed <;> cases failed
  written := by
    intro name declaration made before middle after tag fresh kept read written
    obtain ⟨-, -, rfl⟩ := gives_write.mp written
    refine ⟨(extends_mark before name).trans kept.1, fun m field nests => ?_⟩
    -- A new field is one of a structure below or of the declaration itself, which was read.
    rcases field with ⟨other, present, absent, struct, found, listed, own⟩
    by_cases same : other = name
    · subst same
      obtain rfl := Option.some.inj (tag.symm.trans (Context.struct?_eq_some_iff.mp found))
      obtain ⟨cycle, fault⟩ := nests_iff_fault.mp nests
      have faulty : DeclarationFault setting (.struct struct) (.typedefCycle cycle) :=
        ⟨m, listed, by rw [MemberFault, own]; exact fault⟩
      obtain ⟨error, failed⟩ := exists_error_of_declarationFault faulty
      cases read.symm.trans failed
    · refine kept.2 m ⟨other, present, ?_, struct, found, listed, own⟩ nests
      exact fun held => (List.mem_cons.mp held).elim same absent

end

/-- What resolution comes to at the limit: a type that resolves has no deeper nest, nor has a new field,
and a cycle is reported only where there is one. -/
theorem nests_of_resolve {before after : Progress} :
    (∀ target, Gives (resolve setting type) before target after → ¬ Nests setting (typedefLimit + 1) type ∧
      ∀ m, NewField setting before after m → ¬ Nests setting (typedefLimit + 1) m.type) ∧
    ∀ name, Fails (resolve setting type) before (.typedefCycle name) after →
      Nests setting (typedefLimit + 1) type ∨
        ∃ m, NewField setting before after m ∧ Nests setting (typedefLimit + 1) m.type := by
  have respects := respects_nesting setting
  have replayed : resolve setting type = _ :=
    (Reading.replay_resolveWith (faithful_emit setting) setting type).symm
  constructor
  · intro target gives
    refine ⟨fun nests => ?_, ?_⟩
    · obtain ⟨name, fault⟩ := nests_iff_fault.mp nests
      exact sound_of_resolve gives _ fault
    · rw [replayed] at gives
      exact (kept_of_replay respects.note (meets_emit respects) gives).2
  · intro name fails
    rw [replayed] at fails
    rcases broken_of_replay respects.note (meets_emit respects) fails with broken | ⟨-, found⟩
    · exact .inr (broken.2 name rfl)
    · exact .inl (nests_iff_fault.mpr ⟨name, fault_of_resolveWith found⟩)

end Interop.Session
