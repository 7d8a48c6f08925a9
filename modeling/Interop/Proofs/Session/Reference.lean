import Interop.Proofs.Session.Emission

/-! What declarations refer to. The relations follow the shape of types and the tables of the
configuration, without an order or a limit; a reading that succeeds asks for exactly the
declarations that are referred to, and every name in its targets is one of them. -/
namespace Interop

namespace Target

mutual

def names : Target → List String
  | .primitive _ => []
  | .named name => [name]
  | .pointer pointee => pointee.names
  | .functionPointer parameters result => parameterNames parameters ++ result.names
  | .array element _ => element.names

def parameterNames : List Target → List String
  | [] => []
  | parameter :: parameters => parameter.names ++ parameterNames parameters

end

end Target

def Signature.targets (signature : Signature) : List Target :=
  signature.parameters.map (·.type) ++ [signature.result]

namespace Declaration

/-- The types that an artifact spells out. -/
def targets : Declaration → List Target
  | .structure _ _ fields => fields.map (·.type)
  | .enumeration _ underlying _ => [underlying]
  | .native _ _ signatures | .wrapper _ _ _ signatures _ | .interface _ signatures _
  | .facade _ _ _ _ signatures _ => signatures.flatMap Signature.targets
  | .platformEnum => []

def names (declaration : Declaration) : List String := declaration.targets.flatMap Target.names

def tag? : Declaration → Option String
  | .structure name _ _ | .enumeration name _ _ => some name
  | _ => none

end Declaration

namespace Session

section

variable (setting : Setting)

/-- A name leads to a known declaration, its own or the one at the end of its overrides. -/
inductive StandsFor : String → String → Prop where
  | known {name : String} : setting.context.isKnown name → StandsFor name name
  | overridden {name next target : String} : ¬ setting.context.isKnown name →
      setting.configuration.notFoundOverrides.lookup name = some next →
      StandsFor next target → StandsFor name target

/-- A type refers to a known declaration. Typedefs count as what they unwrap to, unless they
are enumerations of their own. -/
inductive Refers : CType → String → Prop where
  | pointer {pointee : CType} {name : String} : Refers pointee name → Refers (.pointer pointee) name
  | element {element : CType} {length : Option Nat} {name : String} :
      Refers element name → Refers (.array element length) name
  | parameter {parameters : List CType} {parameter result : CType} {name : String} :
      parameter ∈ parameters → Refers parameter name → Refers (.function parameters result) name
  | result {parameters : List CType} {result : CType} {name : String} :
      Refers result name → Refers (.function parameters result) name
  | tag {reference : TagReference} {declared name : String} :
      tagName setting.context reference = .ok declared → StandsFor setting declared name →
      Refers (.tag reference) name
  | ownEnumeration {declared name : String} :
      setting.configuration.typedefStrategies.lookup declared = some .namedEnum →
      StandsFor setting declared name → Refers (.typedef declared) name
  | unwrapped {declared name : String} {typedef : Typedef} :
      setting.configuration.typedefStrategies.lookup declared ≠ some .namedEnum →
      setting.context.typedef? declared = some typedef →
      Refers typedef.underlying name → Refers (.typedef declared) name

/-- A field or parameter refers to its override alone, if there is one, and else to what its
type refers to. -/
def MemberRefers (m : Member) (name : String) : Prop :=
  match setting.configuration.nameOverrides.lookup m.name with
  | some target => name = target
  | none => Refers setting m.type name

def FunctionRefers (function : Function) (name : String) : Prop :=
  (∃ m ∈ function.parameters, MemberRefers setting m name) ∨ Refers setting function.result name

def DeclarationRefers : TagDeclaration → String → Prop
  | .struct struct, name => ∃ m ∈ struct.fields, MemberRefers setting m name
  | .enumeration _, _ => False

end

variable {setting : Setting}

theorem StandsFor.isKnown {name target : String} (stands : StandsFor setting name target) :
    setting.context.isKnown target := by
  induction stands with
  | known known => exact known
  | overridden _ _ _ ih => exact ih

/-- A name leads to one declaration at most. -/
theorem StandsFor.unique {name target other : String} (left : StandsFor setting name target)
    (right : StandsFor setting name other) : target = other := by
  induction left with
  | known known =>
    cases right with
    | known => rfl
    | overridden unknown => exact absurd known unknown
  | overridden unknown entry _ ih =>
    cases right with
    | known known => exact absurd known unknown
    | overridden _ entry' rest' =>
      obtain rfl := Option.some.inj (entry.symm.trans entry')
      exact ih rest'

theorem Refers.isKnown {type : CType} {name : String} (refers : Refers setting type name) :
    setting.context.isKnown name := by
  induction refers with
  | pointer _ ih | element _ ih | parameter _ _ ih | result _ ih | unwrapped _ _ _ ih => exact ih
  | tag _ stands | ownEnumeration _ stands => exact stands.isKnown

theorem standsFor_of_followOverrides {start target current : String} {bound : Nat}
    {chain : List String} (unknown : ¬ setting.context.isKnown current)
    (found : followOverrides setting start bound chain current = .ok target) :
    StandsFor setting current target := by
  induction bound generalizing chain current with
  | zero => cases found
  | succ bound ih =>
    rw [followOverrides] at found
    split at found
    · split at found <;> cases found
    · next next entry =>
      split at found
      · cases found
      · split at found
        · next known =>
          cases found
          exact .overridden unknown entry (.known known)
        · next unknownNext => exact .overridden unknown entry (ih unknownNext found)

theorem standsFor_of_redirect {name target : String} (unknown : ¬ setting.context.isKnown name)
    (found : redirect setting name = .ok target) : StandsFor setting name target :=
  standsFor_of_followOverrides unknown found

/-- The names asked for are those referred to, and those used are among them. -/
structure Covers (refers : String → Prop) (names used : List String) : Prop where
  mem_iff : ∀ name, name ∈ names ↔ refers name
  used : used ⊆ names

theorem Covers.congr {refers refers' : String → Prop} {names used : List String}
    (covers : Covers refers names used) (same : ∀ name, refers name ↔ refers' name) :
    Covers refers' names used :=
  ⟨fun name => (covers.mem_iff name).trans (same name), covers.used⟩

theorem Covers.append {first second : String → Prop} {early late used used' : List String}
    (left : Covers first early used) (right : Covers second late used') :
    Covers (fun name => first name ∨ second name) (early ++ late) (used ++ used') where
  mem_iff name := by rw [List.mem_append, left.mem_iff, right.mem_iff]
  used := List.append_subset.mpr ⟨List.subset_append_of_subset_left _ left.used,
    List.subset_append_of_subset_right _ right.used⟩

open Reading

theorem enter_yields {name result : String} {names : List String}
    (yields : Yields ((Reading.effects setting).enter name) result names) :
    StandsFor setting name result ∧ names = [result] := by
  simp only [Reading.effects, enterBy, registerBy, bind_pure_comp, yields_map] at yields
  obtain ⟨registration, yields, rfl⟩ := yields
  split at yields
  · next known =>
    obtain ⟨rfl, rfl⟩ := yields_enter.mp yields
    exact ⟨.known known, rfl⟩
  · next unknown =>
    split at yields
    · next target found =>
      obtain ⟨_, entered, rfl⟩ := yields_map.mp yields
      obtain ⟨-, rfl⟩ := yields_enter.mp entered
      exact ⟨standsFor_of_redirect unknown found, rfl⟩
    · exact absurd yields yields_fail

theorem covers_enter {name result : String} {names : List String}
    (yields : Yields ((Reading.effects setting).enter name) result names) :
    Covers (StandsFor setting name) names (Target.named result).names := by
  obtain ⟨stands, rfl⟩ := enter_yields yields
  refine ⟨fun other => ?_, List.Subset.refl _⟩
  rw [List.mem_singleton]
  exact ⟨fun same => same ▸ stands, fun also => also.unique stands⟩

theorem covers_resolveTag {reference : TagReference} {target : Target} {names : List String}
    (yields : Yields (resolveTag setting (Reading.effects setting) reference) target names) :
    Covers (Refers setting (.tag reference)) names target.names := by
  rw [resolveTag] at yields
  split at yields
  · next declared found =>
    rw [bind_pure_comp] at yields
    obtain ⟨result, entered, rfl⟩ := yields_map.mp yields
    refine (covers_enter entered).congr fun name => ⟨.tag found, fun refers => ?_⟩
    cases refers with
    | tag found' stands =>
      obtain rfl := Except.ok.inj (found.symm.trans found')
      exact stands
  · exact absurd yields yields_fail

theorem refers_pointer {pointee : CType} {name : String} :
    Refers setting (.pointer pointee) name ↔ Refers setting pointee name :=
  ⟨fun | .pointer refers => refers, .pointer⟩

theorem refers_array {element : CType} {length : Option Nat} {name : String} :
    Refers setting (.array element length) name ↔ Refers setting element name :=
  ⟨fun | .element refers => refers, .element⟩

theorem refers_function {parameters : List CType} {result : CType} {name : String} :
    Refers setting (.function parameters result) name ↔
      (∃ parameter ∈ parameters, Refers setting parameter name) ∨ Refers setting result name :=
  ⟨fun
    | .parameter member refers => .inl ⟨_, member, refers⟩
    | .result refers => .inr refers,
   fun
    | .inl ⟨_, member, refers⟩ => .parameter member refers
    | .inr refers => .result refers⟩

theorem yields_primitive {kind : Primitive} {target : Target} {names : List String}
    (yields : Yields (primitive setting (Reading.effects setting) kind) target names) :
    names = [] ∧ target.names = [] := by
  rw [primitive] at yields
  split at yields
  · obtain ⟨rfl, rfl⟩ := yields_pure.mp yields
    exact ⟨rfl, rfl⟩
  · exact absurd yields yields_fail

mutual

theorem covers_resolveType {unwrap : String → Reading Target}
    (unwraps : ∀ declared target names, Yields (unwrap declared) target names →
      Covers (Refers setting (.typedef declared)) names target.names) :
    (type : CType) → {target : Target} → {names : List String} →
    Yields (resolveType setting (Reading.effects setting) unwrap type) target names →
    Covers (Refers setting type) names target.names
  | .builtin kind, _, _, yields => by
    obtain ⟨rfl, used⟩ := yields_primitive yields
    rw [used]
    exact ⟨fun name => ⟨nofun, nofun⟩, List.Subset.refl _⟩
  | .pointer pointee, _, _, yields => by
    simp only [resolveType, bind_pure_comp] at yields
    obtain ⟨target, pointed, rfl⟩ := yields_map.mp yields
    have covers := (covers_resolveType unwraps pointee pointed).congr fun name =>
      (@refers_pointer setting pointee name).symm
    split <;> exact covers
  | .tag reference, _, _, yields => covers_resolveTag yields
  | .typedef declared, _, _, yields => unwraps declared _ _ yields
  | .function parameters result, _, _, yields => by
    simp only [resolveType, bind_pure_comp] at yields
    obtain ⟨targets, early, late, first, second, rfl⟩ := yields_bind.mp yields
    obtain ⟨target, last, rfl⟩ := yields_map.mp second
    exact ((covers_resolveTypes unwraps parameters first).append
      (covers_resolveType unwraps result last)).congr fun name => refers_function.symm
  | .array element length, _, _, yields => by
    simp only [resolveType, bind_pure_comp] at yields
    obtain ⟨target, inner, rfl⟩ := yields_map.mp yields
    exact (covers_resolveType unwraps element inner).congr fun name => refers_array.symm

theorem covers_resolveTypes {unwrap : String → Reading Target}
    (unwraps : ∀ declared target names, Yields (unwrap declared) target names →
      Covers (Refers setting (.typedef declared)) names target.names) :
    (types : List CType) → {targets : List Target} → {names : List String} →
    Yields (resolveTypes setting (Reading.effects setting) unwrap types) targets names →
    Covers (fun name => ∃ type ∈ types, Refers setting type name) names (Target.parameterNames targets)
  | [], _, _, yields => by
    obtain ⟨rfl, rfl⟩ := yields_pure.mp yields
    exact ⟨fun name => by simp, List.Subset.refl _⟩
  | type :: types, _, _, yields => by
    simp only [resolveTypes, bind_pure_comp] at yields
    obtain ⟨target, early, late, first, second, rfl⟩ := yields_bind.mp yields
    obtain ⟨targets, last, rfl⟩ := yields_map.mp second
    exact ((covers_resolveType unwraps type first).append
      (covers_resolveTypes unwraps types last)).congr fun name => by simp

end

theorem refers_unwrapped {declared name : String} {typedef : Typedef}
    (strategy : setting.configuration.typedefStrategies.lookup declared ≠ some .namedEnum)
    (known : setting.context.typedef? declared = some typedef) :
    Refers setting (.typedef declared) name ↔ Refers setting typedef.underlying name := by
  refine ⟨fun refers => ?_, .unwrapped strategy known⟩
  cases refers with
  | ownEnumeration own => exact absurd own strategy
  | unwrapped _ known' refers =>
    obtain rfl := Option.some.inj (known.symm.trans known')
    exact refers

theorem refers_ownEnumeration {declared name : String}
    (strategy : setting.configuration.typedefStrategies.lookup declared = some .namedEnum) :
    Refers setting (.typedef declared) name ↔ Refers setting (.tag (.named declared)) name := by
  refine ⟨fun refers => ?_, fun refers => ?_⟩
  · cases refers with
    | ownEnumeration _ stands => exact .tag rfl stands
    | unwrapped other => exact absurd strategy other
  · cases refers with
    | tag found stands =>
      cases found
      exact .ownEnumeration strategy stands

theorem yields_noteUnwrapped {declared : String} {names : List String}
    (yields : Yields (noteUnwrapped setting (Reading.effects setting) declared) ⟨⟩ names) :
    names = [] := by
  rw [noteUnwrapped] at yields
  split at yields
  · exact yields_note.mp yields
  · exact (yields_pure.mp yields).2

theorem covers_resolveTypedef {room : Nat} {declared : String} {target : Target} {names : List String}
    (yields : Yields (resolveTypedef setting (Reading.effects setting) room declared) target names) :
    Covers (Refers setting (.typedef declared)) names target.names := by
  by_cases strategy : setting.configuration.typedefStrategies.lookup declared = some .namedEnum
  · rw [resolveTypedef_named _ _ room strategy] at yields
    exact (covers_resolveTag yields).congr fun name => (refers_ownEnumeration strategy).symm
  cases known : setting.context.typedef? declared with
  | none =>
    rw [resolveTypedef_unknown _ _ strategy room known] at yields
    exact absurd yields yields_fail
  | some typedef =>
    cases room with
    | zero =>
      rw [resolveTypedef_zero _ _ strategy known] at yields
      exact absurd yields yields_fail
    | succ room =>
      rw [resolveTypedef_succ _ _ strategy room known] at yields
      obtain ⟨_, early, late, noted, unwrapped, rfl⟩ := yields_bind.mp yields
      obtain rfl := yields_noteUnwrapped noted
      exact (covers_resolveType (fun _ _ _ => covers_resolveTypedef) typedef.underlying
        unwrapped).congr fun name => (refers_unwrapped strategy known).symm

theorem covers_resolveWith {type : CType} {target : Target} {names : List String}
    (yields : Yields (resolveWith setting (Reading.effects setting) type) target names) :
    Covers (Refers setting type) names target.names :=
  covers_resolveType (fun _ _ _ => covers_resolveTypedef) type yields

theorem covers_resolveMemberWith {m : Member} {target : Target} {names : List String}
    (yields : Yields (resolveMemberWith setting (Reading.effects setting) m.name m.type) target names) :
    Covers (MemberRefers setting m) names target.names := by
  cases entry : setting.configuration.nameOverrides.lookup m.name with
  | none =>
    simp only [resolveMemberWith, entry] at yields
    exact (covers_resolveWith yields).congr fun name => by simp only [MemberRefers, entry]
  | some override =>
    simp only [resolveMemberWith, entry] at yields
    split at yields
    · next known =>
      refine (covers_resolveTag yields).congr fun name => ?_
      simp only [MemberRefers, entry]
      refine ⟨fun refers => ?_, fun same => by subst same; exact .tag rfl (.known known)⟩
      cases refers with
      | tag found stands =>
        cases found
        exact stands.unique (.known known)
    · exact absurd yields yields_fail

theorem covers_resolveMembersWith {rename : String → Nat → String} {declared : List Member}
    {members : List TargetMember} {names : List String}
    (yields : Yields (resolveMembersWith setting (Reading.effects setting) rename declared) members names) :
    Covers (fun name => ∃ m ∈ declared, MemberRefers setting m name) names
      ((members.map (·.type)).flatMap Target.names) := by
  unfold resolveMembersWith at yields
  generalize 0 = start at yields
  induction declared generalizing start members names with
  | nil =>
    obtain ⟨rfl, rfl⟩ := yields_pure.mp yields
    exact ⟨fun name => by simp, List.Subset.refl _⟩
  | cons m declared ih =>
    simp only [List.zipIdx_cons, List.mapM_cons, bind_pure_comp] at yields
    obtain ⟨_, early, late, first, second, rfl⟩ := yields_bind.mp yields
    obtain ⟨target, member, rfl⟩ := yields_map.mp first
    obtain ⟨rest, others, rfl⟩ := yields_map.mp second
    refine ((covers_resolveMemberWith member).append (ih (start + 1) ?_)).congr fun name => by simp
    simpa only [bind_pure_comp] using others

theorem covers_declare {name : String} {declaration : TagDeclaration} {made : Declaration}
    {names : List String} (yields : Yields (plan setting name declaration) made names) :
    Covers (DeclarationRefers setting declaration) names made.names := by
  cases declaration with
  | struct struct =>
    simp only [plan, declare, bind_pure_comp] at yields
    obtain ⟨fields, members, rfl⟩ := yields_map.mp yields
    exact covers_resolveMembersWith members
  | enumeration enumeration =>
    simp only [plan, declare, bind_pure_comp] at yields
    obtain ⟨underlying, read, rfl⟩ := yields_map.mp yields
    obtain ⟨rfl, used⟩ := yields_primitive read
    exact ⟨fun name => by simp [DeclarationRefers], by simp [Declaration.names, Declaration.targets, used]⟩

theorem covers_signatureWith {function : Function} {signature : Signature} {names : List String}
    (yields : Yields (signatureWith setting (Reading.effects setting) function) signature names) :
    Covers (FunctionRefers setting function) names (signature.targets.flatMap Target.names) := by
  simp only [signatureWith, bind_pure_comp] at yields
  obtain ⟨parameters, early, late, first, second, rfl⟩ := yields_bind.mp yields
  obtain ⟨result, last, rfl⟩ := yields_map.mp second
  simp only [Signature.targets, List.flatMap_append, List.flatMap_singleton]
  exact ((covers_resolveMembersWith first).append (covers_resolveWith last)).congr fun name => Iff.rfl

/-- The artifact of a declaration declares its name. -/
theorem tag?_declare {name : String} {declaration : TagDeclaration} {made : Declaration}
    {names : List String} (yields : Yields (plan setting name declaration) made names) :
    made.tag? = some (artifactName name declaration) := by
  cases declaration with
  | struct struct =>
    simp only [plan, declare, bind_pure_comp] at yields
    obtain ⟨fields, _, rfl⟩ := yields_map.mp yields
    rfl
  | enumeration enumeration =>
    simp only [plan, declare, bind_pure_comp] at yields
    obtain ⟨underlying, _, rfl⟩ := yields_map.mp yields
    rfl

end Session

end Interop
