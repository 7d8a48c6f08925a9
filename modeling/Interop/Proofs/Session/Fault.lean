import Interop.Proofs.Session.Calls

/-! Why resolution fails. A fault lies in a type or in one of its parts, or in what a typedef unwraps to,
and says with which error it is met; types resolve exactly if there is no fault in them. -/
namespace Interop

namespace GenerationError

inductive OfTag : GenerationError → Prop where
  | unnamedEnumeration (index : Nat) : OfTag (.unnamedEnumeration index)
  | unsupportedName (name : String) : OfTag (.unsupportedName name)
  | unknownOverrideTarget (name target : String) : OfTag (.unknownOverrideTarget name target)
  | overrideCycle (chain : List String) : OfTag (.overrideCycle chain)

inductive OfType : GenerationError → Prop where
  | missingPrimitive (primitive : Primitive) : OfType (.missingPrimitive primitive)
  | unknownTypedef (name : String) : OfType (.unknownTypedef name)
  | typedefCycle (name : String) : OfType (.typedefCycle name)
  | tag {error : GenerationError} : error.OfTag → OfType error

end GenerationError

namespace Reading

variable {α β : Type}

theorem result_bind (reading : Reading α) (next : α → Reading β) :
    (reading >>= next).result = reading.result >>= fun value => (next value).result := by
  obtain ⟨actions, error | value⟩ := reading <;> rfl

theorem bind_eq_error_iff {reading : Reading α} {next : α → Reading β} {error : GenerationError} :
    (reading >>= next).result = .error error ↔ reading.result = .error error ∨
      ∃ value, reading.result = .ok value ∧ (next value).result = .error error := by
  rw [result_bind]
  cases reading.result with
  | error failed => simp [bind, Except.bind]
  | ok value => simp [bind, Except.bind]

theorem map_eq_error_iff {f : α → β} {reading : Reading α} {error : GenerationError} :
    (f <$> reading).result = .error error ↔ reading.result = .error error := by
  rw [← bind_pure_comp, bind_eq_error_iff]
  simp [Pure.pure]

/-- Items are read one after another up to the first that fails. -/
theorem mem_of_mapM_error {f : α → Reading β} {items : List α} {error : GenerationError}
    (failed : (items.mapM f).result = .error error) : ∃ item ∈ items, (f item).result = .error error := by
  induction items with
  | nil => cases failed
  | cons item items ih =>
    rw [List.mapM_cons, bind_eq_error_iff] at failed
    rcases failed with here | ⟨value, -, rest⟩
    · exact ⟨item, List.mem_cons_self, here⟩
    · rw [bind_pure_comp, map_eq_error_iff] at rest
      obtain ⟨other, member, found⟩ := ih rest
      exact ⟨other, List.mem_cons_of_mem _ member, found⟩

theorem exists_mapM_error {f : α → Reading β} {items : List α} {item : α} (member : item ∈ items)
    (failed : ∃ error, (f item).result = .error error) : ∃ error, (items.mapM f).result = .error error := by
  induction items with
  | nil => cases member
  | cons first items ih =>
    simp only [List.mapM_cons, bind_pure_comp, bind_eq_error_iff, map_eq_error_iff]
    cases begun : (f first).result with
    | error error => exact ⟨error, .inl rfl⟩
    | ok value =>
      rcases List.mem_cons.mp member with rfl | later
      · obtain ⟨error, failed⟩ := failed
        cases begun.symm.trans failed
      · obtain ⟨error, rest⟩ := ih later
        exact ⟨error, .inr ⟨value, rfl, rest⟩⟩

end Reading

namespace Session

section

variable (setting : Setting)

/-- A tag has no name, or its name leads to no declaration. -/
inductive TagFault (reference : TagReference) (error : GenerationError) : Prop where
  | unnamed : tagName setting.context reference = .error error → TagFault reference error
  | astray {name : String} : tagName setting.context reference = .ok name →
      ¬ setting.context.isKnown name → redirect setting name = .error error → TagFault reference error

/-- A type has a fault, where there is room for so many unwrapped typedefs. A tag hides the faults of
its declaration. -/
inductive Fault : Nat → CType → GenerationError → Prop where
  | builtin {room : Nat} {kind : Primitive} : setting.primitives.lookup kind = none →
      Fault room (.builtin kind) (.missingPrimitive kind)
  | part {room : Nat} {inner outer : CType} {error : GenerationError} : CType.Part inner outer →
      Fault room inner error → Fault room outer error
  | tag {room : Nat} {reference : TagReference} {error : GenerationError} :
      TagFault setting reference error → Fault room (.tag reference) error
  | ownEnumeration {room : Nat} {name : String} {error : GenerationError} :
      setting.configuration.typedefStrategies.lookup name = some .namedEnum →
      TagFault setting (.named name) error → Fault room (.typedef name) error
  | undeclared {room : Nat} {name : String} :
      setting.configuration.typedefStrategies.lookup name ≠ some .namedEnum →
      setting.context.typedef? name = none → Fault room (.typedef name) (.unknownTypedef name)
  | noRoom {name : String} {typedef : Typedef} :
      setting.configuration.typedefStrategies.lookup name ≠ some .namedEnum →
      setting.context.typedef? name = some typedef → Fault 0 (.typedef name) (.typedefCycle name)
  | underlying {room : Nat} {name : String} {typedef : Typedef} {error : GenerationError} :
      setting.configuration.typedefStrategies.lookup name ≠ some .namedEnum →
      setting.context.typedef? name = some typedef → Fault room typedef.underlying error →
      Fault (room + 1) (.typedef name) error

/-- The fault of a field or parameter is that of its type, unless its name is overridden. -/
def MemberFault (m : Member) (error : GenerationError) : Prop :=
  match setting.configuration.nameOverrides.lookup m.name with
  | none => Fault setting typedefLimit m.type error
  | some target => ¬ setting.context.isKnown target ∧ error = .unknownOverrideTarget m.name target

def DeclarationFault : TagDeclaration → GenerationError → Prop
  | .struct struct, error => ∃ m ∈ struct.fields, MemberFault setting m error
  | .enumeration enumeration, error =>
    setting.primitives.lookup enumeration.underlying = none ∧ error = .missingPrimitive enumeration.underlying

end

variable {setting : Setting} {room : Nat} {error : GenerationError}

theorem ofTag_of_followOverrides {start current : String} {bound : Nat} {chain : List String}
    (failed : followOverrides setting start bound chain current = .error error) : error.OfTag := by
  fun_induction followOverrides setting start bound chain current with
  | case1 =>
    cases failed
    exact .overrideCycle _
  | case2 =>
    cases failed
    exact .unsupportedName _
  | case3 =>
    cases failed
    exact .unknownOverrideTarget _ _
  | case4 =>
    cases failed
    exact .overrideCycle _
  | case5 => cases failed
  | case6 _ _ _ _ _ _ _ ih => exact ih failed

theorem TagFault.ofTag {reference : TagReference} (fault : TagFault setting reference error) :
    error.OfTag := by
  cases fault with
  | astray _ _ failed => exact ofTag_of_followOverrides failed
  | unnamed failed =>
    cases reference with
    | named name => cases failed
    | anonymous index =>
      rw [tagName] at failed
      split at failed
      · cases failed
      · cases failed
        exact .unnamedEnumeration index

theorem Fault.ofType {type : CType} (fault : Fault setting room type error) : error.OfType := by
  induction fault with
  | builtin => exact .missingPrimitive _
  | part _ _ ih | underlying _ _ _ ih => exact ih
  | tag fault | ownEnumeration _ fault => exact .tag fault.ofTag
  | undeclared => exact .unknownTypedef _
  | noRoom => exact .typedefCycle _

theorem MemberFault.ofType {m : Member} (fault : MemberFault setting m error) : error.OfType := by
  unfold MemberFault at fault
  split at fault
  · exact fault.ofType
  · obtain ⟨-, rfl⟩ := fault
    exact .tag (.unknownOverrideTarget _ _)

theorem DeclarationFault.ofType {declaration : TagDeclaration}
    (fault : DeclarationFault setting declaration error) : error.OfType := by
  cases declaration with
  | struct struct =>
    obtain ⟨m, -, fault⟩ := fault
    exact fault.ofType
  | enumeration enumeration =>
    obtain ⟨-, rfl⟩ := fault
    exact .missingPrimitive _

open Reading

theorem enter_eq_error_iff {name : String} : ((Reading.effects setting).enter name).result = .error error ↔
    ¬ setting.context.isKnown name ∧ redirect setting name = .error error := by
  simp only [Reading.effects, enterBy, registerBy, bind_pure_comp, map_eq_error_iff]
  split
  · next known => simp [known, Reading.enter]
  · next unknown =>
    cases redirect setting name with
    | ok target => simp [map_eq_error_iff, Reading.enter]
    | error failed => simp [unknown, Reading.fail]

/-- A tag that is not resolved is at fault. -/
theorem resolveTag_eq_error_iff {reference : TagReference} :
    (resolveTag setting (Reading.effects setting) reference).result = .error error ↔
      TagFault setting reference error := by
  rw [resolveTag]
  cases found : tagName setting.context reference with
  | error failed =>
    constructor
    · rintro ⟨⟩
      exact .unnamed found
    · rintro (failed | ⟨found', -, -⟩)
      · exact congrArg _ (Except.error.inj (found.symm.trans failed))
      · cases found.symm.trans found'
  | ok name =>
    simp only [bind_pure_comp, map_eq_error_iff, enter_eq_error_iff]
    constructor
    · rintro ⟨unknown, failed⟩
      exact .astray found unknown failed
    · rintro (failed | ⟨found', unknown, failed⟩)
      · cases found.symm.trans failed
      · obtain rfl := Except.ok.inj (found.symm.trans found')
        exact ⟨unknown, failed⟩

theorem primitive_eq_error_iff {kind : Primitive} :
    (primitive setting (Reading.effects setting) kind).result = .error error ↔
      setting.primitives.lookup kind = none ∧ error = .missingPrimitive kind := by
  rw [primitive]
  split
  · next found => simp [found, Pure.pure]
  · next missing => simp [missing, Reading.effects, Reading.fail, eq_comm]

mutual

theorem fault_of_resolveType {unwrap : String → Reading Target}
    (unwraps : ∀ name error, (unwrap name).result = .error error → Fault setting room (.typedef name) error) :
    (type : CType) → (resolveType setting (Reading.effects setting) unwrap type).result = .error error →
    Fault setting room type error
  | .builtin kind, failed => by
    obtain ⟨missing, rfl⟩ := primitive_eq_error_iff.mp failed
    exact .builtin missing
  | .pointer pointee, failed => by
    simp only [resolveType, bind_pure_comp, map_eq_error_iff] at failed
    exact .part (.pointee pointee) (fault_of_resolveType unwraps pointee failed)
  | .tag reference, failed => .tag (resolveTag_eq_error_iff.mp failed)
  | .typedef name, failed => unwraps name _ failed
  | .function parameters result, failed => by
    simp only [resolveType, bind_pure_comp, bind_eq_error_iff, map_eq_error_iff] at failed
    rcases failed with early | ⟨targets, -, late⟩
    · obtain ⟨parameter, member, fault⟩ := fault_of_resolveTypes unwraps parameters early
      exact .part (.parameter result member) fault
    · exact .part (.result parameters result) (fault_of_resolveType unwraps result late)
  | .array element length, failed => by
    simp only [resolveType, bind_pure_comp, map_eq_error_iff] at failed
    exact .part (.element element length) (fault_of_resolveType unwraps element failed)

theorem fault_of_resolveTypes {unwrap : String → Reading Target}
    (unwraps : ∀ name error, (unwrap name).result = .error error → Fault setting room (.typedef name) error) :
    (types : List CType) →
    (resolveTypes setting (Reading.effects setting) unwrap types).result = .error error →
    ∃ type ∈ types, Fault setting room type error
  | [], failed => by cases failed
  | type :: types, failed => by
    simp only [resolveTypes, bind_pure_comp, bind_eq_error_iff, map_eq_error_iff] at failed
    rcases failed with early | ⟨target, -, late⟩
    · exact ⟨type, List.mem_cons_self, fault_of_resolveType unwraps type early⟩
    · obtain ⟨other, member, fault⟩ := fault_of_resolveTypes unwraps types late
      exact ⟨other, List.mem_cons_of_mem _ member, fault⟩

end

theorem fault_of_resolveTypedef {room : Nat} {name : String} {error : GenerationError}
    (failed : (resolveTypedef setting (Reading.effects setting) room name).result = .error error) :
    Fault setting room (.typedef name) error := by
  by_cases strategy : setting.configuration.typedefStrategies.lookup name = some .namedEnum
  · rw [resolveTypedef_named _ _ room strategy, resolveTag_eq_error_iff] at failed
    exact .ownEnumeration strategy failed
  cases known : setting.context.typedef? name with
  | none =>
    rw [resolveTypedef_unknown _ _ strategy room known] at failed
    cases failed
    exact .undeclared strategy known
  | some typedef =>
    cases room with
    | zero =>
      rw [resolveTypedef_zero _ _ strategy known] at failed
      cases failed
      exact .noRoom strategy known
    | succ room =>
      rw [resolveTypedef_succ _ _ strategy room known, bind_eq_error_iff] at failed
      rcases failed with noted | ⟨-, -, failed⟩
      · rw [noteUnwrapped] at noted
        split at noted <;> cases noted
      · exact .underlying strategy known (fault_of_resolveType (fun _ _ => fault_of_resolveTypedef) _ failed)

theorem fault_of_resolveWith {type : CType}
    (failed : (resolveWith setting (Reading.effects setting) type).result = .error error) :
    Fault setting typedefLimit type error :=
  fault_of_resolveType (fun _ _ => fault_of_resolveTypedef) type failed

/-- A typedef fails with what it unwraps to. -/
theorem exists_error_underlying {name : String} {typedef : Typedef}
    (strategy : setting.configuration.typedefStrategies.lookup name ≠ some .namedEnum)
    (known : setting.context.typedef? name = some typedef)
    (failed : ∃ error, (resolveType setting (Reading.effects setting)
      (resolveTypedef setting (Reading.effects setting) room) typedef.underlying).result = .error error) :
    ∃ error, (resolveTypedef setting (Reading.effects setting) (room + 1) name).result = .error error := by
  obtain ⟨error, failed⟩ := failed
  refine ⟨error, ?_⟩
  rw [resolveTypedef_succ _ _ strategy room known, bind_eq_error_iff]
  refine .inr ⟨⟨⟩, ?_, failed⟩
  rw [noteUnwrapped]
  split <;> rfl

theorem exists_error_part {unwrap : String → Reading Target} {inner outer : CType} (part : CType.Part inner outer)
    (failed : ∃ error, (resolveType setting (Reading.effects setting) unwrap inner).result = .error error) :
    ∃ error, (resolveType setting (Reading.effects setting) unwrap outer).result = .error error := by
  cases part with
  | pointee | element => simpa only [resolveType, bind_pure_comp, map_eq_error_iff] using failed
  | parameter result member =>
    obtain ⟨error, failed⟩ := exists_mapM_error member failed
    refine ⟨error, ?_⟩
    rw [resolveType, resolveTypes_eq_mapM, bind_eq_error_iff]
    exact .inl failed
  | result parameters =>
    obtain ⟨error, failed⟩ := failed
    simp only [resolveType, bind_pure_comp, bind_eq_error_iff, map_eq_error_iff]
    cases read : (resolveTypes setting (Reading.effects setting) unwrap parameters).result with
    | error early => exact ⟨early, .inl rfl⟩
    | ok targets => exact ⟨error, .inr ⟨targets, rfl, failed⟩⟩

/-- A type with a fault does not resolve, though another fault may be met first. -/
theorem exists_error_of_fault {type : CType} (fault : Fault setting room type error) :
    ∃ other, (resolveType setting (Reading.effects setting)
      (resolveTypedef setting (Reading.effects setting) room) type).result = .error other := by
  induction fault with
  | builtin missing => exact ⟨_, primitive_eq_error_iff.mpr ⟨missing, rfl⟩⟩
  | part part _ ih => exact exists_error_part part ih
  | tag fault => exact ⟨_, resolveTag_eq_error_iff.mpr fault⟩
  | @ownEnumeration room _ error strategy fault =>
    refine ⟨error, ?_⟩
    rw [resolveType, resolveTypedef_named _ _ room strategy]
    exact resolveTag_eq_error_iff.mpr fault
  | @undeclared room name strategy unknown =>
    refine ⟨.unknownTypedef name, ?_⟩
    rw [resolveType, resolveTypedef_unknown _ _ strategy room unknown]
    rfl
  | @noRoom name _ strategy known =>
    refine ⟨.typedefCycle name, ?_⟩
    rw [resolveType, resolveTypedef_zero _ _ strategy known]
    rfl
  | underlying strategy known _ ih => exact exists_error_underlying strategy known ih

theorem not_fault_of_resolveWith {type : CType} {target : Target}
    (resolved : (resolveWith setting (Reading.effects setting) type).result = .ok target) :
    ¬ Fault setting typedefLimit type error := by
  intro fault
  obtain ⟨other, failed⟩ := exists_error_of_fault fault
  cases resolved.symm.trans failed

/-- What resolves in a session has no fault. -/
theorem sound_of_resolve {type : CType} {target : Target} {before after : Progress}
    (gives : Work.Gives (resolve setting type) before target after) (error : GenerationError) :
    ¬ Fault setting typedefLimit type error := by
  rw [resolve, Session.effects, ← replay_resolveWith (faithful_emit setting)] at gives
  exact not_fault_of_resolveWith (result_of_replay gives)

theorem fault_of_resolveMemberWith {m : Member}
    (failed : (resolveMemberWith setting (Reading.effects setting) m.name m.type).result = .error error) :
    MemberFault setting m error := by
  rw [resolveMemberWith] at failed
  rw [MemberFault]
  cases entry : setting.configuration.nameOverrides.lookup m.name with
  | none =>
    rw [entry] at failed
    exact fault_of_resolveWith failed
  | some target =>
    simp only [entry] at failed
    split at failed
    · next known =>
      rcases resolveTag_eq_error_iff.mp failed with unnamed | ⟨found, unknown, -⟩
      · cases unnamed
      · cases found
        exact absurd known unknown
    · next unknown => exact ⟨unknown, (Except.error.inj failed).symm⟩

theorem exists_error_of_memberFault {m : Member} (fault : MemberFault setting m error) :
    ∃ other, (resolveMemberWith setting (Reading.effects setting) m.name m.type).result = .error other := by
  rw [MemberFault] at fault
  rw [resolveMemberWith]
  cases entry : setting.configuration.nameOverrides.lookup m.name with
  | none =>
    rw [entry] at fault
    exact exists_error_of_fault fault
  | some target =>
    simp only [entry] at fault
    simp only [fault.1]
    exact ⟨_, rfl⟩

theorem fault_of_resolveMembersWith {rename : String → Nat → String} {declared : List Member}
    (failed : (resolveMembersWith setting (Reading.effects setting) rename declared).result = .error error) :
    ∃ m ∈ declared, MemberFault setting m error := by
  obtain ⟨⟨m, index⟩, member, failed⟩ := mem_of_mapM_error failed
  simp only [bind_pure_comp, map_eq_error_iff] at failed
  exact ⟨m, List.fst_mem_of_mem_zipIdx member, fault_of_resolveMemberWith failed⟩

theorem fault_of_plan {name : String} {declaration : TagDeclaration}
    (failed : (plan setting name declaration).result = .error error) :
    DeclarationFault setting declaration error := by
  cases declaration with
  | struct struct =>
    simp only [plan, declare, bind_pure_comp, map_eq_error_iff] at failed
    exact fault_of_resolveMembersWith failed
  | enumeration enumeration =>
    simp only [plan, declare, bind_pure_comp, map_eq_error_iff] at failed
    exact primitive_eq_error_iff.mp failed

theorem exists_error_of_declarationFault {name : String} {declaration : TagDeclaration}
    (fault : DeclarationFault setting declaration error) :
    ∃ other, (plan setting name declaration).result = .error other := by
  cases declaration with
  | struct struct =>
    obtain ⟨m, listed, fault⟩ := fault
    obtain ⟨index, found⟩ := List.mem_iff_getElem?.mp listed
    have entry : (m, index) ∈ struct.fields.zipIdx := List.mk_mem_zipIdx_iff_getElem?.mpr found
    simp only [plan, declare, bind_pure_comp, map_eq_error_iff]
    refine exists_mapM_error entry ?_
    simpa only [bind_pure_comp, map_eq_error_iff] using exists_error_of_memberFault fault
  | enumeration enumeration =>
    simp only [plan, declare, bind_pure_comp, map_eq_error_iff]
    exact ⟨error, primitive_eq_error_iff.mpr fault⟩

theorem ofType_of_signatureWith {function : Function}
    (failed : (signatureWith setting (Reading.effects setting) function).result = .error error) :
    error.OfType := by
  simp only [signatureWith, bind_pure_comp, bind_eq_error_iff, map_eq_error_iff] at failed
  rcases failed with early | ⟨parameters, -, late⟩
  · obtain ⟨m, -, fault⟩ := fault_of_resolveMembersWith early
    exact fault.ofType
  · exact (fault_of_resolveWith late).ofType

end Session

end Interop
