import Interop.Proofs.Session.Reference

/-! What a reading asks for, however it ends. Resolution asks for declarations one after another and stops
at the first part that fails; up to there it asks for nothing that is not referred to. -/
namespace Interop

namespace Reading

variable {α β : Type}

/-- A reading asks only for some declarations, even if it fails. -/
def Within (allowed : String → Prop) (reading : Reading α) : Prop := ∀ name ∈ reading.entered, allowed name

namespace Within

variable {allowed more : String → Prop}

theorem mono {reading : Reading α} (within : Within allowed reading) (weaker : ∀ name, allowed name → more name) :
    Within more reading :=
  fun name member => weaker name (within name member)

theorem pure (value : α) : Within allowed (Pure.pure value : Reading α) := nofun

theorem fail (error : GenerationError) : Within allowed (Reading.fail error : Reading α) := nofun

theorem note (event : Event) : Within allowed (Reading.note event) := nofun

theorem enter {name : String} (holds : allowed name) : Within allowed (Reading.enter name) := by
  intro other member
  obtain rfl := List.mem_singleton.mp member
  exact holds

theorem bind {reading : Reading α} {next : α → Reading β} (first : Within allowed reading)
    (rest : ∀ value, Within allowed (next value)) : Within allowed (reading >>= next) := by
  obtain ⟨actions, error | value⟩ := reading
  · exact first
  · intro name member
    rw [bind_ok, entered, List.filterMap_append, List.mem_append] at member
    exact member.elim (first name) (rest value name)

theorem map {reading : Reading α} (f : α → β) (within : Within allowed reading) :
    Within allowed (f <$> reading) := by
  rw [← bind_pure_comp]
  exact within.bind fun value => pure (f value)

theorem mapM {step : α → Reading β} {items : List α} (each : ∀ item ∈ items, Within allowed (step item)) :
    Within allowed (items.mapM step) := by
  induction items with
  | nil => exact pure []
  | cons item items ih =>
    rw [List.mapM_cons]
    refine (each item List.mem_cons_self).bind fun value => ?_
    exact (ih fun other member => each other (List.mem_cons_of_mem item member)).bind fun _ => pure _

end Within

end Reading

namespace Session

open Reading

variable {setting : Setting}

theorem within_enter (name : String) :
    Within (StandsFor setting name) ((Reading.effects setting).enter name) := by
  simp only [Reading.effects, enterBy, registerBy, bind_pure_comp]
  split
  · next known => exact .map _ (.enter (.known known))
  · next unknown =>
    split
    · next found => exact .map _ (.map _ (.enter (standsFor_of_redirect unknown found)))
    · exact .map _ (.fail _)

theorem within_resolveTag (reference : TagReference) :
    Within (Refers setting (.tag reference)) (resolveTag setting (Reading.effects setting) reference) := by
  rw [resolveTag]
  split
  · next name found => exact ((within_enter name).mono fun _ => .tag found).bind fun _ => .pure _
  · exact .fail _

theorem within_primitive (allowed : String → Prop) (kind : Primitive) :
    Within allowed (primitive setting (Reading.effects setting) kind) := by
  rw [primitive]
  split
  · exact .pure _
  · exact .fail _

mutual

theorem within_resolveType {unwrap : String → Reading Target}
    (unwraps : ∀ declared, Within (Refers setting (.typedef declared)) (unwrap declared)) :
    (type : CType) → Within (Refers setting type) (resolveType setting (Reading.effects setting) unwrap type)
  | .builtin kind => within_primitive _ kind
  | .pointer pointee => ((within_resolveType unwraps pointee).mono fun _ => .pointer).bind fun _ => .pure _
  | .tag reference => within_resolveTag reference
  | .typedef declared => unwraps declared
  | .function parameters result =>
    ((within_resolveTypes unwraps parameters).mono fun _ found => refers_function.mpr (.inl found)).bind fun _ =>
      ((within_resolveType unwraps result).mono fun _ => .result).bind fun _ => .pure _
  | .array element _ => ((within_resolveType unwraps element).mono fun _ => .element).bind fun _ => .pure _

theorem within_resolveTypes {unwrap : String → Reading Target}
    (unwraps : ∀ declared, Within (Refers setting (.typedef declared)) (unwrap declared)) : (types : List CType) →
    Within (fun name => ∃ type ∈ types, Refers setting type name)
      (resolveTypes setting (Reading.effects setting) unwrap types)
  | [] => .pure _
  | type :: types =>
    ((within_resolveType unwraps type).mono fun _ found => ⟨type, List.mem_cons_self, found⟩).bind fun _ =>
      ((within_resolveTypes unwraps types).mono fun _ found =>
        found.imp fun _ inner => ⟨List.mem_cons_of_mem type inner.1, inner.2⟩).bind fun _ => .pure _

end

theorem within_resolveTypedef (room : Nat) (declared : String) :
    Within (Refers setting (.typedef declared)) (resolveTypedef setting (Reading.effects setting) room declared) := by
  by_cases strategy : setting.configuration.typedefStrategies.lookup declared = some .namedEnum
  · rw [resolveTypedef_named _ _ room strategy]
    exact (within_resolveTag _).mono fun _ => (refers_ownEnumeration strategy).mpr
  cases known : setting.context.typedef? declared with
  | none =>
    rw [resolveTypedef_unknown _ _ strategy room known]
    exact .fail _
  | some typedef =>
    cases room with
    | zero =>
      rw [resolveTypedef_zero _ _ strategy known]
      exact .fail _
    | succ room =>
      rw [resolveTypedef_succ _ _ strategy room known]
      refine .bind ?_ fun _ => (within_resolveType (within_resolveTypedef room) typedef.underlying).mono
        fun _ => .unwrapped strategy known
      rw [noteUnwrapped]
      split
      · exact .note _
      · exact .pure _

theorem within_resolveWith (type : CType) :
    Within (Refers setting type) (resolveWith setting (Reading.effects setting) type) :=
  within_resolveType (within_resolveTypedef typedefLimit) type

/-- Members ask for known declarations: an override that is not known is not asked for. -/
theorem within_resolveMemberWith (m : Member) :
    Within (fun name => MemberRefers setting m name ∧ setting.context.isKnown name)
      (resolveMemberWith setting (Reading.effects setting) m.name m.type) := by
  rw [resolveMemberWith]
  cases entry : setting.configuration.nameOverrides.lookup m.name with
  | none =>
    refine (within_resolveWith m.type).mono fun name refers => ?_
    simp only [MemberRefers, entry]
    exact ⟨refers, refers.isKnown⟩
  | some target =>
    simp only [MemberRefers, entry]
    split
    · next known =>
      refine (within_resolveTag _).mono fun name refers => ?_
      cases refers with
      | tag found stands =>
        cases found
        obtain rfl := stands.unique (.known known)
        exact ⟨rfl, known⟩
    · exact .fail _

/-- The fields of a declaration ask for the known declarations it refers to. -/
theorem within_plan (name : String) (declaration : TagDeclaration) :
    Within (fun target => DeclarationRefers setting declaration target ∧ setting.context.isKnown target)
      (plan setting name declaration) := by
  cases declaration with
  | enumeration enumeration => exact (within_primitive _ _).bind fun _ => .pure _
  | struct struct =>
    refine .bind (.mapM fun item member => ?_) fun _ => .pure _
    refine ((within_resolveMemberWith item.1).mono fun target found => ?_).bind fun _ => .pure _
    exact ⟨⟨item.1, List.fst_mem_of_mem_zipIdx member, found.1⟩, found.2⟩

end Session

end Interop
