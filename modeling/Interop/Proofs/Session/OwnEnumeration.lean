import Interop.Proofs.Session.Pointer

/-! Typedefs that stand for enumerations of their own. One resolves as the tag of its name wherever it
stands, except behind a pointer: there it is what the typedef declares that counts. -/
namespace Interop

namespace CType

mutual

/-- The type with the tag of a name in the place of the typedef of that name. -/
def tagged (name : String) : CType → CType
  | .builtin kind => .builtin kind
  | .pointer pointee => .pointer (pointee.tagged name)
  | .tag reference => .tag reference
  | .typedef other => if other = name then .tag (.named name) else .typedef other
  | .function parameters result => .function (taggedAll name parameters) (result.tagged name)
  | .array element length => .array (element.tagged name) length

def taggedAll (name : String) : List CType → List CType
  | [] => []
  | type :: types => type.tagged name :: taggedAll name types

end

def PointsAt (name : String) (type : CType) : Prop :=
  Relation.ReflTransGen Part (.pointer (.typedef name)) type

end CType

namespace Session

open Work

variable {setting : Setting} {name : String}

/-- The typedef alone can change whether a type is seen to be a function. -/
theorem isFunction_tagged {context : Context} {type : CType} (other : type ≠ .typedef name) :
    isFunction context (type.tagged name) = isFunction context type := by
  cases type with
  | typedef otherName =>
    have different : otherName ≠ name := fun same => other (congrArg _ same)
    rw [CType.tagged, if_neg different]
  | builtin | pointer | tag | function | array => rfl

section

variable {m : Type → Type} [Monad m] {effects : Effects m} {unwrap : String → m Target}

mutual

/-- The tag does in the place of the typedef if it does behind every pointer to it. -/
theorem resolveType_tagged (own : unwrap name = resolveTag setting effects (.named name)) : (type : CType) →
    (CType.PointsAt name type → resolveType setting effects unwrap (.pointer (.tag (.named name))) =
      resolveType setting effects unwrap (.pointer (.typedef name))) →
    resolveType setting effects unwrap (type.tagged name) = resolveType setting effects unwrap type
  | .builtin _, _ => rfl
  | .tag _, _ => rfl
  | .typedef other, _ => by
    rw [CType.tagged]
    split
    · next same => rw [resolveType, resolveType, same, own]
    · rfl
  | .pointer pointee, pointed => by
    by_cases same : pointee = .typedef name
    · subst same
      rw [CType.tagged, CType.tagged, if_pos rfl]
      exact pointed .refl
    · have inner := resolveType_tagged own pointee fun points => pointed (.tail points (.pointee pointee))
      rw [CType.tagged, resolveType, resolveType, inner, isFunction_tagged same]
  | .function parameters result, pointed => by
    have early := resolveTypes_tagged own parameters fun parameter member points =>
      pointed (.tail points (.parameter result member))
    have late := resolveType_tagged own result fun points => pointed (.tail points (.result parameters result))
    rw [CType.tagged, resolveType, resolveType, early, late]
  | .array element length, pointed => by
    have inner := resolveType_tagged own element fun points => pointed (.tail points (.element element length))
    rw [CType.tagged, resolveType, resolveType, inner]

theorem resolveTypes_tagged (own : unwrap name = resolveTag setting effects (.named name)) : (types : List CType) →
    (∀ type ∈ types, CType.PointsAt name type →
      resolveType setting effects unwrap (.pointer (.tag (.named name))) =
        resolveType setting effects unwrap (.pointer (.typedef name))) →
    resolveTypes setting effects unwrap (CType.taggedAll name types) = resolveTypes setting effects unwrap types
  | [], _ => rfl
  | type :: types, pointed => by
    have first := resolveType_tagged own type (pointed type List.mem_cons_self)
    have rest := resolveTypes_tagged own types fun other member => pointed other (List.mem_cons_of_mem _ member)
    rw [CType.taggedAll, resolveTypes, resolveTypes, first, rest]

end

end

section

variable (strategy : setting.configuration.typedefStrategies.lookup name = some .namedEnum)

include strategy

theorem resolve_ownEnumeration : resolve setting (.typedef name) = resolve setting (.tag (.named name)) :=
  resolveTypedef_named setting (effects setting) typedefLimit strategy

theorem resolve_tagged {type : CType}
    (pointed : CType.PointsAt name type → resolve setting (.pointer (.tag (.named name))) =
      resolve setting (.pointer (.typedef name))) :
    resolve setting (type.tagged name) = resolve setting type :=
  resolveType_tagged (resolve_ownEnumeration strategy) type pointed

/-- Behind a pointer the typedef is taken for the function it is declared to be. -/
theorem resolve_pointer_ownEnumeration : resolve setting (.pointer (.typedef name)) =
    (do
      let target ← resolve setting (.tag (.named name))
      return if isFunction setting.context (.typedef name) then target else .pointer target) := by
  rw [← resolve_ownEnumeration strategy]
  rfl

/-- A typedef that stands for an enumeration is resolved as a tag where no pointer leads to it. Behind a
pointer to what is declared as a function, however, the pointer is dropped, so that the tag does in all
its places exactly if there is no such declaration or the tag does not resolve. -/
theorem resolve_tagged_iff :
    (∀ type, ¬ CType.PointsAt name type → resolve setting (type.tagged name) = resolve setting type) ∧
    (isFunction setting.context (.typedef name) →
      resolve setting (.pointer (.typedef name)) = resolve setting (.tag (.named name))) ∧
    ((∀ type, resolve setting (type.tagged name) = resolve setting type) ↔
      ∀ steps parameters result, steps < typedefLimit →
        Unwraps setting.context steps (.typedef name) (.function parameters result) →
        ∀ before target after, ¬ Gives (resolve setting (.tag (.named name))) before target after) := by
  have dropped (seen : isFunction setting.context (.typedef name)) :
      resolve setting (.pointer (.typedef name)) = resolve setting (.tag (.named name)) := by
    rw [resolve_pointer_ownEnumeration strategy]
    simp only [seen, if_true, bind_pure]
  refine ⟨fun type free => resolve_tagged strategy fun points => absurd points free, dropped, ?_, ?_⟩
  · intro same steps parameters result less unwraps before target after gives
    have seen : isFunction setting.context (.typedef name) :=
      isFunctionWithin_iff.mpr ⟨steps, parameters, result, less, unwraps⟩
    -- The pointer to the tag is kept and the pointer to the typedef is not.
    have kept : Gives (resolve setting (.pointer (.tag (.named name)))) before (.pointer target) after :=
      gives_pointer.mpr ⟨target, gives, rfl⟩
    have pointer := same (.pointer (.typedef name))
    rw [CType.tagged, CType.tagged, if_pos rfl, dropped seen] at pointer
    rw [pointer] at kept
    have equal : Target.pointer target = target := Except.ok.inj (Prod.mk.inj (kept.symm.trans gives)).1
    exact absurd (congrArg sizeOf equal) (by simp)
  · intro never type
    apply resolve_tagged strategy
    intro
    rw [resolve_pointer_ownEnumeration strategy]
    apply Work.ext
    intro before
    refine outcome_bind_congr rfl fun target after gives => ?_
    by_cases seen : isFunction setting.context (.typedef name)
    · obtain ⟨steps, parameters, result, less, unwraps⟩ := isFunctionWithin_iff.mp seen
      exact absurd gives (never steps parameters result less unwraps before target after)
    · rw [if_neg seen]
      rfl

end

def eventGraph : Graph := ⟨[{
  fileName := "event.h"
  structs := []
  enums := [⟨some "Event", .int, [⟨"EVENT_NONE", .signed 0⟩]⟩]
  typedefs := [⟨"Event", .function [] (.builtin .int)⟩]
  functions := []
  macros := [] }]⟩

def eventSetting : Setting := settingOf eventGraph [("Event", .namedEnum)]

theorem resolve_tagged_iff_event :
    eventSetting.configuration.typedefStrategies.lookup "Event" = some .namedEnum ∧
    resolve eventSetting (.pointer (.typedef ("Event"))) = resolve eventSetting (.tag (.named "Event")) ∧
    resolve eventSetting (.array (.tag (.named "Event")) (some 2)) =
      resolve eventSetting (.array (.typedef ("Event")) (some 2)) := by
  have strategy : eventSetting.configuration.typedefStrategies.lookup "Event" = some .namedEnum := by decide
  obtain ⟨same, dropped, -⟩ := resolve_tagged_iff strategy
  refine ⟨strategy, dropped (by decide +kernel), ?_⟩
  refine same (.array (.typedef ("Event")) (some 2)) fun points => ?_
  obtain ⟨inner, rest, ⟨⟩⟩ := (Relation.ReflTransGen.cases_tail points).resolve_left nofun
  obtain ⟨deeper, -, ⟨⟩⟩ := (Relation.ReflTransGen.cases_tail rest).resolve_left nofun

/-- The pointer to the typedef is lost, the pointer to the tag is not. -/
theorem not_always_tagged : ¬ ∀ (setting : Setting) (name : String) (type : CType),
    setting.configuration.typedefStrategies.lookup name = some .namedEnum →
    resolve setting (type.tagged name) = resolve setting type := by
  intro always
  have same := always eventSetting "Event" (.pointer (.typedef ("Event"))) (by decide)
  have pointed : (outcome (resolve eventSetting (.pointer (.tag (.named "Event")))) .start).1 =
      .ok (.pointer (.named "Event")) := rfl
  have dropped : (outcome (resolve eventSetting (.pointer (.typedef ("Event")))) .start).1 =
      .ok (.named "Event") := rfl
  rw [← same] at dropped
  cases pointed.symm.trans dropped

end Session

end Interop
