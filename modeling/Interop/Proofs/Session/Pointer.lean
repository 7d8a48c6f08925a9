import Interop.Proofs.Session.Fault

/-! Pointers to functions. A pointer is dropped if its pointee is seen to be a function, and two walks
down the same typedefs decide what becomes of it: the one that looks for a function takes one step fewer
than the one that resolves. -/
namespace Interop.Session

open Work Reading

/-- What is left of a type when typedefs are replaced by what they stand for, after so many steps. -/
inductive Unwraps (context : Context) : Nat → CType → CType → Prop where
  | bare {type : CType} : (∀ name, type ≠ .typedef name) → Unwraps context 0 type type
  | typedef {steps : Nat} {name : String} {typedef : Typedef} {underlying : CType} :
      context.typedef? name = some typedef → Unwraps context steps typedef.underlying underlying →
      Unwraps context (steps + 1) (.typedef name) underlying

section

variable {context : Context} {steps steps' room : Nat} {type underlying underlying' : CType}

theorem unwraps_typedef_iff {name : String} : Unwraps context steps (.typedef name) underlying ↔
    ∃ typedef rest, context.typedef? name = some typedef ∧ Unwraps context rest typedef.underlying underlying ∧
      steps = rest + 1 := by
  constructor
  · intro unwraps
    cases unwraps with
    | bare plain => exact absurd rfl (plain name)
    | typedef known rest => exact ⟨_, _, known, rest, rfl⟩
  · rintro ⟨typedef, rest, known, unwraps, rfl⟩
    exact .typedef known unwraps

theorem unwraps_iff_of_plain (plain : ∀ name, type ≠ .typedef name) :
    Unwraps context steps type underlying ↔ steps = 0 ∧ type = underlying := by
  constructor
  · intro unwraps
    cases unwraps with
    | bare => exact ⟨rfl, rfl⟩
    | typedef => exact absurd rfl (plain _)
  · rintro ⟨rfl, rfl⟩
    exact .bare plain

/-- There is one way to unwrap a type. -/
theorem Unwraps.unique (unwraps : Unwraps context steps type underlying)
    (also : Unwraps context steps' type underlying') : steps = steps' ∧ underlying = underlying' := by
  induction unwraps generalizing steps' with
  | bare plain =>
    obtain ⟨rfl, rfl⟩ := (unwraps_iff_of_plain plain).mp also
    exact ⟨rfl, rfl⟩
  | typedef known _ ih =>
    obtain ⟨typedef, rest, known', unwraps, rfl⟩ := unwraps_typedef_iff.mp also
    obtain rfl := Option.some.inj (known.symm.trans known')
    obtain ⟨rfl, rfl⟩ := ih unwraps
    exact ⟨rfl, rfl⟩

/-- The walk that looks for a function has to arrive with a step to spare. -/
theorem isFunctionWithin_iff : isFunctionWithin context room type ↔
    ∃ steps parameters result, steps < room ∧ Unwraps context steps type (.function parameters result) := by
  induction room generalizing type with
  | zero => simp [isFunctionWithin]
  | succ room ih =>
    cases type with
    | typedef name =>
      simp only [isFunctionWithin, unwraps_typedef_iff]
      cases context.typedef? name with
      | none => simp
      | some typedef =>
        rw [ih]
        constructor
        · rintro ⟨steps, parameters, result, less, unwraps⟩
          exact ⟨_, parameters, result, Nat.succ_lt_succ less, typedef, steps, rfl, unwraps, rfl⟩
        · rintro ⟨_, parameters, result, less, _, steps, ⟨rfl⟩, unwraps, rfl⟩
          exact ⟨steps, parameters, result, Nat.lt_of_succ_lt_succ less, unwraps⟩
    | builtin | pointer | tag | function | array => simp [isFunctionWithin, unwraps_iff_of_plain]

end

variable {setting : Setting} {room steps : Nat} {type pointee underlying : CType} {before after : Progress}
  {target : Target}

theorem gives_pointer : Gives (resolve setting (.pointer pointee)) before target after ↔
    ∃ inner, Gives (resolve setting pointee) before inner after ∧
      target = if isFunction setting.context pointee then inner else .pointer inner := by
  change Gives (resolve setting pointee >>= fun inner =>
    pure (if isFunction setting.context pointee then inner else .pointer inner)) before target after ↔ _
  simp only [gives_bind, gives_pure]
  constructor
  · rintro ⟨inner, _, given, rfl, rfl⟩
    exact ⟨inner, given, rfl⟩
  · rintro ⟨inner, given, rfl⟩
    exact ⟨inner, after, given, rfl, rfl⟩

section

variable (unwrapping : ∀ name, setting.configuration.typedefStrategies.lookup name ≠ some .namedEnum)

include unwrapping

/-- A type without a fault unwraps within the room there is. -/
theorem exists_unwraps (sound : ∀ error, ¬ Fault setting room type error) :
    ∃ steps underlying, steps ≤ room ∧ Unwraps setting.context steps type underlying := by
  induction room generalizing type with
  | zero =>
    refine ⟨0, type, Nat.le_refl 0, .bare ?_⟩
    rintro name rfl
    cases known : setting.context.typedef? name with
    | none => exact sound _ (.undeclared (unwrapping name) known)
    | some typedef => exact sound _ (.noRoom (unwrapping name) known)
  | succ room ih =>
    by_cases again : ∃ name, type = .typedef name
    · obtain ⟨name, rfl⟩ := again
      cases known : setting.context.typedef? name with
      | none => exact absurd (.undeclared (unwrapping name) known) (sound _)
      | some typedef =>
        obtain ⟨steps, underlying, within, unwraps⟩ :=
          ih fun error fault => sound error (.underlying (unwrapping name) known fault)
        exact ⟨steps + 1, underlying, Nat.succ_le_succ within, .typedef known unwraps⟩
    · exact ⟨0, type, Nat.zero_le _, .bare fun name same => again ⟨name, same⟩⟩

variable {parameters : List CType} {result : CType}
  (unwraps : Unwraps setting.context steps type (.function parameters result))

include unwraps

/-- A type that unwraps to a function resolves to a function pointer. -/
theorem functionPointer_of_unwraps {emit : String → Work Progress Registration}
    (gives : Gives (resolveType setting (effectsBy setting emit)
      (resolveTypedef setting (effectsBy setting emit) room) type) before target after) :
    ∃ targets given, target = .functionPointer targets given := by
  generalize same : CType.function parameters result = underlying at unwraps
  induction unwraps generalizing room before with
  | bare =>
    subst same
    obtain ⟨targets, _, -, rest⟩ := gives_bind.mp gives
    obtain ⟨given, _, -, done⟩ := gives_bind.mp rest
    exact ⟨targets, given, (gives_pure.mp done).1.symm⟩
  | @typedef _ name _ _ known _ ih =>
    rw [resolveType] at gives
    cases room with
    | zero =>
      rw [resolveTypedef_zero _ _ (unwrapping name) known] at gives
      exact absurd gives gives_throw
    | succ room =>
      rw [resolveTypedef_succ _ _ (unwrapping name) room known] at gives
      obtain ⟨_, _, -, rest⟩ := gives_bind.mp gives
      exact ih rest same

theorem functionPointer_of_resolve (gives : Gives (resolve setting type) before target after) :
    ∃ targets given, target = .functionPointer targets given :=
  functionPointer_of_unwraps unwrapping unwraps gives

end

/-- What becomes of a pointer where no typedef stands for an enumeration. Its pointee unwraps to a type
within the limit; a pointer to anything but a function stays one, and a pointer to a function is the
function pointer itself unless the limit is reached. -/
theorem resolve_pointer_of_unwraps
    (unwrapping : ∀ name, setting.configuration.typedefStrategies.lookup name ≠ some .namedEnum)
    (gives : Gives (resolve setting (.pointer pointee)) before target after) :
    ∃ steps underlying inner, steps ≤ typedefLimit ∧ Unwraps setting.context steps pointee underlying ∧
      Gives (resolve setting pointee) before inner after ∧
      ((∀ parameters result, underlying ≠ .function parameters result) → target = .pointer inner) ∧
      ∀ parameters result, underlying = .function parameters result →
        (∃ targets given, inner = .functionPointer targets given) ∧
        (steps < typedefLimit → target = inner) ∧ (steps = typedefLimit → target = .pointer inner) := by
  obtain ⟨inner, given, rfl⟩ := gives_pointer.mp gives
  obtain ⟨steps, underlying, within, unwraps⟩ := exists_unwraps unwrapping (sound_of_resolve given)
  have seen : isFunction setting.context pointee ↔
      steps < typedefLimit ∧ ∃ parameters result, underlying = .function parameters result := by
    rw [isFunction, isFunctionWithin_iff]
    constructor
    · rintro ⟨steps', parameters, result, less, unwraps'⟩
      obtain ⟨rfl, rfl⟩ := unwraps.unique unwraps'
      exact ⟨less, parameters, result, rfl⟩
    · rintro ⟨less, parameters, result, rfl⟩
      exact ⟨steps, parameters, result, less, unwraps⟩
  refine ⟨steps, underlying, inner, within, unwraps, given, ?_, ?_⟩
  · intro other
    refine if_neg fun found => ?_
    obtain ⟨-, parameters, result, same⟩ := seen.mp found
    exact other parameters result same
  · rintro parameters result rfl
    refine ⟨functionPointer_of_resolve unwrapping unwraps given, ?_, ?_⟩
    · exact fun less => if_pos (seen.mpr ⟨less, parameters, result, rfl⟩)
    · rintro rfl
      exact if_neg fun found => Nat.lt_irrefl _ (seen.mp found).1

def chainGraph (length : Nat) : Graph := ⟨[{
  fileName := "chain.h"
  structs := []
  enums := []
  typedefs := (List.range length).map fun index =>
    ⟨toString index, if index + 1 < length then .typedef (toString (index + 1)) else .function [] (.builtin .int)⟩
  functions := []
  macros := [] }]⟩

/-- A session over the declarations of a graph, where nothing is configured but strategies. -/
def settingOf (graph : Graph) (typedefStrategies : Table TypedefStrategy) : Setting where
  configuration := {
    includeDirs := []
    libraries := []
    outputDir := "out"
    namespaceName := "Lib"
    forceClear := false
    forceTypes := []
    notFoundOverrides := []
    macroSearches := []
    primitiveTypes := none
    typedefStrategies
    nameOverrides := []
    anonymousEnumPrefixes := [] }
  context := ((Context.index graph).toOption).getD .empty
  primitives := [(.int, "int")]
  constants := []
  sink := .memory none

def chainSetting (length : Nat) : Setting := settingOf (chainGraph length) []

theorem resolve_pointer_of_unwraps_chain : ∃ after steps underlying inner,
    Gives (resolve (chainSetting 2) (.pointer (.typedef (toString 0)))) .start
      (.functionPointer [] (.primitive "int")) after ∧ steps ≤ typedefLimit ∧
    Unwraps (chainSetting 2).context steps (.typedef (toString 0)) underlying ∧
    Gives (resolve (chainSetting 2) (.typedef (toString 0))) .start inner after := by
  have gives : Gives (resolve (chainSetting 2) (.pointer (.typedef (toString 0)))) .start
      (.functionPointer [] (.primitive "int")) _ := rfl
  obtain ⟨steps, underlying, inner, within, unwraps, given, -⟩ :=
    resolve_pointer_of_unwraps (by simp [chainSetting, settingOf]) gives
  exact ⟨_, steps, underlying, inner, gives, within, unwraps, given⟩

/-- A chain as long as the limit resolves, but nothing shows that there is a function at its end. -/
theorem not_always_collapsed : ¬ ∀ (setting : Setting) (pointee : CType) (before after : Progress)
    (target : Target), (∀ name, setting.configuration.typedefStrategies.lookup name ≠ some .namedEnum) →
    Gives (resolve setting (.pointer pointee)) before target after →
    ∀ steps parameters result, Unwraps setting.context steps pointee (.function parameters result) →
      Gives (resolve setting pointee) before target after := by
  intro always
  have unwrapping (name : String) :
      (chainSetting typedefLimit).configuration.typedefStrategies.lookup name ≠ some .namedEnum := nofun
  obtain ⟨long, unseen, resolves⟩ :
      isFunctionWithin (chainSetting typedefLimit).context (typedefLimit + 1) (.typedef (toString 0)) ∧
      isFunction (chainSetting typedefLimit).context (.typedef (toString 0)) = false ∧
      (outcome (resolve (chainSetting typedefLimit) (.typedef (toString 0))) .start).1.isOk := by
    decide +kernel
  obtain ⟨steps, parameters, result, -, unwraps⟩ := isFunctionWithin_iff.mp long
  rcases run : outcome (resolve (chainSetting typedefLimit) (.typedef (toString 0))) .start with
    ⟨error | inner, after⟩
  · rw [run] at resolves
    cases resolves
  · have pointed := gives_pointer.mpr ⟨inner, run, rfl⟩
    rw [unseen] at pointed
    have collapsed := always _ _ _ _ _ unwrapping pointed _ _ _ unwraps
    obtain ⟨targets, given, same⟩ := functionPointer_of_resolve unwrapping unwraps collapsed
    cases same

end Interop.Session
