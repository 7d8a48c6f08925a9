import Mathlib.Data.Prod.Lex
import Mathlib.Logic.Relation
import Interop.Proofs.Context
import Interop.Proofs.Session.Redirection

/-! The recursion of registration and resolution, call by call. What one call comes to depends on the
calls nested in it alone, and along nested calls there are fewer names left to register, or as many
and less room for typedefs, or as much of both and a smaller type. -/
namespace Interop

namespace CType

inductive Part : CType → CType → Prop where
  | pointee (pointee : CType) : Part pointee (.pointer pointee)
  | element (element : CType) (length : Option Nat) : Part element (.array element length)
  | parameter {parameters : List CType} {parameter : CType} (result : CType) :
      parameter ∈ parameters → Part parameter (.function parameters result)
  | result (parameters : List CType) (result : CType) : Part result (.function parameters result)

def Inside : CType → CType → Prop := Relation.TransGen Part

mutual

def size : CType → Nat
  | .pointer pointee => pointee.size + 1
  | .function parameters result => sizes parameters + result.size + 1
  | .array element _ => element.size + 1
  | .builtin _ | .tag _ | .typedef _ => 1

def sizes : List CType → Nat
  | [] => 0
  | type :: types => type.size + sizes types

end

theorem size_le_sizes {type : CType} {types : List CType} (member : type ∈ types) :
    type.size ≤ sizes types := by
  induction types with
  | nil => cases member
  | cons first types ih =>
    rw [sizes]
    rcases List.mem_cons.mp member with rfl | later
    · exact Nat.le_add_right _ _
    · exact Nat.le_add_left_of_le (ih later)

theorem Part.size_lt {inner outer : CType} (part : Part inner outer) : inner.size < outer.size := by
  cases part with
  | pointee | element => exact Nat.lt_succ_self _
  | parameter result member =>
    have smaller := size_le_sizes member
    rw [size]
    omega
  | result parameters =>
    rw [size]
    omega

end CType

namespace Session

open Work

/-- The functions that call one another, with their arguments. -/
inductive Call where
  | type (room : Nat) (type : CType)
  | typedef (room : Nat) (name : String)
  | tag (reference : TagReference)
  | register (name : String)
  | generate (name : String) (declaration : TagDeclaration)
  | field (m : Member)

namespace Call

abbrev Result : Call → Type
  | .type .. | .typedef .. | .tag _ | .field _ => Target
  | .register _ => Registration
  | .generate .. => Unit

section

variable (setting : Setting)

def run : (call : Call) → Work Progress call.Result
  | .type room whole =>
    resolveType setting (effects setting) (resolveTypedef setting (effects setting) room) whole
  | .typedef room name => resolveTypedef setting (effects setting) room name
  | .tag reference => resolveTag setting (effects setting) reference
  | .register name => Session.register setting name
  | .generate name declaration => emitDeclaration setting (emit setting) name declaration
  | .field m => resolveMember setting m.name m.type

/-- A field at its position, where `self` does the calls. -/
def target (self : (call : Call) → Work Progress call.Result) (entry : Member × Nat) :
    Work Progress TargetMember := do
  return ⟨Identifier.field entry.1.name entry.2, ← self (.field entry.1)⟩

/-- One call, where `self` does the calls nested in it. -/
def body (self : (call : Call) → Work Progress call.Result) : (call : Call) → Work Progress call.Result
  | .type _ (.builtin kind) => primitive setting (effects setting) kind
  | .type room (.pointer pointee) => do
    let target ← self (.type room pointee)
    return if isFunction setting.context pointee then target else .pointer target
  | .type _ (.tag reference) => self (.tag reference)
  | .type room (.typedef name) => self (.typedef room name)
  | .type room (.function parameters result) => do
    let parameters ← parameters.mapM fun parameter => self (.type room parameter)
    return .functionPointer parameters (← self (.type room result))
  | .type room (.array element length) => do
    return .array (← self (.type room element)) length
  | .typedef room name =>
    if setting.configuration.typedefStrategies.lookup name = some .namedEnum then self (.tag (.named name))
    else
      match setting.context.typedef? name, room with
      | none, _ => throw (.unknownTypedef name)
      | some _, 0 => throw (.typedefCycle name)
      | some found, room + 1 => do
        noteUnwrapped setting (effects setting) name
        self (.type room found.underlying)
  | .tag reference =>
    match tagName setting.context reference with
    | .ok name => do return .named (← self (.register name)).name
    | .error error => throw error
  | .register name =>
    match setting.context.tag? name with
    | some declaration => do
      if isRegistered (← get) name then return .alreadyEmitted name
      mark name
      self (.generate name declaration)
      return .emitted name
    | none =>
      match redirect setting name with
      | .ok target => do
        let _ ← self (.register target)
        return .redirected target
      | .error error => throw error
  | .generate _ (.struct struct) => do
    let fields ← struct.fields.zipIdx.mapM (target self)
    write setting struct.name (.structure struct.name struct.isUnion fields)
  | .generate name (.enumeration enumeration) => do
    let underlying ← self (.type typedefLimit (.builtin enumeration.underlying))
    write setting name (.enumeration name underlying enumeration.items)
  | .field m =>
    match setting.configuration.nameOverrides.lookup m.name with
    | none => self (.type typedefLimit m.type)
    | some target =>
      if setting.context.isKnown target then self (.tag (.named target))
      else throw (.unknownOverrideTarget m.name target)

end

end Call

abbrev Site : Type := Call × Progress

open Session.Call in
/-- One call makes another one directly, at the state that the calls before it have left. -/
inductive Calls (setting : Setting) : Site → Site → Prop where
  | pointee {room : Nat} {pointee : CType} {state : Progress} :
      Calls setting (.type room (.pointer pointee), state) (.type room pointee, state)
  | element {room : Nat} {element : CType} {length : Option Nat} {state : Progress} :
      Calls setting (.type room (.array element length), state) (.type room element, state)
  | parameter {room : Nat} {early late : List CType} {parameter result : CType} {targets : List Target}
      {before state : Progress} :
      Gives (early.mapM fun parameter => run setting (.type room parameter)) before targets state →
      Calls setting (.type room (.function (early ++ parameter :: late) result), before)
        (.type room parameter, state)
  | result {room : Nat} {parameters : List CType} {result : CType} {targets : List Target}
      {before state : Progress} :
      Gives (parameters.mapM fun parameter => run setting (.type room parameter)) before targets state →
      Calls setting (.type room (.function parameters result), before) (.type room result, state)
  | typedef {room : Nat} {name : String} {state : Progress} :
      Calls setting (.type room (.typedef name), state) (.typedef room name, state)
  | tag {room : Nat} {reference : TagReference} {state : Progress} :
      Calls setting (.type room (.tag reference), state) (.tag reference, state)
  | ownEnumeration {room : Nat} {name : String} {state : Progress} :
      setting.configuration.typedefStrategies.lookup name = some .namedEnum →
      Calls setting (.typedef room name, state) (.tag (.named name), state)
  | underlying {room : Nat} {name : String} {typedef : Typedef} {before state : Progress} :
      setting.configuration.typedefStrategies.lookup name ≠ some .namedEnum →
      setting.context.typedef? name = some typedef →
      Gives (noteUnwrapped setting (effects setting) name) before ⟨⟩ state →
      Calls setting (.typedef (room + 1) name, before) (.type room typedef.underlying, state)
  | register {reference : TagReference} {name : String} {state : Progress} :
      tagName setting.context reference = .ok name →
      Calls setting (.tag reference, state) (.register name, state)
  | generate {name : String} {declaration : TagDeclaration} {state : Progress} :
      setting.context.tag? name = some declaration → name ∉ state.registered →
      Calls setting (.register name, state) (.generate name declaration, state.mark name)
  | redirect {name target : String} {state : Progress} :
      setting.context.tag? name = none → redirect setting name = .ok target →
      Calls setting (.register name, state) (.register target, state)
  | field {name : String} {struct : Struct} {early late : List (Member × Nat)} {m : Member} {index : Nat}
      {members : List TargetMember} {before state : Progress} :
      struct.fields.zipIdx = early ++ (m, index) :: late →
      Gives (early.mapM (target (run setting))) before members state →
      Calls setting (.generate name (.struct struct), before) (.field m, state)
  | builtin {name : String} {enumeration : Enumeration} {state : Progress} :
      Calls setting (.generate name (.enumeration enumeration), state)
        (.type typedefLimit (.builtin enumeration.underlying), state)
  | declared {m : Member} {state : Progress} :
      setting.configuration.nameOverrides.lookup m.name = none →
      Calls setting (.field m, state) (.type typedefLimit m.type, state)
  | override {m : Member} {target : String} {state : Progress} :
      setting.configuration.nameOverrides.lookup m.name = some target → setting.context.isKnown target →
      Calls setting (.field m, state) (.tag (.named target), state)

variable {setting : Setting}

theorem resolveTypes_eq_mapM {m : Type → Type} [Monad m] [LawfulMonad m] (effects : Effects m)
    (unwrap : String → m Target) (types : List CType) :
    resolveTypes setting effects unwrap types = types.mapM (resolveType setting effects unwrap) := by
  induction types with
  | nil => rfl
  | cons type types ih => simp only [resolveTypes, List.mapM_cons, ih]

section

variable {self : (call : Call) → Work Progress call.Result} {before : Progress}

/-- `self` does the calls nested in a call as the session does. -/
def Agrees (setting : Setting) (self : (call : Call) → Work Progress call.Result) (site : Site) : Prop :=
  ∀ other after, Calls setting site (other, after) →
    outcome (self other) after = outcome (other.run setting) after

theorem outcome_type {room : Nat} {whole : CType} (agree : Agrees setting self (.type room whole, before)) :
    outcome (Call.body setting self (.type room whole)) before =
      outcome (Call.run setting (.type room whole)) before := by
  cases whole with
  | builtin kind => rfl
  | pointer pointee => exact outcome_bind_congr (agree _ _ .pointee) fun _ _ _ => rfl
  | tag reference => exact agree _ _ .tag
  | typedef name => exact agree _ _ .typedef
  | array element length => exact outcome_bind_congr (agree _ _ .element) fun _ _ _ => rfl
  | function parameters result =>
    simp only [Call.body, Call.run, resolveType, resolveTypes_eq_mapM]
    refine outcome_bind_congr (outcome_mapM_congr ?_) fun targets middle read => ?_
    · rintro early parameter late targets middle rfl read
      exact agree _ _ (.parameter read)
    · exact outcome_bind_congr (agree _ _ (.result read)) fun _ _ _ => rfl

theorem outcome_typedef {room : Nat} {name : String} (agree : Agrees setting self (.typedef room name, before)) :
    outcome (Call.body setting self (.typedef room name)) before =
      outcome (Call.run setting (.typedef room name)) before := by
  by_cases strategy : setting.configuration.typedefStrategies.lookup name = some .namedEnum
  · simp only [Call.body, Call.run, strategy, if_true, resolveTypedef_named _ _ room strategy]
    exact agree _ _ (.ownEnumeration strategy)
  simp only [Call.body, Call.run, strategy, if_false]
  cases known : setting.context.typedef? name with
  | none =>
    rw [resolveTypedef_unknown _ _ strategy room known]
    rfl
  | some found =>
    cases room with
    | zero =>
      rw [resolveTypedef_zero _ _ strategy known]
      rfl
    | succ room =>
      rw [resolveTypedef_succ _ _ strategy room known]
      exact outcome_bind_congr rfl fun _ _ noted => agree _ _ (.underlying strategy known noted)

theorem outcome_tag {reference : TagReference} (agree : Agrees setting self (.tag reference, before)) :
    outcome (Call.body setting self (.tag reference)) before =
      outcome (Call.run setting (.tag reference)) before := by
  simp only [Call.body, Call.run, resolveTag]
  cases found : tagName setting.context reference with
  | error error => rfl
  | ok name =>
    change outcome (self (.register name) >>= _) before = outcome ((Session.register setting name >>= fun
      registration => pure registration.name) >>= fun name => pure (Target.named name)) before
    rw [bind_assoc]
    exact outcome_bind_congr (agree _ _ (.register found)) fun _ _ _ => rfl

theorem outcome_register {name : String} (agree : Agrees setting self (.register name, before)) :
    outcome (Call.body setting self (.register name)) before =
      outcome (Call.run setting (.register name)) before := by
  cases tag : setting.context.tag? name with
  | some declaration =>
    have known : setting.context.isKnown name := by simp [Context.isKnown, tag]
    simp only [Call.body, Call.run, Session.register, registerBy, known, tag, if_true, outcome_bind,
      outcome_get, isRegistered, List.contains_eq_mem, decide_eq_true_eq]
    rw [outcome_emit, tag]
    split
    · rfl
    · next fresh =>
      simp only [mark, outcome_bind, outcome_modify]
      rw [agree _ _ (.generate tag fresh)]
      rfl
  | none =>
    have unknown : setting.context.isKnown name = false := by simp [Context.isKnown, tag]
    simp only [Call.body, Call.run, Session.register, registerBy, unknown, tag]
    cases found : redirect setting name with
    | error error => rfl
    | ok target =>
      have known := (standsFor_of_redirect (by simp [unknown]) found).isKnown
      refine outcome_bind_congr ?_ fun _ _ _ => rfl
      rw [agree _ _ (.redirect tag found), Call.run, Session.register, registerBy, if_pos known]

theorem outcome_generate {name : String} {declaration : TagDeclaration}
    (agree : Agrees setting self (.generate name declaration, before)) :
    outcome (Call.body setting self (.generate name declaration)) before =
      outcome (Call.run setting (.generate name declaration)) before := by
  cases declaration with
  | struct struct =>
    change outcome (struct.fields.zipIdx.mapM (Call.target self) >>= _) before =
      outcome ((struct.fields.zipIdx.mapM (Call.target (Call.run setting)) >>= fun fields =>
        pure (Declaration.structure struct.name struct.isUnion fields)) >>= write setting struct.name) before
    rw [bind_assoc]
    refine outcome_bind_congr (outcome_mapM_congr ?_) fun _ _ _ => rfl
    rintro early entry late members middle split read
    exact outcome_bind_congr (agree _ _ (.field split read)) fun _ _ _ => rfl
  | enumeration enumeration =>
    change outcome (self (.type typedefLimit (.builtin enumeration.underlying)) >>= _) before =
      outcome ((primitive setting (effects setting) enumeration.underlying >>= fun underlying =>
        pure (Declaration.enumeration name underlying enumeration.items)) >>= write setting name) before
    rw [bind_assoc]
    exact outcome_bind_congr (agree _ _ .builtin) fun _ _ _ => rfl

theorem outcome_field {m : Member} (agree : Agrees setting self (.field m, before)) :
    outcome (Call.body setting self (.field m)) before = outcome (Call.run setting (.field m)) before := by
  simp only [Call.body, Call.run, resolveMember, resolveMemberWith]
  cases entry : setting.configuration.nameOverrides.lookup m.name with
  | none => exact agree _ _ (.declared entry)
  | some target =>
    by_cases known : setting.context.isKnown target
    · simp only [known, if_true]
      exact agree _ _ (.override entry known)
    · simp only [known]
      rfl

/-- What a call comes to depends on the calls nested in it alone. -/
theorem outcome_body {call : Call} (agree : Agrees setting self (call, before)) :
    outcome (call.body setting self) before = outcome (call.run setting) before := by
  cases call with
  | type => exact outcome_type agree
  | typedef => exact outcome_typedef agree
  | tag => exact outcome_tag agree
  | register => exact outcome_register agree
  | generate => exact outcome_generate agree
  | field => exact outcome_field agree

end

theorem extends_emit_replay (reading : Reading α) : Keeps Extends (reading.replay (emit setting)) :=
  keeps_replay frame_extends extends_note (extends_emit setting) reading

/-- Resolution takes no registration back. -/
theorem extends_type (room : Nat) (whole : CType) : Keeps Extends (Call.run setting (.type room whole)) := by
  have same := Reading.replay_resolveType setting (faithful_emit setting)
    (Reading.replay_resolveTypedef (faithful_emit setting) setting room) whole
  rw [Call.run, effects, ← same]
  exact extends_emit_replay _

theorem extends_field (m : Member) : Keeps Extends (Call.run setting (.field m)) := by
  rw [Call.run, resolveMember, effects, ← Reading.replay_resolveMemberWith (faithful_emit setting)]
  exact extends_emit_replay _

namespace Call

/-- How much room a call leaves. A tag needs none, and fields have all there is. -/
def height : Call → Nat
  | .type room _ | .typedef room _ => room + 1
  | .tag _ | .register _ => 0
  | .field _ => typedefLimit + 2
  | .generate .. => typedefLimit + 3

/-- How far a call is from the next that has less room or fewer names left. -/
def weight (context : Context) : Call → Nat
  | .type _ whole => whole.size
  | .tag _ => 2
  | .register name => if context.isKnown name then 0 else 1
  | .typedef .. | .field _ | .generate .. => 0

end Call

/-- There are fewer names left to register, or as many and less room, or as much of both and less weight. -/
def Lower (setting : Setting) (site inner : Site) : Prop :=
  unregistered setting.context inner.2 < unregistered setting.context site.2 ∨
  unregistered setting.context inner.2 = unregistered setting.context site.2 ∧
    (inner.1.height < site.1.height ∨ inner.1.height = site.1.height ∧
      inner.1.weight setting.context < site.1.weight setting.context)

theorem lower_of_extends {call other : Call} {before after : Progress} (extended : Extends before after)
    (less : other.height < call.height ∨ other.height = call.height ∧
      other.weight setting.context < call.weight setting.context) :
    Lower setting (call, before) (other, after) := by
  have fewer := unregistered_anti setting.context extended
  rcases Nat.lt_or_eq_of_le fewer with fewer | same
  · exact .inl fewer
  · exact .inr ⟨same, less⟩

/-- Every nested call is lower. -/
theorem lower_of_calls {site inner : Site} (calls : Calls setting site inner) : Lower setting site inner := by
  cases calls with
  | @pointee room pointee state =>
    exact lower_of_extends (.refl state) (.inr ⟨rfl, (CType.Part.pointee pointee).size_lt⟩)
  | @element room element length state =>
    exact lower_of_extends (.refl state) (.inr ⟨rfl, (CType.Part.element element length).size_lt⟩)
  | @parameter room early late parameter result targets before state read =>
    refine lower_of_extends ((frame_extends.mapM (extends_type room) early).of_gives read) (.inr ⟨rfl, ?_⟩)
    exact (CType.Part.parameter result (List.mem_append_right early List.mem_cons_self)).size_lt
  | @result room parameters result targets before state read =>
    refine lower_of_extends ((frame_extends.mapM (extends_type room) parameters).of_gives read) (.inr ⟨rfl, ?_⟩)
    exact (CType.Part.result parameters result).size_lt
  | typedef => exact lower_of_extends (.refl _) (.inr ⟨rfl, Nat.succ_pos _⟩)
  | tag => exact lower_of_extends (.refl _) (.inl (Nat.succ_pos _))
  | ownEnumeration => exact lower_of_extends (.refl _) (.inl (Nat.succ_pos _))
  | @underlying room name typedef before state _ _ noted =>
    have kept : Keeps Extends (noteUnwrapped setting (effects setting) name) := by
      unfold noteUnwrapped
      split
      · exact extends_note _
      · exact frame_extends.pure _
    exact lower_of_extends (kept.of_gives noted) (.inl (Nat.lt_succ_self _))
  | register found =>
    refine lower_of_extends (.refl _) (.inr ⟨rfl, ?_⟩)
    simp only [Call.weight]
    split <;> omega
  | generate tag fresh =>
    exact .inl (unregistered_mark (Context.mem_knownNames.mp (Context.mem_knownNames_of_tag? tag)) fresh)
  | @redirect name target state tag found =>
    have unknown : ¬ setting.context.isKnown name := by simp [Context.isKnown, tag]
    have known := (standsFor_of_redirect unknown found).isKnown
    refine lower_of_extends (.refl _) (.inr ⟨rfl, ?_⟩)
    rw [Call.weight, Call.weight, if_pos known, if_neg unknown]
    exact Nat.zero_lt_one
  | field split read =>
    have each (entry : Member × Nat) : Keeps Extends (Call.target (Call.run setting) entry) :=
      frame_extends.map _ (extends_field entry.1)
    exact lower_of_extends ((frame_extends.mapM each _).of_gives read) (.inl (Nat.lt_succ_self _))
  | builtin => exact lower_of_extends (.refl _) (.inl (by simp [Call.height]))
  | declared => exact lower_of_extends (.refl _) (.inl (by simp [Call.height]))
  | override => exact lower_of_extends (.refl _) (.inl (Nat.succ_pos _))

theorem wellFounded_lower (setting : Setting) : WellFounded fun inner site => Lower setting site inner := by
  let rank (site : Site) : Nat ×ₗ Nat ×ₗ Nat := toLex (unregistered setting.context site.2,
    toLex (site.1.height, site.1.weight setting.context))
  refine Subrelation.wf (fun {inner site} lower => ?_) (InvImage.wf rank wellFounded_lt)
  change rank inner < rank site
  simpa [rank, Prod.Lex.lt_iff, Lower] using lower

/-- What may come of a type while no name is registered and no typedef is unwrapped: a part of it, or a
typedef at its end. -/
inductive Remains (room : Nat) (whole : CType) : Call → Prop where
  | part {inner : CType} : inner.Inside whole → Remains room whole (.type room inner)
  | typedef (name : String) : Remains room whole (.typedef room name)

/-- What is nested in the resolution of a type has fewer names left to register, or less room, or
concerns a part of the type. -/
def Below (setting : Setting) (room : Nat) (whole : CType) (before : Progress) (inner : Site) : Prop :=
  unregistered setting.context inner.2 < unregistered setting.context before ∨
  unregistered setting.context inner.2 = unregistered setting.context before ∧
    (inner.1.height < room + 1 ∨ Remains room whole inner.1)

/-- A type calls for one of its parts, for a typedef, or for something that needs no room. -/
theorem remains_of_type {room : Nat} {whole : CType} {state : Progress} {inner : Site}
    (calls : Calls setting (.type room whole, state) inner) : inner.1.height < room + 1 ∨
      (∃ part, CType.Part part whole ∧ inner.1 = .type room part) ∨ ∃ name, inner.1 = .typedef room name := by
  cases calls with
  | pointee => exact .inr (.inl ⟨_, .pointee _, rfl⟩)
  | element => exact .inr (.inl ⟨_, .element _ _, rfl⟩)
  | @parameter _ early =>
    exact .inr (.inl ⟨_, .parameter _ (List.mem_append_right early List.mem_cons_self), rfl⟩)
  | result => exact .inr (.inl ⟨_, .result _ _, rfl⟩)
  | typedef => exact .inr (.inr ⟨_, rfl⟩)
  | tag => exact .inl (Nat.succ_pos _)

/-- Unwrapping a typedef takes room. -/
theorem height_of_typedef {room : Nat} {name : String} {state : Progress} {inner : Site}
    (calls : Calls setting (.typedef room name, state) inner) : inner.1.height < room + 1 := by
  cases calls with
  | ownEnumeration => exact Nat.succ_pos _
  | underlying => exact Nat.lt_succ_self _

theorem remains_of_calls {room : Nat} {whole : CType} {call : Call} {state : Progress} {inner : Site}
    (remains : Remains room whole call) (calls : Calls setting (call, state) inner) :
    inner.1.height < room + 1 ∨ Remains room whole inner.1 := by
  cases remains with
  | part inside =>
    rcases remains_of_type calls with less | ⟨part, smaller, same⟩ | ⟨name, same⟩
    · exact .inl less
    · exact .inr (same ▸ .part (.head smaller inside))
    · exact .inr (same ▸ .typedef name)
  | typedef => exact .inl (height_of_typedef calls)

theorem below_of_calls {room : Nat} {whole : CType} {before : Progress} {inner : Site}
    (nested : Relation.TransGen (Calls setting) (.type room whole, before) inner) :
    Below setting room whole before inner := by
  induction nested with
  | single calls =>
    rcases lower_of_calls calls with fewer | ⟨same, -⟩
    · exact .inl fewer
    · refine .inr ⟨same, ?_⟩
      rcases remains_of_type calls with less | ⟨part, smaller, same⟩ | ⟨name, same⟩
      · exact .inl less
      · exact .inr (same ▸ .part (.single smaller))
      · exact .inr (same ▸ .typedef name)
  | tail _ calls ih =>
    rcases lower_of_calls calls with fewer | ⟨same, less⟩
    · refine .inl ?_
      rcases ih with fewer' | ⟨same', -⟩ <;> omega
    · rcases ih with fewer' | ⟨same', lower | remains⟩
      · exact .inl (by omega)
      · refine .inr ⟨by omega, .inl ?_⟩
        rcases less with less | ⟨level, -⟩ <;> omega
      · exact .inr ⟨by omega, remains_of_calls remains calls⟩

theorem lower_of_nested {room room' : Nat} {whole inner : CType} {before after : Progress}
    (nested : Relation.TransGen (Calls setting) (.type room whole, before) (.type room' inner, after)) :
    unregistered setting.context after < unregistered setting.context before ∨
    unregistered setting.context after = unregistered setting.context before ∧
      (room' < room ∨ room' = room ∧ inner.Inside whole) := by
  rcases below_of_calls nested with fewer | ⟨same, lower | remains⟩
  · exact .inl fewer
  · exact .inr ⟨same, .inl (Nat.lt_of_succ_lt_succ lower)⟩
  · cases remains with
    | part inside => exact .inr ⟨same, .inr ⟨rfl, inside⟩⟩

/-- Resolution and registration end: what a call comes to depends on nested calls alone, along which
there are fewer names left to register, or as many and less room for typedefs, or as much of both and a
part of the type; and redirection is done within a round for every entry and one more. -/
theorem calls_terminate (setting : Setting) :
    (∀ self call before, Agrees setting self (call, before) →
      outcome (call.body setting self) before = outcome (call.run setting) before) ∧
    (∀ room whole before room' inner after,
      Relation.TransGen (Calls setting) (.type room whole, before) (.type room' inner, after) →
      unregistered setting.context after < unregistered setting.context before ∨
      unregistered setting.context after = unregistered setting.context before ∧
        (room' < room ∨ room' = room ∧ inner.Inside whole)) ∧
    (WellFounded fun inner site => Calls setting site inner) ∧
    ∀ name, ¬ setting.context.isKnown name →
      (∀ states, List.IsChain (Round setting) ([name] :: states) →
        states.length ≤ setting.configuration.notFoundOverrides.length) ∧
      ∀ bound, setting.configuration.notFoundOverrides.length < bound →
        followOverrides setting name bound [name] name = redirect setting name := by
  refine ⟨fun _ _ _ => outcome_body, fun _ _ _ _ _ _ => lower_of_nested, ?_, fun name unknown => ⟨?_, ?_⟩⟩
  · exact Subrelation.wf lower_of_calls (wellFounded_lower setting)
  · intro states rounds
    have few := length_rounds_le (chain_start unknown) rounds
    rwa [List.tail_cons, List.length_nil, Nat.zero_add] at few
  · intro bound enough
    exact followOverrides_stable (chain_start unknown) enough (Nat.lt_succ_self _)

end Session

end Interop
