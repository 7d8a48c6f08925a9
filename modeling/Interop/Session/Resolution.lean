import Interop.Session.Basic

/-! Declared types resolved to the types of generated code. Tags are registered on the
way, typedefs are unwrapped or stand for enumerations of their own, and a pointer to a
function is the function pointer itself. Resolution is written for any work that can fail,
report and register; a session is one, a list of what there is to register another. -/
namespace Interop.Session

/-- The greatest number of typedefs unwrapped inside one another without a tag between. -/
def typedefLimit : Nat := 64

/-- Whether a type is a function, seen through fewer than `steps` typedefs. -/
def isFunctionWithin (context : Context) : Nat → CType → Bool
  | 0, _ => false
  | _ + 1, .function .. => true
  | steps + 1, .typedef name =>
    match context.typedef? name with
    | some typedef => isFunctionWithin context steps typedef.underlying
    | none => false
  | _ + 1, _ => false

def isFunction (context : Context) (type : CType) : Bool :=
  isFunctionWithin context typedefLimit type

def tagName (context : Context) : TagReference → Except GenerationError String
  | .named name => .ok name
  | .anonymous index =>
    match context.anonymousName? index with
    | some name => .ok name
    | none => .error (.unnamedEnumeration index)

/-- What resolution asks of the work that it is part of. -/
structure Effects (m : Type → Type) where
  fail : {α : Type} → GenerationError → m α
  note : Event → m Unit
  enter : String → m String

section

variable {m : Type → Type} [Monad m] (setting : Setting) (effects : Effects m)

def primitive (primitive : Primitive) : m Target :=
  match setting.primitives.lookup primitive with
  | some name => return .primitive name
  | none => effects.fail (.missingPrimitive primitive)

def resolveTag (reference : TagReference) : m Target :=
  match tagName setting.context reference with
  | .ok name => return .named (← effects.enter name)
  | .error error => effects.fail error

mutual

/-- The target of a type, where `unwrap` gives the targets of typedefs. -/
def resolveType (unwrap : String → m Target) : CType → m Target
  | .builtin kind => primitive setting effects kind
  | .pointer pointee => do
    let target ← resolveType unwrap pointee
    return if isFunction setting.context pointee then target else .pointer target
  | .tag reference => resolveTag setting effects reference
  | .typedef name => unwrap name
  | .function parameters result => do
    let parameters ← resolveTypes unwrap parameters
    return .functionPointer parameters (← resolveType unwrap result)
  | .array element length => do
    return .array (← resolveType unwrap element) length

def resolveTypes (unwrap : String → m Target) : List CType → m (List Target)
  | [] => return []
  | type :: types => do
    let target ← resolveType unwrap type
    return target :: (← resolveTypes unwrap types)

end

/-- Reports a typedef that is unwrapped by default. -/
def noteUnwrapped (name : String) : m Unit :=
  if (setting.configuration.typedefStrategies.lookup name).isNone then
    effects.note (.unwrappedTypedef name)
  else return

/-- The target of a typedef, with room for so many unwrapped typedefs. One that stands
for itself is a tag and needs no room. -/
def resolveTypedef : Nat → String → m Target
  | room, name =>
    match setting.configuration.typedefStrategies.lookup name with
    | some .namedEnum => resolveTag setting effects (.named name)
    | _ =>
      match setting.context.typedef? name with
      | none => effects.fail (.unknownTypedef name)
      | some typedef =>
        match room with
        | 0 => effects.fail (.typedefCycle name)
        | room + 1 => do
          noteUnwrapped setting effects name
          resolveType setting effects (resolveTypedef room) typedef.underlying

section

variable {name : String} {typedef : Typedef}

theorem resolveTypedef_named (room : Nat)
    (strategy : setting.configuration.typedefStrategies.lookup name = some .namedEnum) :
    resolveTypedef setting effects room name = resolveTag setting effects (.named name) := by
  cases room <;> simp [resolveTypedef, strategy]

variable (strategy : setting.configuration.typedefStrategies.lookup name ≠ some .namedEnum)

include strategy

theorem resolveTypedef_unknown (room : Nat) (unknown : setting.context.typedef? name = none) :
    resolveTypedef setting effects room name = effects.fail (.unknownTypedef name) := by
  cases room <;> simp only [resolveTypedef, unknown]

theorem resolveTypedef_zero (known : setting.context.typedef? name = some typedef) :
    resolveTypedef setting effects 0 name = effects.fail (.typedefCycle name) := by
  simp only [resolveTypedef, known]

theorem resolveTypedef_succ (room : Nat) (known : setting.context.typedef? name = some typedef) :
    resolveTypedef setting effects (room + 1) name = (do
      noteUnwrapped setting effects name
      resolveType setting effects (resolveTypedef setting effects room) typedef.underlying) := by
  simp only [resolveTypedef, known]

end

def resolveWith (type : CType) : m Target :=
  resolveType setting effects (resolveTypedef setting effects typedefLimit) type

/-- The target of a field or parameter. An overridden name has the overriding declaration
as its type, whatever type is declared. -/
def resolveMemberWith (name : String) (type : CType) : m Target :=
  match setting.configuration.nameOverrides.lookup name with
  | none => resolveWith setting effects type
  | some target =>
    if setting.context.isKnown target then resolveTag setting effects (.named target)
    else effects.fail (.unknownOverrideTarget name target)

/-- Members in order, each under the name that `rename` gives it at its position. -/
def resolveMembersWith (rename : String → Nat → String) (declared : List Member) :
    m (List TargetMember) :=
  declared.zipIdx.mapM fun (m, index) => do
    return ⟨rename m.name index, ← resolveMemberWith setting effects m.name m.type⟩

end

end Interop.Session
