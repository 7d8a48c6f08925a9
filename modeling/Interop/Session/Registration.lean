import Interop.Session.Resolution

/-! Registration of declarations by name. A known declaration is generated once, together
with all it refers to; it is marked before its fields are resolved, so that it may refer to
itself. An unknown name is followed through the overrides for names that are not found. -/
namespace Interop

/-- What a call came to: the declaration is generated by it, was marked by an earlier call, or
another one stands for an unknown name. -/
inductive Registration where
  | emitted (name : String)
  | alreadyEmitted (name : String)
  | redirected (name : String)
  deriving DecidableEq, Repr

def Registration.name : Registration → String
  | .emitted name | .alreadyEmitted name | .redirected name => name

namespace Session

def isRegistered (progress : Progress) (name : String) : Bool := progress.registered.contains name

def mark (name : String) : Work Progress Unit := modify (·.mark name)

/-- Follows the overrides from the last name of `chain`, which is kept in reverse, to a
known name. -/
def followOverrides (setting : Setting) (start : String) : Nat → List String → String →
    Except GenerationError String
  | 0, chain, _ => .error (.overrideCycle chain.reverse)
  | bound + 1, chain, current =>
    match setting.configuration.notFoundOverrides.lookup current with
    | none =>
      if current = start then .error (.unsupportedName start)
      else .error (.unknownOverrideTarget start current)
    | some target =>
      if target ∈ chain then .error (.overrideCycle (target :: chain).reverse)
      else if setting.context.isKnown target then .ok target
      else followOverrides setting start bound (target :: chain) target

/-- The declaration that stands for an unknown name. A chain without repetition is no
longer than the table. -/
def redirect (setting : Setting) (name : String) : Except GenerationError String :=
  followOverrides setting name (setting.configuration.notFoundOverrides.length + 1) [name] name

section

variable {m : Type → Type} [Monad m] (setting : Setting)
  (fail : {α : Type} → GenerationError → m α) (emit : String → m Registration)

/-- Registers a name, where `emit` registers known names. -/
def registerBy (name : String) : m Registration :=
  if setting.context.isKnown name then emit name
  else
    match redirect setting name with
    | .ok target => do
      let _ ← emit target
      return .redirected target
    | .error error => fail error

def enterBy (name : String) : m String := do
  return (← registerBy setting fail emit name).name

end

def declare {m : Type → Type} [Monad m] (setting : Setting) (effects : Effects m) (name : String) :
    TagDeclaration → m Declaration
  | .struct struct => do
    let fields ← resolveMembersWith setting effects Identifier.field struct.fields
    return .structure struct.name struct.isUnion fields
  | .enumeration enumeration => do
    return .enumeration name (← primitive setting effects enumeration.underlying) enumeration.items

/-- The name that the artifact of a known declaration is written under. -/
def artifactName (name : String) : TagDeclaration → String
  | .struct struct => struct.name
  | .enumeration _ => name

def effectsBy (setting : Setting) (emit : String → Work Progress Registration) :
    Effects (Work Progress) :=
  ⟨throw, note, enterBy setting throw emit⟩

def emitDeclaration (setting : Setting) (emit : String → Work Progress Registration)
    (name : String) (declaration : TagDeclaration) : Work Progress Unit := do
  write setting (artifactName name declaration)
    (← declare setting (effectsBy setting emit) name declaration)

/-- Registers a known name, with at most `bound` declarations in the making. -/
def emitWithin (setting : Setting) : Nat → String → Work Progress Registration
  | 0, name => return .alreadyEmitted name
  | bound + 1, name => do
    if isRegistered (← get) name then return .alreadyEmitted name
    match setting.context.tag? name with
    | none => throw (.unsupportedName name)
    | some declaration =>
      mark name
      emitDeclaration setting (emitWithin setting bound) name declaration
      return .emitted name

/-- Registers a known name. Every declaration in the making is marked and known, so the
number of known names bounds them. -/
def emit (setting : Setting) (name : String) : Work Progress Registration :=
  emitWithin setting (setting.context.tags.length + 1) name

def register (setting : Setting) (name : String) : Work Progress Registration :=
  registerBy setting throw (emit setting) name

def effects (setting : Setting) : Effects (Work Progress) := effectsBy setting (emit setting)

def resolve (setting : Setting) (type : CType) : Work Progress Target :=
  resolveWith setting (effects setting) type

def resolveMember (setting : Setting) (name : String) (type : CType) : Work Progress Target :=
  resolveMemberWith setting (effects setting) name type

def registerAll (setting : Setting) (names : List String) : Work Progress Unit :=
  names.forM fun name => do
    let _ ← register setting name

def forceTypes (setting : Setting) : Work Progress Unit :=
  registerAll setting setting.configuration.forceTypes

end Session

end Interop
