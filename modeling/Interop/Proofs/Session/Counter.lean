import Interop.Proofs.Session.Nesting

/-! Sessions that count the typedefs being unwrapped. The count goes up and down around every typedef and
is set aside while a declaration is registered; whatever fails in between, it is the same afterwards,
and the session does what one does that is told how much room there is. -/
namespace Interop

/-- The progress of a session, with the number of typedefs that are being unwrapped since the last tag. -/
structure Counted where
  progress : Progress
  depth : Nat

namespace Counted

variable {α : Type}

/-- Work of a session, which does not count. -/
def lift (work : Work Progress α) : Work Counted α := fun state =>
  let (result, progress) := Work.outcome work state.progress
  (result, { state with progress })

def setDepth (depth : Nat) : Work Counted Unit := modify fun state => { state with depth }

/-- Changes the count once work has ended, with or without an error. -/
def ending (work : Work Counted α) (change : Nat → Nat) : Work Counted α := fun state =>
  let (result, after) := Work.outcome work state
  (result, { after with depth := change after.depth })

open Session

section

variable (setting : Setting) (emit : String → Work Counted Registration)

/-- Registers a declaration, with the count set aside. -/
def enter (name : String) : Work Counted String := do
  let outer := (← get).depth
  setDepth 0
  ending (enterBy setting throw emit name) fun _ => outer

def effects : Effects (Work Counted) := ⟨throw, fun event => lift (note event), enter setting emit⟩

def unwrap (inner : String → Work Counted Target) (name : String) (typedef : Typedef) (depth : Nat) :
    Work Counted Target :=
  if typedefLimit ≤ depth then throw (.typedefCycle name)
  else do
    noteUnwrapped setting (effects setting emit) name
    setDepth (depth + 1)
    ending (resolveType setting (effects setting emit) inner typedef.underlying) (· - 1)

/-- The target of a typedef. It is the count that limits nesting; the number of rounds is never used up. -/
def resolveTypedef : Nat → String → Work Counted Target
  | 0, name => throw (.typedefCycle name)
  | rounds + 1, name =>
    match setting.configuration.typedefStrategies.lookup name with
    | some .namedEnum => resolveTag setting (effects setting emit) (.named name)
    | _ =>
      match setting.context.typedef? name with
      | none => throw (.unknownTypedef name)
      | some typedef => do
        unwrap setting emit (resolveTypedef rounds) name typedef (← get).depth

def resolve (type : CType) : Work Counted Target :=
  resolveType setting (effects setting emit) (resolveTypedef setting emit (typedefLimit + 1)) type

def resolveMember (m : Member) : Work Counted Target :=
  match setting.configuration.nameOverrides.lookup m.name with
  | none => resolve setting emit m.type
  | some target =>
    if setting.context.isKnown target then resolveTag setting (effects setting emit) (.named target)
    else throw (.unknownOverrideTarget m.name target)

def declare (name : String) : TagDeclaration → Work Counted Declaration
  | .struct struct => do
    let fields ← struct.fields.zipIdx.mapM fun (m, index) => do
      return TargetMember.mk (Identifier.field m.name index) (← resolveMember setting emit m)
    return .structure struct.name struct.isUnion fields
  | .enumeration enumeration => do
    let underlying ← primitive setting (effects setting emit) enumeration.underlying
    return .enumeration name underlying enumeration.items

def emitDeclaration (name : String) (declaration : TagDeclaration) : Work Counted Unit := do
  let made ← declare setting emit name declaration
  lift (write setting (artifactName name declaration) made)

end

def emitWithin (setting : Setting) : Nat → String → Work Counted Registration
  | 0, name => return .alreadyEmitted name
  | bound + 1, name => do
    if isRegistered (← get).progress name then return .alreadyEmitted name
    match setting.context.tag? name with
    | none => throw (.unsupportedName name)
    | some declaration =>
      lift (mark name)
      emitDeclaration setting (emitWithin setting bound) name declaration
      return .emitted name

def emit (setting : Setting) (name : String) : Work Counted Registration :=
  emitWithin setting (setting.context.tags.length + 1) name

end Counted

namespace Session

open Work

/-- From some depth, work that counts comes to the same as work that does not, and leaves the count as it
was. -/
def Mirrors (depth : Nat) (counting : Work Counted α) (work : Work Progress α) : Prop :=
  ∀ progress, outcome counting ⟨progress, depth⟩ =
    ((outcome work progress).1, ⟨(outcome work progress).2, depth⟩)

namespace Mirrors

variable {depth : Nat} {α β : Type}

theorem pure (value : α) : Mirrors depth (Pure.pure value) (Pure.pure value) := fun _ => rfl

theorem throw (error : GenerationError) :
    Mirrors depth (MonadExcept.throw error : Work Counted α) (MonadExcept.throw error) := fun _ => rfl

theorem lift (work : Work Progress α) : Mirrors depth (Counted.lift work) work := fun _ => rfl

theorem bind {counting : Work Counted α} {work : Work Progress α} {next : α → Work Counted β}
    {next' : α → Work Progress β} (first : Mirrors depth counting work)
    (rest : ∀ value, Mirrors depth (next value) (next' value)) :
    Mirrors depth (counting >>= next) (work >>= next') := by
  intro progress
  rw [outcome_bind, outcome_bind, first progress]
  rcases outcome work progress with ⟨error | value, middle⟩
  · rfl
  · exact rest value middle

theorem mapM {step : β → Work Counted α} {step' : β → Work Progress α}
    (each : ∀ item, Mirrors depth (step item) (step' item)) (items : List β) :
    Mirrors depth (items.mapM step) (items.mapM step') := by
  induction items with
  | nil => exact pure []
  | cons item items ih =>
    rw [List.mapM_cons, List.mapM_cons]
    exact (each item).bind fun _ => ih.bind fun _ => pure _

/-- Work that depends on the count alone. -/
theorem reads (counting : Nat → Work Counted α) {work : Work Progress α}
    (mirrors : Mirrors depth (counting depth) work) :
    Mirrors depth (get >>= fun state => counting state.depth) work := mirrors

/-- Work at another depth, which is given up afterwards. -/
theorem within {inner : Nat} {counting : Work Counted α} {work : Work Progress α} {change : Nat → Nat}
    (mirrors : Mirrors inner counting work) (restores : change inner = depth) :
    Mirrors depth (do Counted.setDepth inner; Counted.ending counting change) work := by
  intro progress
  change ((outcome counting ⟨progress, inner⟩).1, Counted.mk (outcome counting ⟨progress, inner⟩).2.progress
    (change (outcome counting ⟨progress, inner⟩).2.depth)) = _
  rw [mirrors progress, restores]

end Mirrors

section

variable {setting : Setting} {counting : String → Work Counted Registration}
  {emit : String → Work Progress Registration} (emits : ∀ name, Mirrors 0 (counting name) (emit name))
  {depth : Nat}

theorem mirrors_primitive (kind : Primitive) : Mirrors depth (primitive setting (Counted.effects setting counting) kind)
    (primitive setting (effectsBy setting emit) kind) := by
  unfold primitive
  split
  · exact .pure _
  · exact .throw _

theorem mirrors_noteUnwrapped (name : String) :
    Mirrors depth (noteUnwrapped setting (Counted.effects setting counting) name)
      (noteUnwrapped setting (effectsBy setting emit) name) := by
  unfold noteUnwrapped
  split
  · exact Mirrors.lift (note _)
  · exact .pure _

include emits

/-- Registration begins at depth zero, wherever it is asked for. -/
theorem mirrors_enter (name : String) :
    Mirrors depth (Counted.enter setting counting name) ((effectsBy setting emit).enter name) := by
  have registers : Mirrors 0 (enterBy setting throw counting name) (enterBy setting throw emit name) := by
    refine .bind ?_ fun _ => .pure _
    unfold registerBy
    split
    · exact emits name
    · split
      · exact (emits _).bind fun _ => .pure _
      · exact .throw _
  exact .reads (fun outer => do
    Counted.setDepth 0
    Counted.ending (enterBy setting throw counting name) fun _ => outer) (registers.within rfl)

theorem mirrors_resolveTag (reference : TagReference) :
    Mirrors depth (resolveTag setting (Counted.effects setting counting) reference)
      (resolveTag setting (effectsBy setting emit) reference) := by
  unfold resolveTag
  split
  · exact (mirrors_enter emits _).bind fun _ => .pure _
  · exact .throw _

omit emits in
mutual

theorem mirrors_resolveType (emits : ∀ name, Mirrors 0 (counting name) (emit name))
    {unwrap : String → Work Counted Target} {unwrap' : String → Work Progress Target}
    (unwraps : ∀ name, Mirrors depth (unwrap name) (unwrap' name)) : (type : CType) →
    Mirrors depth (resolveType setting (Counted.effects setting counting) unwrap type)
      (resolveType setting (effectsBy setting emit) unwrap' type)
  | .builtin kind => mirrors_primitive kind
  | .pointer pointee => (mirrors_resolveType emits unwraps pointee).bind fun _ => .pure _
  | .tag reference => mirrors_resolveTag emits reference
  | .typedef name => unwraps name
  | .function parameters result =>
    (mirrors_resolveTypes emits unwraps parameters).bind fun _ =>
      (mirrors_resolveType emits unwraps result).bind fun _ => .pure _
  | .array element _ => (mirrors_resolveType emits unwraps element).bind fun _ => .pure _

theorem mirrors_resolveTypes (emits : ∀ name, Mirrors 0 (counting name) (emit name))
    {unwrap : String → Work Counted Target} {unwrap' : String → Work Progress Target}
    (unwraps : ∀ name, Mirrors depth (unwrap name) (unwrap' name)) : (types : List CType) →
    Mirrors depth (resolveTypes setting (Counted.effects setting counting) unwrap types)
      (resolveTypes setting (effectsBy setting emit) unwrap' types)
  | [] => .pure _
  | type :: types =>
    (mirrors_resolveType emits unwraps type).bind fun _ =>
      (mirrors_resolveTypes emits unwraps types).bind fun _ => .pure _

end

/-- The count and the room that is left make up the limit. -/
theorem mirrors_resolveTypedef {rounds room : Nat} (level : depth + room = typedefLimit) (enough : room < rounds)
    (name : String) : Mirrors depth (Counted.resolveTypedef setting counting rounds name)
      (resolveTypedef setting (effectsBy setting emit) room name) := by
  induction rounds generalizing depth room name with
  | zero => exact absurd enough (Nat.not_lt_zero room)
  | succ rounds ih =>
    rw [Counted.resolveTypedef]
    split
    · next strategy =>
      rw [resolveTypedef_named setting _ room strategy]
      exact mirrors_resolveTag emits _
    · next strategy =>
      split
      · next unknown =>
        rw [resolveTypedef_unknown setting _ strategy room unknown]
        exact .throw _
      · next typedef known =>
        refine .reads (Counted.unwrap setting counting _ name typedef) ?_
        unfold Counted.unwrap
        cases room with
        | zero =>
          rw [if_pos (by omega), resolveTypedef_zero setting _ strategy known]
          exact .throw _
        | succ room =>
          rw [if_neg (by omega), resolveTypedef_succ setting _ strategy room known]
          have deeper (other : String) : Mirrors (depth + 1) _ _ := ih (by omega) (by omega : room < rounds) other
          have inside : Mirrors (depth + 1) (resolveType setting _ _ typedef.underlying) _ :=
            mirrors_resolveType emits deeper typedef.underlying
          exact (mirrors_noteUnwrapped name).bind fun _ => inside.within (Nat.add_sub_cancel depth 1)

theorem mirrors_resolve (type : CType) :
    Mirrors 0 (Counted.resolve setting counting type) (resolveWith setting (effectsBy setting emit) type) :=
  mirrors_resolveType emits (mirrors_resolveTypedef emits (Nat.zero_add _) (Nat.lt_succ_self _)) type

theorem mirrors_resolveMember (m : Member) : Mirrors 0 (Counted.resolveMember setting counting m)
    (resolveMemberWith setting (effectsBy setting emit) m.name m.type) := by
  unfold Counted.resolveMember resolveMemberWith
  cases setting.configuration.nameOverrides.lookup m.name with
  | none => exact mirrors_resolve emits m.type
  | some target =>
    dsimp only
    split
    · exact mirrors_resolveTag emits _
    · exact .throw _

theorem mirrors_declare (name : String) (declaration : TagDeclaration) :
    Mirrors 0 (Counted.declare setting counting name declaration)
      (declare setting (effectsBy setting emit) name declaration) := by
  cases declaration with
  | struct struct =>
    refine .bind (.mapM (fun entry => ?_) _) fun _ => .pure _
    exact (mirrors_resolveMember emits entry.1).bind fun _ => .pure _
  | enumeration enumeration => exact (mirrors_primitive _).bind fun _ => .pure _

theorem mirrors_emitDeclaration (name : String) (declaration : TagDeclaration) :
    Mirrors 0 (Counted.emitDeclaration setting counting name declaration)
      (emitDeclaration setting emit name declaration) :=
  (mirrors_declare emits name declaration).bind fun _ => .lift _

end

variable {setting : Setting}

/-- By induction on how many declarations may be in the making: each begins to count anew. -/
theorem mirrors_emitWithin (bound : Nat) (name : String) :
    Mirrors 0 (Counted.emitWithin setting bound name) (emitWithin setting bound name) := by
  induction bound generalizing name with
  | zero => exact .pure _
  | succ bound ih =>
    intro progress
    rw [Counted.emitWithin, emitWithin]
    simp only [outcome_bind, outcome_get]
    split
    · rfl
    · cases setting.context.tag? name with
      | none => rfl
      | some declaration =>
        exact (Mirrors.lift (mark name)).bind (fun _ => (mirrors_emitDeclaration ih name declaration).bind
          fun _ => .pure (Registration.emitted name)) progress

theorem mirrors_emit (name : String) : Mirrors 0 (Counted.emit setting name) (emit setting name) :=
  mirrors_emitWithin _ name

/-- The limit is exact and nothing of it leaks. What resolves has no nest beyond it, in the type or in a
field of a structure registered on the way; a cycle is reported only where there is such a nest; a typedef
that leads back to itself does not resolve; and a session that counts typedefs comes to the same, with the
count back at zero however it ends. -/
theorem resolve_bounds_nesting (setting : Setting) (type : CType) (before : Progress) :
    (∀ target after, Gives (resolve setting type) before target after →
      ¬ Nests setting (typedefLimit + 1) type ∧
        ∀ m, NewField setting before after m → ¬ Nests setting (typedefLimit + 1) m.type) ∧
    (∀ name after, Fails (resolve setting type) before (.typedefCycle name) after →
      Nests setting (typedefLimit + 1) type ∨
        ∃ m, NewField setting before after m ∧ Nests setting (typedefLimit + 1) m.type) ∧
    (∀ name target after, Relation.TransGen (UnwrapsTo setting) name name →
      ¬ Gives (resolve setting (.typedef name)) before target after) ∧
    outcome (Counted.resolve setting (Counted.emit setting) type) ⟨before, 0⟩ =
      ((outcome (resolve setting type) before).1, ⟨(outcome (resolve setting type) before).2, 0⟩) := by
  refine ⟨fun _ _ => nests_of_resolve.1 _, fun _ _ => nests_of_resolve.2 _, ?_, ?_⟩
  · intro name target after cycle gives
    exact (nests_of_resolve.1 target gives).1 (nests_of_cycle cycle _)
  · exact mirrors_resolve mirrors_emit type before

end Session

end Interop
