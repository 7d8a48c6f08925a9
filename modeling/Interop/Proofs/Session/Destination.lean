import Interop.Proofs.Session.Binding

/-! Sessions and their sinks. A sink only decides whether an artifact is accepted: a session that
succeeds does the same with any sink that accepts everything. -/
namespace Interop

def Setting.into (setting : Setting) (sink : Sink) : Setting := { setting with sink }

@[simp] theorem Setting.configuration_into (setting : Setting) (sink : Sink) :
    (setting.into sink).configuration = setting.configuration := rfl

@[simp] theorem Setting.context_into (setting : Setting) (sink : Sink) :
    (setting.into sink).context = setting.context := rfl

namespace Work

variable {σ α β : Type}

/-- Whenever work succeeds, other work does the same. -/
def Follows (work other : Work σ α) : Prop :=
  ∀ ⦃before value after⦄, Gives work before value after → Gives other before value after

namespace Follows

theorem refl (work : Work σ α) : Follows work work := fun _ _ _ gives => gives

theorem bind {work other : Work σ α} {next next' : α → Work σ β} (first : Follows work other)
    (rest : ∀ value, Follows (next value) (next' value)) : Follows (work >>= next) (other >>= next') := by
  intro before value after gives
  obtain ⟨early, middle, begun, done⟩ := gives_bind.mp gives
  exact gives_bind.mpr ⟨early, middle, first begun, rest early done⟩

theorem mapM {step step' : α → Work σ β} {items : List α} (each : ∀ item, Follows (step item) (step' item)) :
    Follows (items.mapM step) (items.mapM step') := by
  induction items with
  | nil => exact refl _
  | cons item items ih =>
    rw [List.mapM_cons, List.mapM_cons]
    exact bind (each item) fun _ => bind ih fun _ => refl _

theorem forM {step step' : α → Work σ Unit} {items : List α}
    (each : ∀ item, Follows (step item) (step' item)) : Follows (items.forM step) (items.forM step') := by
  induction items with
  | nil => exact refl _
  | cons item items ih =>
    rw [List.forM_eq_forM, List.forM_cons, List.forM_cons]
    exact bind (each item) fun _ => ih

theorem foldlM {step step' : β → α → Work σ β} {items : List α} {value : β}
    (each : ∀ value item, Follows (step value item) (step' value item)) :
    Follows (items.foldlM step value) (items.foldlM step' value) := by
  induction items generalizing value with
  | nil => exact refl _
  | cons item items ih =>
    rw [List.foldlM_cons, List.foldlM_cons]
    exact bind (each value item) fun _ => ih

end Follows

end Work

namespace Session

open Work

section

variable (setting : Setting) (sink : Sink)

theorem redirect_into (name : String) : redirect (setting.into sink) name = redirect setting name := by
  have follow (start : String) (bound : Nat) (chain : List String) (current : String) :
      followOverrides (setting.into sink) start bound chain current =
        followOverrides setting start bound chain current := by
    induction bound generalizing chain current with
    | zero => rfl
    | succ bound ih => simp only [followOverrides, Setting.configuration_into, Setting.context_into, ih]
  exact follow name _ [name] name

section

variable {m : Type → Type} [Monad m] (effects : Effects m)

theorem resolveTag_into : resolveTag (setting.into sink) effects = resolveTag setting effects := rfl

mutual

theorem resolveType_into (unwrap : String → m Target) : (type : CType) →
    resolveType (setting.into sink) effects unwrap type = resolveType setting effects unwrap type
  | .builtin _ => rfl
  | .pointer pointee => by
    simp only [resolveType, resolveType_into unwrap pointee]
    rfl
  | .tag _ => rfl
  | .typedef _ => rfl
  | .function parameters result => by
    simp only [resolveType, resolveTypes_into unwrap parameters, resolveType_into unwrap result]
  | .array element _ => by simp only [resolveType, resolveType_into unwrap element]

theorem resolveTypes_into (unwrap : String → m Target) : (types : List CType) →
    resolveTypes (setting.into sink) effects unwrap types = resolveTypes setting effects unwrap types
  | [] => rfl
  | type :: types => by
    simp only [resolveTypes, resolveType_into unwrap type, resolveTypes_into unwrap types]

end

theorem resolveTypedef_into (room : Nat) :
    resolveTypedef (setting.into sink) effects room = resolveTypedef setting effects room := by
  funext name
  induction room generalizing name with
  | zero => simp only [resolveTypedef, Setting.configuration_into, Setting.context_into, resolveTag_into]
  | succ room ih =>
    simp only [resolveTypedef, Setting.configuration_into, Setting.context_into, resolveTag_into,
      resolveType_into, funext ih]
    rfl

theorem resolveWith_into : resolveWith (setting.into sink) effects = resolveWith setting effects := by
  funext type
  rw [resolveWith, resolveWith, resolveTypedef_into, resolveType_into]

theorem resolveMembersWith_into (rename : String → Nat → String) (declared : List Member) :
    resolveMembersWith (setting.into sink) effects rename declared =
      resolveMembersWith setting effects rename declared := by
  simp only [resolveMembersWith, resolveMemberWith, resolveWith_into]
  rfl

end

theorem effects_into : Reading.effects (setting.into sink) = Reading.effects setting := by
  have enters : enterBy (m := Reading) (setting.into sink) Reading.fail Reading.enter =
      enterBy (m := Reading) setting Reading.fail Reading.enter := by
    funext name
    simp only [enterBy, registerBy, redirect_into]
    rfl
  rw [Reading.effects, Reading.effects, enters]

theorem plan_into (name : String) (declaration : TagDeclaration) :
    plan (setting.into sink) name declaration = plan setting name declaration := by
  rw [plan, plan, effects_into]
  cases declaration with
  | struct struct => simp only [declare, resolveMembersWith_into]
  | enumeration => rfl

theorem signatureWith_into (function : Function) :
    signatureWith (setting.into sink) (Reading.effects (setting.into sink)) function =
      signatureWith setting (Reading.effects setting) function := by
  simp only [signatureWith, effects_into, resolveMembersWith_into, resolveWith_into]

variable {setting sink} (accepts : ∀ held name, sink.accepts held name)

theorem follows_replay {emit emit' : String → Work Progress Registration} {α : Type}
    (follows : ∀ name, Follows (emit name) (emit' name)) (reading : Reading α) :
    Follows (reading.replay emit) (reading.replay emit') := by
  refine .bind (.forM fun action => ?_) fun _ => .refl _
  cases action with
  | report event => exact .refl _
  | enter name => exact .bind (follows name) fun _ => .refl _

include accepts

theorem follows_write (name : String) (declaration : Declaration) :
    Follows (write setting name declaration) (write (setting.into sink) name declaration) := by
  intro before _ after gives
  obtain ⟨free, -, rfl⟩ := gives_write.mp gives
  exact gives_write.mpr ⟨free, accepts _ _, rfl⟩

theorem follows_emitWithin (bound : Nat) (name : String) :
    Follows (emitWithin setting bound name) (emitWithin (setting.into sink) bound name) := by
  induction bound generalizing name with
  | zero => exact .refl _
  | succ bound ih =>
    intro before registration after gives
    rw [Gives, emitWithin_succ] at gives ⊢
    split at gives
    · next present => rw [if_pos present]; exact gives
    · next fresh =>
      rw [if_neg fresh, Setting.context_into]
      cases tag : setting.context.tag? name with
      | none => rw [tag] at gives; cases gives
      | some declaration =>
        rw [tag] at gives
        -- Both sinks have the same plan, so only emission below it and the artifact remain.
        refine Follows.bind ?_ (fun _ => .refl _) gives
        rw [emitDeclaration_replay (faithful_emitWithin setting bound),
          emitDeclaration_replay (faithful_emitWithin (setting.into sink) bound), plan_into]
        exact .bind (follows_replay ih _) fun made => follows_write accepts _ made

theorem follows_emit (name : String) : Follows (emit setting name) (emit (setting.into sink) name) :=
  follows_emitWithin accepts _ name

theorem follows_register (name : String) :
    Follows (register setting name) (register (setting.into sink) name) := by
  unfold register registerBy
  rw [redirect_into, Setting.context_into]
  split
  · exact follows_emit accepts name
  · split
    · exact .bind (follows_emit accepts _) fun _ => .refl _
    · exact .refl _

theorem follows_forceTypes : Follows (forceTypes setting) (forceTypes (setting.into sink)) :=
  .forM fun name => .bind (follows_register accepts name) fun _ => .refl _

theorem follows_signature (function : Function) :
    Follows (signature setting function) (signature (setting.into sink) function) := by
  rw [signature, signature, effects, effects, ← Reading.replay_signatureWith (faithful_emit setting),
    ← Reading.replay_signatureWith (faithful_emit (setting.into sink)), signatureWith_into]
  exact follows_replay (follows_emit accepts) _

theorem follows_bindLibrary (graph : Graph) (claimed : List String) (library : Library) :
    Follows (bindLibrary setting graph claimed library) (bindLibrary (setting.into sink) graph claimed library) := by
  refine .bind (.refl _) fun partition => .bind (.mapM (follows_signature accepts)) fun signatures => ?_
  refine .bind (.forM fun binary => .bind (follows_write accepts _ _) fun _ => follows_write accepts _ _) fun _ => ?_
  exact .bind (follows_write accepts _ _) fun _ => .bind (follows_write accepts _ _) fun _ => .refl _

theorem follows_writeAll (graph : Graph) :
    Follows (Generation.writeAll setting graph) (Generation.writeAll (setting.into sink) graph) := by
  refine .bind (follows_write accepts _ _) fun _ => .bind ?_ fun _ => follows_forceTypes accepts
  exact .foldlM fun claimed library => follows_bindLibrary accepts graph claimed library

end

section

variable {setting : Setting} {relation : Progress → Progress → Prop} (frame : Frame relation)
  (notes : ∀ event, Keeps relation (note event)) (marks : ∀ progress name, relation progress (progress.mark name))
  (writes : ∀ name declaration, Keeps relation (write setting name declaration))

include frame notes marks writes

theorem keeps_emit (name : String) : Keeps relation (emit setting name) := by
  refine keeps_emitWithin setting frame notes (fun {name _ before _} _ _ later => ?_) _ name
  have made := frame.trans (marks before name) later
  exact ⟨made, fun declaration _ => frame.trans made (writes _ declaration _)⟩

theorem keeps_bindLibrary (graph : Graph) (claimed : List String) (library : Library) :
    Keeps relation (bindLibrary setting graph claimed library) := by
  have signs := keeps_signature frame (keeps_emit frame notes marks writes) notes
  refine frame.bind frame.refl fun partition => frame.bind (frame.mapM signs _) fun signatures => ?_
  refine frame.bind (frame.forM fun binary _ => frame.bind (writes _ _) fun _ => writes _ _) fun _ => ?_
  exact frame.bind (writes _ _) fun _ => frame.bind (writes _ _) fun _ => frame.bind (notes _) fun _ => frame.pure _

/-- A run keeps what reports, marks and artifacts keep. -/
theorem keeps_writeAll (graph : Graph) : Keeps relation (Generation.writeAll setting graph) := by
  refine frame.bind (writes _ _) fun _ => frame.bind (frame.foldlM (fun claimed library _ => ?_) []) fun _ => ?_
  · exact keeps_bindLibrary frame notes marks writes graph claimed library
  · exact keeps_registerAll frame (keeps_emit frame notes marks writes) _

end

def Accepted (sink : Sink) (artifacts : List Artifact) : Prop :=
  ∀ early artifact late, artifacts = early ++ artifact :: late →
    sink.accepts (early.map fun artifact => (artifact.name, artifact.text)) artifact.name

theorem Accepted.append {sink : Sink} {artifacts : List Artifact} (accepted : Accepted sink artifacts)
    {artifact : Artifact}
    (next : sink.accepts (artifacts.map fun artifact => (artifact.name, artifact.text)) artifact.name) :
    Accepted sink (artifacts ++ [artifact]) := by
  intro early other late same
  rcases List.eq_nil_or_concat late with rfl | ⟨between, last, rfl⟩
  · obtain ⟨rfl, last⟩ := List.append_inj' same rfl
    obtain rfl := List.singleton_inj.mp last
    exact next
  · rw [List.concat_eq_append, ← List.cons_append, ← List.append_assoc] at same
    exact accepted early other between (List.append_inj_left' same rfl)

theorem accepted_writeAll {setting : Setting} {graph : Graph} {before after : Progress}
    (start : before.artifacts = []) (gives : Gives (Generation.writeAll setting graph) before ⟨⟩ after) :
    Accepted setting.sink after.artifacts := by
  have frame : Frame fun early late : Progress =>
      Accepted setting.sink early.artifacts → Accepted setting.sink late.artifacts :=
    ⟨fun _ => id, fun first second accepted => second (first accepted)⟩
  refine (keeps_writeAll frame (fun _ _ => id) (fun _ _ => id) (fun name declaration progress => ?_) graph).of_gives
    gives ?_
  · rw [outcome_write]
    split
    · exact id
    · split
      · next accepts => exact fun accepted => accepted.append accepts
      · exact id
  · rw [start]
    intro early artifact late same
    simp at same

end Session

end Interop
