import Mathlib.Data.List.Forall2
import Interop.Proofs.Session.Binding

/-! What a session writes beside structures and enumerations. Registration writes nothing of it, and
each library writes its own artifacts, from the signatures of the functions that it binds. -/
namespace Interop

/-- The artifacts that declare no structure or enumeration, in order. -/
def surfaces (artifacts : List Artifact) : List (String × Declaration) :=
  (artifacts.filter (·.declaration.tag?.isNone)).map fun artifact => (artifact.name, artifact.declaration)

theorem surfaces_append (early late : List Artifact) :
    surfaces (early ++ late) = surfaces early ++ surfaces late := by
  rw [surfaces, List.filter_append, List.map_append]
  rfl

def Library.platformSurface (library : Library) (signatures : List Signature)
    (constants : List NamedConstant) (binary : Binary) : List (String × Declaration) :=
  let name := library.name ++ binary.platform.display
  let native := name ++ "Native"
  [(native, .native native binary.path signatures),
    (name, .wrapper name ("I" ++ library.name) native signatures constants)]

/-- The artifacts of a library, all with the same signatures. -/
def Library.surface (library : Library) (signatures : List Signature) (constants : List NamedConstant) :
    List (String × Declaration) :=
  let contract := "I" ++ library.name
  library.binaries.flatMap (library.platformSurface signatures constants) ++
    [(contract, .interface contract signatures constants),
      (library.name, .facade library.name contract (library.binaries.map (·.platform))
        library.defaultPlatform signatures constants)]

namespace Session

open Work Reading

/-- A function has this signature, whatever a session has done before. -/
def Signs (setting : Setting) (function : Function) (signature : Signature) : Prop :=
  (signatureWith setting (Reading.effects setting) function).result = .ok signature

theorem Signs.name {setting : Setting} {function : Function} {signature : Signature}
    (signs : Signs setting function signature) : signature.name = function.name := by
  have yields : Yields (signatureWith setting (Reading.effects setting) function) signature _ := ⟨signs, rfl⟩
  obtain ⟨parameters, _, _, -, rest, -⟩ := yields_bind.mp yields
  obtain ⟨result, _, _, -, done, -⟩ := yields_bind.mp rest
  exact (yields_pure.mp done).1 ▸ rfl

def SameSurfaces (before after : Progress) : Prop := surfaces after.artifacts = surfaces before.artifacts

theorem frame_sameSurfaces : Frame SameSurfaces := ⟨fun _ => rfl, fun early late => late.trans early⟩

variable {setting : Setting} {before middle after : Progress}

theorem sameSurfaces_emit (name : String) : Keeps SameSurfaces (emit setting name) := by
  refine keeps_emitWithin setting frame_sameSurfaces (fun _ _ => rfl) ?_ _ name
  intro name declaration before middle tag fresh same
  refine ⟨same, fun made result => ?_⟩
  rw [outcome_write]
  split
  · exact same
  · split
    · have tagged : made.tag? = some (artifactName name declaration) := tag?_declare ⟨result, rfl⟩
      change surfaces (middle.artifacts ++ [_]) = _
      rw [surfaces_append, same]
      simp [surfaces, Setting.artifact, tagged, Progress.mark]
    · exact same

theorem sameSurfaces_forceTypes : Keeps SameSurfaces (forceTypes setting) :=
  keeps_registerAll frame_sameSurfaces sameSurfaces_emit _

theorem gives_signature {function : Function} {result : Signature}
    (gives : Gives (signature setting function) before result after) :
    Signs setting function result ∧ SameSurfaces before after := by
  refine ⟨?_, (keeps_signature frame_sameSurfaces sameSurfaces_emit (fun _ _ => rfl) _).of_gives gives⟩
  rw [signature, effects, ← replay_signatureWith (faithful_emit setting)] at gives
  exact result_of_replay gives

theorem gives_signatures {functions : List Function} {signatures : List Signature}
    (gives : Gives (functions.mapM (signature setting)) before signatures after) :
    List.Forall₂ (Signs setting) functions signatures ∧ SameSurfaces before after := by
  induction functions generalizing signatures before with
  | nil =>
    obtain ⟨rfl, rfl⟩ := gives_pure.mp gives
    exact ⟨.nil, rfl⟩
  | cons function functions ih =>
    rw [List.mapM_cons] at gives
    obtain ⟨first, middle, early, rest⟩ := gives_bind.mp gives
    obtain ⟨others, _, late, done⟩ := gives_bind.mp rest
    obtain ⟨rfl, rfl⟩ := gives_pure.mp done
    obtain ⟨signs, same⟩ := gives_signature early
    obtain ⟨all, same'⟩ := ih late
    exact ⟨.cons signs all, frame_sameSurfaces.trans same same'⟩

theorem surfaces_write {name : String} {declaration : Declaration}
    (gives : Gives (write setting name declaration) before ⟨⟩ after) (untagged : declaration.tag? = none) :
    surfaces after.artifacts = surfaces before.artifacts ++ [(name, declaration)] := by
  obtain ⟨-, -, rfl⟩ := gives_write.mp gives
  change surfaces (before.artifacts ++ [_]) = _
  rw [surfaces_append]
  simp [surfaces, Setting.artifact, untagged]

theorem surfaces_writePlatforms {library : Library} {signatures : List Signature} {binaries : List Binary}
    (gives : Gives (binaries.forM (writePlatform setting library signatures)) before ⟨⟩ after) :
    surfaces after.artifacts = surfaces before.artifacts ++
      binaries.flatMap (library.platformSurface signatures setting.constants) := by
  induction binaries generalizing before with
  | nil =>
    obtain ⟨-, rfl⟩ := gives_pure.mp gives
    simp
  | cons binary binaries ih =>
    rw [List.forM_eq_forM, List.forM_cons] at gives
    obtain ⟨_, middle, first, rest⟩ := gives_bind.mp gives
    obtain ⟨_, between, native, wrapper⟩ := gives_bind.mp first
    rw [ih rest, surfaces_write wrapper rfl, surfaces_write native rfl, List.flatMap_cons]
    simp [Library.platformSurface]

/-- A library writes its own artifacts, with the signatures of the functions that it claims. -/
theorem surfaces_bindLibrary {graph : Graph} {claimed claimed' : List String} {library : Library}
    (gives : Gives (bindLibrary setting graph claimed library) before claimed' after) :
    claimed' = (claimFunctions claimed (library.functions graph)).2 ∧ ∃ signatures,
      List.Forall₂ (Signs setting) (claimFunctions claimed (library.functions graph)).1 signatures ∧
      surfaces after.artifacts =
        surfaces before.artifacts ++ library.surface signatures setting.constants := by
  obtain ⟨rfl, signatures, signed, platforms, contract, facade, resolved, written, interface, chosen, rfl⟩ :=
    steps_of_bindLibrary gives
  obtain ⟨signs, same⟩ := gives_signatures resolved
  refine ⟨rfl, signatures, signs, ?_⟩
  change surfaces facade.artifacts = _
  rw [surfaces_write chosen rfl, surfaces_write interface rfl, surfaces_writePlatforms written, same]
  simp [Library.surface]

end Session

end Interop
