import Interop.Proofs.Document.Names
import Interop.Proofs.Generation.Partition
import Interop.Proofs.Session.Destination
import Interop.Proofs.Session.MemberNames

/-! The reserved words among the names that a run introduces. Fields, parameters, elements and constants are
escaped; structures, enumerations and functions keep their declared names, whatever these are. -/
namespace Interop

namespace Identifier

variable {name stem : String}

theorem not_isReserved_escape : isReserved (escape name) = false := by
  cases reserved : isReserved name with
  | true =>
    rw [escape_reserved reserved]
    exact not_isReserved_underscore name
  | false => rwa [escape_other reserved]

theorem not_isReserved_of_mem {text : String} {c : Char} (member : c ∈ text.toList) (large : c.isLower = false) :
    isReserved text = false := by
  rw [Bool.eq_false_iff]
  intro reserved
  exact Bool.false_ne_true (large.symm.trans (isLower_of_isReserved reserved member))

theorem not_isReserved_positional (index : Nat) : isReserved (positional stem name index) = false := by
  rw [positional]
  split
  · obtain ⟨c, member⟩ := List.exists_mem_of_ne_nil (Nat.toDigits 10 index) Nat.toDigits_ne_nil
    exact not_isReserved_of_mem (mem_numbered member)
      (Numeral.not_isLower_of_isDigit (Numeral.isDigit_of_mem member))
  · exact not_isReserved_escape

theorem not_isReserved_of_mem_identifiers {names : List String} (member : name ∈ identifiers stem names) :
    isReserved name = false := by
  obtain ⟨index, within, rfl⟩ := List.mem_mapIdx.mp member
  exact not_isReserved_positional index

end Identifier

namespace Declaration

theorem not_isReserved_memberNames {m : TargetMember} {name : String} (plain : Identifier.isReserved m.name = false)
    (member : name ∈ memberNames m) : Identifier.isReserved name = false := by
  rcases List.mem_append.mp member with nested | own
  · obtain ⟨inner, found, rfl⟩ := Option.mem_map.mp (Option.mem_toList.mp nested)
    rw [name_nested found]
    have capital : 'B' ∈ (bufferName m.name).toList := by simp [bufferName]
    exact Identifier.not_isReserved_of_mem capital (by decide)
  · exact List.mem_singleton.mp own ▸ plain

end Declaration

namespace Session

open Work Reading

variable {setting : Setting} {name : String}

theorem introduced_of_tag? {declaration : Declaration} (tag : declaration.tag? = some name) :
    name ∈ declaration.introduced := by
  cases declaration with
  | «structure» | enumeration =>
    obtain rfl := Option.some.inj tag
    exact List.mem_cons_self
  | _ => cases tag

theorem not_isReserved_platformEnum (member : name ∈ Declaration.platformEnum.introduced) :
    Identifier.isReserved name = false := by
  have all : (Declaration.platformEnum.introduced.all fun name => !Identifier.isReserved name) = true := by
    decide +kernel
  simpa using List.all_eq_true.mp all name member

/-- A reserved word that a declaration introduces is its own name. -/
theorem tag?_of_isReserved {artifact : Artifact} (makes : Makes setting artifact)
    (member : name ∈ artifact.declaration.introduced) (reserved : Identifier.isReserved name) :
    artifact.declaration.tag? = some name := by
  have apart {other : String} (plain : Identifier.isReserved other = false) : name ≠ other := by
    rintro rfl
    exact Bool.false_ne_true (plain.symm.trans reserved)
  obtain ⟨declaration, used, -, yields, -⟩ := makes
  cases declaration with
  | struct struct =>
    obtain ⟨fields, _, _, resolved, done, -⟩ := yields_bind.mp yields
    obtain ⟨made, -⟩ := yields_pure.mp done
    have names : fields.map (·.name) = Identifier.identifiers "field" (struct.fields.map (·.name)) :=
      names_resolveMembersWith resolved
    rw [← made] at member ⊢
    rcases List.mem_cons.mp member with rfl | member
    · rfl
    · obtain ⟨m, inside, member⟩ := List.mem_flatMap.mp member
      have plain := Identifier.not_isReserved_of_mem_identifiers (names ▸ List.mem_map_of_mem inside)
      exact absurd rfl (apart (Declaration.not_isReserved_memberNames plain member))
  | enumeration enumeration =>
    obtain ⟨underlying, _, _, -, done, -⟩ := yields_bind.mp yields
    obtain ⟨made, -⟩ := yields_pure.mp done
    rw [← made] at member ⊢
    rcases List.mem_cons.mp member with rfl | member
    · rfl
    · obtain ⟨item, -, same⟩ := List.mem_map.mp member
      exact absurd same.symm (apart Identifier.not_isReserved_escape)

/-- A reserved word that a signature introduces is the name of its function. -/
theorem name_of_isReserved {function : Function} {signature : Signature} (signs : Signs setting function signature)
    (member : name ∈ signature.names) (reserved : Identifier.isReserved name) : name = signature.name := by
  rcases List.mem_cons.mp member with own | member
  · exact own
  · have yields : Yields (signatureWith setting (Reading.effects setting) function) signature _ := ⟨signs, rfl⟩
    obtain ⟨parameters, _, _, resolved, rest, -⟩ := yields_bind.mp yields
    obtain ⟨_, _, _, -, done, -⟩ := yields_bind.mp rest
    obtain ⟨rfl, -⟩ := yields_pure.mp done
    rw [names_resolveMembersWith resolved, Identifier.parameter_eq] at member
    exact absurd reserved (by simp [Identifier.not_isReserved_of_mem_identifiers member])

section

variable {functions : List Function} {signatures : List Signature}
  (signs : List.Forall₂ (Signs setting) functions signatures)

include signs

theorem names_of_signs : signatures.map (·.name) = functions.map (·.name) := by
  induction signs with
  | nil => rfl
  | cons signs _ ih => rw [List.map_cons, List.map_cons, signs.name, ih]

theorem exists_signs {signature : Signature} (member : signature ∈ signatures) :
    ∃ function ∈ functions, Signs setting function signature := by
  induction signs with
  | nil => cases member
  | @cons function other _ _ signs _ ih =>
    rcases List.mem_cons.mp member with rfl | member
    · exact ⟨function, List.mem_cons_self, signs⟩
    · obtain ⟨function, present, signs⟩ := ih member
      exact ⟨function, List.mem_cons_of_mem _ present, signs⟩

end

def Worded (setting : Setting) (artifacts : List Artifact) : Prop :=
  ∀ artifact ∈ artifacts, artifact.text = artifact.declaration.text setting.configuration.namespaceName

theorem worded_writeAll {graph : Graph} {before after : Progress} (start : before.artifacts = [])
    (gives : Gives (Generation.writeAll setting graph) before ⟨⟩ after) : Worded setting after.artifacts := by
  have frame : Frame fun early late : Progress => Worded setting early.artifacts → Worded setting late.artifacts :=
    ⟨fun _ => id, fun first second worded => second (first worded)⟩
  refine (keeps_writeAll frame (fun _ _ => id) (fun _ _ => id) (fun name declaration progress => ?_) graph).of_gives
    gives ?_
  · rw [outcome_write]
    split
    · exact id
    · split
      · exact fun worded => List.forall_mem_append.mpr ⟨worded, List.forall_mem_singleton.mpr rfl⟩
      · exact id
  · rw [start]
    exact List.forall_mem_nil _

end Session

namespace Generation

open Session Work

variable {configuration : Configuration} {graph : Graph} {sink : Sink} {report : Report}

/-- What a successful run has written, with the signatures that its libraries share out. -/
theorem exists_shares (success : (fromGraph configuration graph sink).result = .ok report) :
    ∃ setting bindings, bindings.map Binding.library = configuration.libraries ∧ Shares graph [] bindings ∧
      (∀ binding ∈ bindings, List.Forall₂ (Signs setting) binding.functions binding.signatures) ∧
      surfaces (fromGraph configuration graph sink).artifacts =
        ("Platform", .platformEnum) :: bindings.flatMap (Binding.surface setting.constants) ∧
      ∀ artifact ∈ (fromGraph configuration graph sink).artifacts,
        artifact.text = artifact.declaration.text configuration.namespaceName ∧
        (artifact.declaration.tag?.isSome → Makes setting artifact) := by
  obtain ⟨setting, events, after, prepared, gives, artifacts, -⟩ := fromGraph_ok success
  obtain ⟨rfl, context⟩ := named_prepare prepared
  obtain ⟨_, _, -, advance⟩ := serves_writeAll (Context.named_prepareContext context) gives
  have worded := worded_writeAll rfl gives
  obtain ⟨_, middle, platforms, gives⟩ := gives_bind.mp gives
  obtain ⟨_, bound, libraries, forced⟩ := gives_bind.mp gives
  obtain ⟨bindings, aligned, shares, signs, written⟩ := shares_libraries libraries
  refine ⟨setting, bindings, aligned, shares, signs, ?_, fun artifact member => ?_⟩
  · have same : surfaces after.artifacts = surfaces bound.artifacts := sameSurfaces_forceTypes.of_gives forced
    rw [artifacts, same, written, surfaces_write platforms rfl]
    rfl
  · rw [artifacts] at member
    refine ⟨worded artifact member, fun tagged => ?_⟩
    obtain ⟨added, written⟩ := advance.written
    rw [written.artifacts] at member
    exact (written.made artifact member tagged).1

section

variable {library : Library} {signatures : List Signature} {constants : List NamedConstant} {name : String}

/-- The artifacts of a library introduce what its signatures and constants do. -/
theorem introduced_surface {written : String × Declaration}
    (member : written ∈ library.surface signatures constants) (introduced : name ∈ written.2.introduced) :
    (∃ signature ∈ signatures, name ∈ signature.names) ∨ ∃ constant ∈ constants, constant.identifier = name := by
  have inside : name ∈ signatures.flatMap Signature.names ++ constants.map NamedConstant.identifier := by
    rcases List.mem_append.mp member with platform | surface
    · obtain ⟨binary, -, platform⟩ := List.mem_flatMap.mp platform
      rcases List.mem_pair.mp platform with rfl | rfl
      · exact List.mem_append_left _ introduced
      · exact introduced
    · rcases List.mem_pair.mp surface with rfl | rfl <;> exact introduced
  exact (List.mem_append.mp inside).imp List.mem_flatMap.mp List.mem_map.mp

theorem exists_introduced {signature : Signature} (member : signature ∈ signatures) :
    ∃ written ∈ library.surface signatures constants, signature.name ∈ written.2.introduced :=
  ⟨_, List.mem_append_right _ List.mem_cons_self,
    List.mem_append_left _ (List.mem_flatMap.mpr ⟨signature, member, List.mem_cons_self⟩)⟩

end

/-- A reserved word that a run introduces is the name of a declaration that it wrote or of a function. -/
theorem named_of_isReserved (success : (fromGraph configuration graph sink).result = .ok report)
    {artifact : Artifact} {name : String} (reserved : Identifier.isReserved name)
    (member : artifact ∈ (fromGraph configuration graph sink).artifacts)
    (introduced : name ∈ artifact.declaration.introduced) :
    name ∈ declared (fromGraph configuration graph sink).artifacts ∨
      ∃ library ∈ configuration.libraries, ∃ function ∈ library.functions graph, function.name = name := by
  obtain ⟨setting, bindings, aligned, shares, signs, surfaces_eq, made⟩ := exists_shares success
  cases tag : artifact.declaration.tag? with
  | some _ =>
    refine .inl (List.mem_filterMap.mpr ⟨artifact, member, ?_⟩)
    exact tag?_of_isReserved ((made artifact member).2 (by rw [tag]; rfl)) introduced reserved
  | none =>
    have written : (artifact.name, artifact.declaration) ∈
        surfaces (fromGraph configuration graph sink).artifacts := by
      refine List.mem_map.mpr ⟨artifact, List.mem_filter.mpr ⟨member, ?_⟩, rfl⟩
      rw [tag]
      rfl
    rw [surfaces_eq] at written
    rcases List.mem_cons.mp written with platform | surface
    · rw [(Prod.mk.inj platform).2] at introduced
      exact absurd reserved (by simp [not_isReserved_platformEnum introduced])
    · obtain ⟨binding, bound, surface⟩ := List.mem_flatMap.mp surface
      rcases introduced_surface surface introduced with ⟨signature, member, named⟩ | ⟨constant, -, same⟩
      · obtain ⟨function, present, signed⟩ := exists_signs (signs binding bound) member
        have own := name_of_isReserved signed named reserved
        have declares := Library.mem_functions.mpr (shares.partitions.matching binding bound function present)
        exact .inr ⟨binding.library, aligned ▸ List.mem_map_of_mem bound, function, declares, signed.name ▸ own.symm⟩
      · exact absurd reserved (by rw [← same, NamedConstant.identifier, Identifier.not_isReserved_escape]; simp)

/-- Every function in the header of a library is declared under its own name, whatever the name is. -/
theorem exists_artifact_of_mem_functions (success : (fromGraph configuration graph sink).result = .ok report)
    {library : Library} {function : Function} (configured : library ∈ configuration.libraries)
    (member : function ∈ library.functions graph) :
    ∃ artifact ∈ (fromGraph configuration graph sink).artifacts, function.name ∈ artifact.declaration.introduced := by
  obtain ⟨setting, bindings, aligned, shares, signs, surfaces_eq, -⟩ := exists_shares success
  rw [← aligned] at configured
  obtain ⟨declaring, bound, rfl⟩ := List.mem_map.mp configured
  have declares := Library.declares_iff.mpr ⟨function, member, rfl⟩
  obtain ⟨position, ⟨binding, found, binds⟩, -⟩ := shares.partitions.once _ ⟨declaring, bound, declares⟩
  have bound := List.mem_of_getElem? found
  rw [Binding.Binds, ← names_of_signs (signs binding bound)] at binds
  obtain ⟨signature, present, named⟩ := List.mem_map.mp binds
  obtain ⟨written, surface, introduced⟩ := exists_introduced present
  have written : written ∈ surfaces (fromGraph configuration graph sink).artifacts := by
    rw [surfaces_eq]
    exact List.mem_cons_of_mem _ (List.mem_flatMap.mpr ⟨binding, bound, surface⟩)
  obtain ⟨artifact, kept, rfl⟩ := List.mem_map.mp written
  exact ⟨artifact, (List.mem_filter.mp kept).1, named ▸ introduced⟩

/-- The names that a successful run introduces are those that its artifacts show, and the reserved words among
them are the names of the structures and enumerations that it declares and of the functions in the headers of
its libraries. -/
theorem reserved_introduced_iff (success : (fromGraph configuration graph sink).result = .ok report) :
    (∀ artifact ∈ (fromGraph configuration graph sink).artifacts, Unbroken configuration.namespaceName →
      artifact.declaration.isSpelled → Surface.introduced? artifact.text = some artifact.declaration.introduced) ∧
    ∀ name, Identifier.isReserved name →
      ((∃ artifact ∈ (fromGraph configuration graph sink).artifacts, name ∈ artifact.declaration.introduced) ↔
        name ∈ declared (fromGraph configuration graph sink).artifacts ∨
          ∃ library ∈ configuration.libraries, ∃ function ∈ library.functions graph, function.name = name) := by
  refine ⟨fun artifact member unbroken spelled => ?_, fun name reserved => ⟨?_, ?_⟩⟩
  · obtain ⟨_, _, _, _, _, _, made⟩ := exists_shares success
    rw [(made artifact member).1]
    exact Surface.introduced?_text unbroken spelled
  · rintro ⟨artifact, member, introduced⟩
    exact named_of_isReserved success reserved member introduced
  · rintro (tagged | ⟨library, configured, function, member, rfl⟩)
    · obtain ⟨artifact, member, tag⟩ := List.mem_filterMap.mp tagged
      exact ⟨artifact, member, introduced_of_tag? tag⟩
    · exact exists_artifact_of_mem_functions success configured member

/-- A structure, a function, a field and a parameter that are called by reserved words. -/
def eventGraph : Graph := ⟨[{
  fileName := "tree.h"
  structs := [⟨"event", [⟨"object", .builtin .int⟩], false, false⟩]
  enums := []
  typedefs := []
  functions := [⟨"lock", [⟨"in", .pointer (.tag (.named "event"))⟩], .builtin .int⟩]
  macros := [] }]⟩

def eventReport : Report := ⟨["Platform", "event", "TreeLinuxNative", "TreeLinux", "ITree", "Tree"], []⟩

theorem reserved_introduced_iff_event :
    (fromGraph treeConfiguration eventGraph (.memory none)).result = .ok eventReport ∧
    (∃ artifact ∈ (fromGraph treeConfiguration eventGraph (.memory none)).artifacts,
      "lock" ∈ artifact.declaration.introduced) ∧
    ¬ ∃ artifact ∈ (fromGraph treeConfiguration eventGraph (.memory none)).artifacts,
      "in" ∈ artifact.declaration.introduced := by
  have success : (fromGraph treeConfiguration eventGraph (.memory none)).result = .ok eventReport := rfl
  have tags : declared (fromGraph treeConfiguration eventGraph (.memory none)).artifacts = ["event"] := rfl
  obtain ⟨-, reserved⟩ := reserved_introduced_iff success
  refine ⟨success, (reserved "lock" (by decide)).mpr (.inr ?_), fun introduced => ?_⟩
  · exact ⟨_, List.mem_singleton_self _, _, List.mem_singleton_self _, rfl⟩
  · rcases (reserved "in" (by decide)).mp introduced with tagged | ⟨library, configured, function, member, named⟩
    · rw [tags] at tagged
      exact absurd tagged (by decide)
    · obtain rfl := List.mem_singleton.mp configured
      obtain rfl := List.mem_singleton.mp member
      exact absurd named (by decide)

/-- The structure is declared under the reserved word. -/
theorem not_always_escaped : ¬ ∀ (configuration : Configuration) (graph : Graph) (sink : Sink) (report : Report),
    (fromGraph configuration graph sink).result = .ok report →
    ∀ artifact ∈ (fromGraph configuration graph sink).artifacts,
    ∀ names, Surface.introduced? artifact.text = some names → ∀ name ∈ names, Identifier.isReserved name = false := by
  intro always
  obtain ⟨artifact, member, made⟩ : ∃ artifact ∈ (fromGraph treeConfiguration eventGraph (.memory none)).artifacts,
      artifact.declaration = .structure "event" false [⟨"_object", .primitive "int"⟩] ∧
        artifact.text = artifact.declaration.text "Trees" :=
    ⟨_, List.mem_cons_of_mem _ List.mem_cons_self, rfl, rfl⟩
  obtain ⟨declaration, text⟩ := made
  rw [declaration] at text
  have read : Surface.introduced? artifact.text = some ["event", "_object"] := by
    rw [text]
    exact Surface.introduced?_text (by decide) (by decide)
  have escaped := always _ _ _ eventReport rfl artifact member _ read "event" List.mem_cons_self
  revert escaped
  decide

end Generation

end Interop
