import Interop.Proofs.Document.Structure
import Interop.Proofs.Identifier
import Interop.Proofs.Session.Pointer
import Interop.Proofs.Session.Surface

/-! Names of parameters and fields. A session resolves the types of members in order and names each by its
declared name and its position alone. Nothing compares the names: signatures and structures name two members
alike exactly if the declared names clash, and a structure also if a field is called as the structure nested
for another. -/
namespace Interop.Session

open Work Reading

variable {setting : Setting} {before after : Progress}

theorem names_resolveMembersWith {rename : String → Nat → String} {declared : List Member}
    {members : List TargetMember} {entered : List String}
    (yields : Yields (resolveMembersWith setting (Reading.effects setting) rename declared) members entered) :
    members.map (·.name) = (declared.map (·.name)).mapIdx fun index name => rename name index := by
  unfold resolveMembersWith at yields
  rw [List.mapIdx_eq_zipIdx_map, List.zipIdx_map, List.map_map]
  -- later members are resolved from a later position on
  generalize 0 = start at yields ⊢
  induction declared generalizing start members entered with
  | nil =>
    obtain ⟨rfl, -⟩ := yields_pure.mp yields
    rfl
  | cons m declared ih =>
    simp only [List.zipIdx_cons, List.mapM_cons, bind_pure_comp] at yields
    obtain ⟨_, early, late, first, second, rfl⟩ := yields_bind.mp yields
    obtain ⟨target, -, rfl⟩ := yields_map.mp first
    obtain ⟨rest, others, rfl⟩ := yields_map.mp second
    rw [List.map_cons, ih (start + 1) (by simpa only [bind_pure_comp] using others)]
    rfl

/-- The parameters of a function have different names in its signature exactly if they have different names
where they have any, and no two of these names clash. -/
theorem nodup_parameters_iff {function : Function} {result : Signature}
    (gives : Gives (signature setting function) before result after) :
    (result.parameters.map (·.name)).Nodup ↔
      ((function.parameters.map (·.name)).filter (· ≠ "")).Nodup ∧
        ¬ Identifier.Clashes "arg" (function.parameters.map (·.name)) := by
  obtain ⟨signs, -⟩ := gives_signature gives
  have yields : Yields (signatureWith setting (Reading.effects setting) function) result _ := ⟨signs, rfl⟩
  obtain ⟨parameters, _, _, resolved, rest, -⟩ := yields_bind.mp yields
  obtain ⟨_, _, _, -, done, -⟩ := yields_bind.mp rest
  obtain ⟨rfl, -⟩ := yields_pure.mp done
  rw [names_resolveMembersWith resolved, Identifier.parameter_eq]
  exact Identifier.nodup_identifiers_iff

def addition (names : List String) : Function := ⟨"add", names.map fun name => ⟨name, .builtin .int⟩, .builtin .int⟩

theorem nodup_parameters_iff_addition : ∃ result after,
    Gives (signature (settingOf ⟨[]⟩ []) (addition ["", "in", "value"])) .start result after ∧
      (result.parameters.map (·.name)).Nodup := by
  have gives : Gives (signature (settingOf ⟨[]⟩ []) (addition ["", "in", "value"])) .start _ _ := rfl
  exact ⟨_, _, gives, (nodup_parameters_iff gives).mpr ⟨by decide, by decide +kernel⟩⟩

/-- A parameter without a name is called as the one in front of it. -/
theorem not_always_nodup_parameters : ¬ ∀ (setting : Setting) (function : Function) (before after : Progress)
    (result : Signature), Gives (signature setting function) before result after →
    ((function.parameters.map (·.name)).filter (· ≠ "")).Nodup → (result.parameters.map (·.name)).Nodup := by
  intro always
  have distinct := always (settingOf ⟨[]⟩ []) (addition ["arg1", ""]) .start _ _ rfl (by decide)
  revert distinct
  decide +kernel

section

variable {name : String} {names : List String}

theorem isPlain_positional (plain : IsPlain name) (index : Nat) :
    IsPlain (Identifier.positional "field" name index) := by
  unfold Identifier.positional Identifier.escape
  split
  · exact .append (by decide) (isPlain_toString index)
  · split
    · exact .append (by decide) plain
    · exact plain

/-- No escaped form and no position is called as the structure nested for a field. -/
theorem mem_identifiers_bufferName : Declaration.bufferName name ∈ Identifier.identifiers "field" names ↔
    Declaration.bufferName name ∈ names := by
  have capital : 'B' ∈ (Declaration.bufferName name).toList := by simp [Declaration.bufferName]
  refine Identifier.mem_identifiers_iff capital rfl (by decide) fun index numbered => ?_
  rw [← numbered, String.toList_append, List.mem_append] at capital
  rcases capital with stem | digit
  · exact absurd stem (by decide)
  · rw [Nat.toString_eq_repr, Nat.toList_repr] at digit
    exact absurd (Numeral.isDigit_of_mem digit) (by decide)

end

/-- The structure that is written for a declared one declares no name twice exactly if its fields have
different names where they have any, no two of these names clash, and no field is called as the structure
nested for another. -/
theorem nodup_members_iff {name : String} {struct : Struct}
    (gives : Gives (emitDeclaration setting (emit setting) name (.struct struct)) before ⟨⟩ after) :
    ∃ fields, after.artifacts.getLast? =
        some (setting.artifact struct.name (.structure struct.name struct.isUnion fields)) ∧
      fields.map (·.name) = Identifier.identifiers "field" (struct.fields.map (·.name)) ∧
      ((∀ m ∈ struct.fields, IsPlain m.name) →
        (fields.flatMap (Declaration.field struct.isUnion)).filterMap Code.declared? =
          fields.flatMap Declaration.memberNames) ∧
      ((fields.flatMap Declaration.memberNames).Nodup ↔
        ((struct.fields.map (·.name)).filter (· ≠ "")).Nodup ∧
          ¬ Identifier.Clashes "field" (struct.fields.map (·.name)) ∧
          ¬ ∃ m ∈ fields, (Declaration.nested? m).isSome ∧
            Declaration.bufferName m.name ∈ struct.fields.map (·.name)) := by
  rw [emitDeclaration_replay (faithful_emit setting)] at gives
  obtain ⟨made, middle, replayed, written⟩ := gives_bind.mp gives
  have yields : Yields (plan setting name (.struct struct)) made _ := ⟨result_of_replay replayed, rfl⟩
  obtain ⟨fields, _, _, resolved, done, -⟩ := yields_bind.mp yields
  obtain ⟨rfl, -⟩ := yields_pure.mp done
  obtain ⟨-, -, rfl⟩ := gives_write.mp written
  have names : fields.map (·.name) = Identifier.identifiers "field" (struct.fields.map (·.name)) :=
    names_resolveMembersWith resolved
  refine ⟨fields, List.getLast?_concat, names, ?_, ?_⟩
  · intro plain
    refine Declaration.declared_body fun m member => ?_
    have named : m.name ∈ Identifier.identifiers "field" (struct.fields.map (·.name)) :=
      names ▸ List.mem_map_of_mem member
    obtain ⟨index, within, same⟩ := List.mem_mapIdx.mp named
    rw [← same]
    exact isPlain_positional (List.forall_mem_map.mpr plain _ (List.getElem_mem within)) index
  · rw [Declaration.nodup_memberNames_iff, names, Identifier.nodup_identifiers_iff, and_assoc]
    simp only [mem_identifiers_bufferName]

def palette (pointers number : String) : Struct where
  name := "Palette"
  isUnion := false
  incomplete := false
  fields := [⟨pointers, .array (.pointer (.builtin .int)) (some 2)⟩, ⟨number, .builtin .int⟩]

theorem nodup_members_iff_palette : ∃ fields after,
    Gives (emitDeclaration (settingOf ⟨[]⟩ []) (emit (settingOf ⟨[]⟩ [])) "Palette"
      (.struct (palette "colors" "size"))) .start ⟨⟩ after ∧
    after.artifacts.getLast? = some ((settingOf ⟨[]⟩ []).artifact "Palette" (.structure "Palette" false fields)) ∧
    (fields.flatMap (Declaration.field false)).filterMap Code.declared? = ["colors_Buffer", "colors", "size"] ∧
    (fields.flatMap Declaration.memberNames).Nodup := by
  have gives : Gives (emitDeclaration (settingOf ⟨[]⟩ []) (emit (settingOf ⟨[]⟩ [])) "Palette"
      (.struct (palette "colors" "size"))) .start ⟨⟩ _ := rfl
  obtain ⟨fields, written, -, declared, distinct⟩ := nodup_members_iff gives
  have made : Declaration.structure "Palette" false
      [⟨"colors", .array (.pointer (.primitive "int")) (some 2)⟩, ⟨"size", .primitive "int"⟩] =
      .structure "Palette" false fields := congrArg Artifact.declaration (Option.some.inj written)
  cases made
  exact ⟨_, _, gives, written, declared (by decide), distinct.mpr ⟨by decide, by decide +kernel, by decide⟩⟩

/-- A number may be called as the structure of the pointers. -/
theorem not_always_nodup_members : ¬ ∀ (setting : Setting) (name : String) (struct : Struct)
    (before after : Progress) (fields : List TargetMember),
    Gives (emitDeclaration setting (emit setting) name (.struct struct)) before ⟨⟩ after →
    after.artifacts.getLast? =
      some (setting.artifact struct.name (.structure struct.name struct.isUnion fields)) →
    ((struct.fields.map (·.name)).filter (· ≠ "")).Nodup → (fields.flatMap Declaration.memberNames).Nodup := by
  intro always
  have distinct := always (settingOf ⟨[]⟩ []) "Palette" (palette "colors" "colors_Buffer") .start _ _ rfl rfl (by decide)
  revert distinct
  decide +kernel

end Interop.Session
