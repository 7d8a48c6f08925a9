import Mathlib.Data.List.Nodup
import Interop.Generation.Basic
import Interop.Proofs.Comparison
import Interop.Proofs.Context.Naming
import Interop.Proofs.Declaration

/-! Contexts of two runs that differ in what no declaration refers to. One of them may hold some
structures more, under hidden names, and other members in its structures; whatever indexing and
naming do to both of them keeps it so. -/
namespace Interop

def Separates (change : Member → Member) (structs : List Struct) : Prop :=
  ∀ first ∈ structs, ∀ second ∈ structs, first.name = second.name →
    first.mapMembers change = second.mapMembers change → first = second

theorem separates_of_nodup (change : Member → Member) {structs : List Struct}
    (distinct : (structs.map (·.name)).Nodup) : Separates change structs :=
  fun _ member _ member' same _ => List.inj_on_of_nodup_map distinct member member' same

namespace Context

open Work

/-- Two contexts hold the same, except that the second one has other members in its structures and
some structures more, under hidden names. -/
structure Alike (change : Member → Member) (hidden : List String) (context other : Context) : Prop where
  tags : ∀ name, name ∉ hidden → other.tag? name = (context.tag? name).map (·.mapMembers change)
  unknown : ∀ name ∈ hidden, context.tag? name = none
  structs : ∀ name ∈ hidden, other.enumeration? name = none
  typedefs : other.typedefs = context.typedefs
  anonymous : other.anonymous = context.anonymous
  named : ∀ position name, context.anonymousName? position = some name → name ∉ hidden
  names : other.knownNames.filter (· ∉ hidden) = context.knownNames

section

variable {change : Member → Member} {hidden : List String} {context other : Context} {name : String}

theorem Alike.isKnown (alike : Alike change hidden context other) (visible : name ∉ hidden) :
    other.isKnown name = context.isKnown name := by
  rw [Context.isKnown, alike.tags name visible, Option.isSome_map, Context.isKnown]

theorem Alike.anonymousName? (alike : Alike change hidden context other) (position : Nat) :
    other.anonymousName? position = context.anonymousName? position := by
  rw [Context.anonymousName?, alike.anonymous, Context.anonymousName?]

theorem Alike.typedef? (alike : Alike change hidden context other) (name : String) :
    other.typedef? name = context.typedef? name := by
  rw [Context.typedef?, alike.typedefs, Context.typedef?]

/-- Hidden names stand for no enumeration at all. -/
theorem Alike.enumeration? (alike : Alike change hidden context other) (name : String) :
    other.enumeration? name = context.enumeration? name := by
  by_cases visible : name ∈ hidden
  · rw [alike.structs name visible, (tag?_eq_none_iff.mp (alike.unknown name visible)).2]
  · rw [Context.enumeration?, alike.tags name visible, Context.enumeration?]
    rcases context.tag? name with _ | ⟨declaration | declaration⟩ <;> rfl

theorem Alike.append (alike : Alike change hidden context other) (visible : name ∉ hidden)
    (fresh : context.tag? name = none) (declaration : TagDeclaration) :
    Alike change hidden (context.append name declaration)
      (other.append name (declaration.mapMembers change)) := by
  have fresh' : other.tag? name = none := by rw [alike.tags name visible, fresh, Option.map_none]
  have different {hiddenName : String} (member : hiddenName ∈ hidden) : hiddenName ≠ name :=
    fun same => visible (same ▸ member)
  exact {
    tags := fun name' visible' => by
      rw [tag?_append fresh, tag?_append fresh', alike.tags name' visible']
      split <;> rfl
    unknown := fun name' member => by
      rw [tag?_append fresh, if_neg (different member), alike.unknown name' member]
    structs := fun name' member => by
      rw [enumeration?_congr ((tag?_append fresh' name').trans (if_neg (different member))),
        alike.structs name' member]
    typedefs := alike.typedefs
    anonymous := alike.anonymous
    named := alike.named
    names := by
      rw [knownNames_append, knownNames_append, List.filter_append, alike.names]
      simp [visible] }

theorem Alike.replace (alike : Alike change hidden context other) (visible : name ∉ hidden)
    (declaration : TagDeclaration) :
    Alike change hidden (context.replace name declaration)
      (other.replace name (declaration.mapMembers change)) := by
  have different {hiddenName : String} (member : hiddenName ∈ hidden) : hiddenName ≠ name :=
    fun same => visible (same ▸ member)
  exact {
    tags := fun name' visible' => by
      rw [tag?_replace, tag?_replace, alike.tags name' visible', alike.tags name visible]
      split
      · cases context.tag? name <;> rfl
      · rfl
    unknown := fun name' member => by
      rw [tag?_replace, if_neg (different member), alike.unknown name' member]
    structs := fun name' member => by
      rw [enumeration?_congr ((tag?_replace name').trans (if_neg (different member))),
        alike.structs name' member]
    typedefs := alike.typedefs
    anonymous := alike.anonymous
    named := alike.named
    names := by rw [knownNames_replace, knownNames_replace, alike.names] }

theorem Alike.nameAnonymous (alike : Alike change hidden context other) (visible : name ∉ hidden)
    (position : Nat) :
    Alike change hidden (context.nameAnonymous position name) (other.nameAnonymous position name) where
  tags := alike.tags
  unknown := alike.unknown
  structs := alike.structs
  typedefs := alike.typedefs
  anonymous := by rw [Context.nameAnonymous, alike.anonymous, Context.nameAnonymous]
  named position' name' got := by
    rw [anonymousName?_nameAnonymous] at got
    split at got
    · obtain ⟨entry, -, rfl⟩ := Option.map_eq_some_iff.mp got
      exact visible
    · exact alike.named position' name' got
  names := alike.names

/-- The names of the other context are the same ones and the hidden ones. -/
theorem Alike.orphans_eq (alike : Alike change [] context other) (registered : List String) :
    other.orphans registered = context.orphans registered := by
  have names : other.knownNames = context.knownNames := by simpa using alike.names
  rw [orphans, orphans, names, alike.anonymous]

/-- One hidden name that no session registers is one orphan more. -/
theorem Alike.orphans_insert (alike : Alike change [name] context other) (listed : name ∈ other.knownNames)
    (distinct : other.knownNames.Nodup) {registered : List String} (unregistered : name ∉ registered) :
    ∃ first second, context.orphans registered = first ++ second ∧
      other.orphans registered = first ++ name :: second := by
  obtain ⟨early, late, split⟩ := List.append_of_mem listed
  have kept {names : List String} (absent : name ∉ names) : names.filter (· ∉ [name]) = names := by
    refine List.filter_eq_self.mpr fun other member => ?_
    have different : other ≠ name := fun same => absent (same ▸ member)
    simpa using different
  have rest : context.knownNames = early ++ late := by
    obtain ⟨-, after, apart⟩ := List.nodup_append.mp (split ▸ distinct)
    rw [← alike.names, split, List.filter_append, List.filter_cons, kept (List.nodup_cons.mp after).1,
      kept fun member => apart name member name List.mem_cons_self rfl]
    simp
  rw [orphans, orphans, split, rest, alike.anonymous]
  generalize context.anonymous.zipIdx.filterMap _ = unnamed
  refine ⟨early.filter fun name => !registered.contains name,
    (late.filter fun name => !registered.contains name) ++ unnamed, ?_, ?_⟩
  · rw [List.filter_append, List.append_assoc]
  · simp [List.filter_append, unregistered]

/-- A context is like itself with a structure of a new name. -/
theorem alike_append {struct : Struct} (fresh : context.tag? struct.name = none)
    (named : ∀ position name, context.anonymousName? position = some name → name ≠ struct.name) :
    Alike id [struct.name] context (context.append struct.name (.struct struct)) where
  tags name visible := by
    rw [tag?_append fresh, if_neg (by simpa using visible)]
    rcases context.tag? name with _ | ⟨declaration | declaration⟩ <;> simp [TagDeclaration.mapMembers]
  unknown name member := by
    obtain rfl := List.mem_singleton.mp member
    exact fresh
  structs name member := by
    obtain rfl := List.mem_singleton.mp member
    rw [Context.enumeration?, tag?_append fresh, if_pos rfl]
  typedefs := rfl
  anonymous := rfl
  named position name got := by simpa using named position name got
  names := by
    have visible (name : String) (member : name ∈ context.knownNames) : name ≠ struct.name := by
      rintro rfl
      exact not_mem_knownNames fresh member
    rw [knownNames_append, List.filter_append, List.filter_eq_self.mpr (by simpa using visible)]
    simp

theorem alike_empty (change : Member → Member) : Alike change [] empty empty where
  tags _ _ := rfl
  unknown _ member := absurd member List.not_mem_nil
  structs _ member := absurd member List.not_mem_nil
  typedefs := rfl
  anonymous := rfl
  named _ _ _ := List.not_mem_nil
  names := rfl

theorem matches_addStruct (alike : Alike change hidden context other) {struct : Struct}
    (visible : struct.name ∉ hidden)
    (separate : ∀ existing, context.struct? struct.name = some existing →
      existing.mapMembers change = struct.mapMembers change → existing = struct) :
    Matches (Alike change hidden) (addStruct context struct) (addStruct other (struct.mapMembers change)) := by
  rw [addStruct, addStruct, Struct.name_mapMembers, alike.tags struct.name visible]
  cases held : context.tag? struct.name with
  | none => exact .ok (alike.append visible held (.struct struct))
  | some declaration =>
    cases declaration with
    | enumeration => exact .error _
    | struct existing =>
      simp only [Option.map_some, TagDeclaration.mapMembers, Struct.incomplete_mapMembers]
      by_cases forward : struct.incomplete
      · simp only [forward, if_true]
        exact .ok alike
      by_cases former : existing.incomplete
      · simp only [forward, former, if_true]
        exact .ok (alike.replace visible (.struct struct))
      simp only [forward, former]
      by_cases same : existing = struct
      · rw [if_pos same, if_pos (congrArg _ same)]
        exact .ok alike
      · rw [if_neg same, if_neg fun equal => same (separate existing (struct?_eq_some_iff.mpr held) equal)]
        exact .error _

theorem matches_addEnumeration (alike : Alike change hidden context other) {enumeration : Enumeration}
    (visible : ∀ name, enumeration.declaredName? = some name → name ∉ hidden) :
    Matches (Alike change hidden) (addEnumeration context enumeration) (addEnumeration other enumeration) := by
  rw [addEnumeration, addEnumeration]
  cases own : enumeration.declaredName? with
  | none =>
    refine .ok ⟨alike.tags, alike.unknown, alike.structs, alike.typedefs, ?_, ?_, alike.names⟩
    · rw [alike.anonymous]
    · intro position name got
      rw [anonymousName?, List.getElem?_append] at got
      split at got
      · exact alike.named position name got
      · cases added : [(⟨enumeration, none⟩ : AnonymousEnum)][position - context.anonymous.length]? with
        | none => simp [added] at got
        | some entry =>
          obtain rfl := List.mem_singleton.mp (List.mem_of_getElem? added)
          simp [added] at got
  | some name =>
    have visible := visible name own
    simp only [alike.tags name visible]
    cases held : context.tag? name with
    | none => exact .ok (alike.append visible held (.enumeration enumeration))
    | some existing =>
      have same : existing.mapMembers change = .enumeration enumeration ↔ existing = .enumeration enumeration := by
        cases existing <;> simp [TagDeclaration.mapMembers]
      simp only [Option.map_some, same]
      split
      · exact .ok alike
      · exact .error _

theorem matches_addTypedef (alike : Alike change hidden context other) (typedef : Typedef) :
    Matches (Alike change hidden) (addTypedef context typedef) (addTypedef other typedef) := by
  rw [addTypedef, addTypedef, alike.typedef?, alike.typedefs]
  split
  · exact .ok ⟨alike.tags, alike.unknown, alike.structs, rfl, alike.anonymous, alike.named, alike.names⟩
  · split
    · exact .ok alike
    · exact .error _

theorem matches_addEntry (alike : Alike change hidden context other) {entry : Entry}
    (visible : ∀ name, entry.tagName? = some name → name ∉ hidden)
    (separate : ∀ struct, entry = .struct struct → ∀ existing, context.struct? struct.name = some existing →
      existing.mapMembers change = struct.mapMembers change → existing = struct) :
    Matches (Alike change hidden) (addEntry context entry) (addEntry other (entry.mapMembers change)) := by
  cases entry with
  | struct struct => exact matches_addStruct alike (visible _ rfl) (separate struct rfl)
  | enumeration enumeration => exact matches_addEnumeration alike visible
  | typedef typedef => exact matches_addTypedef alike typedef

/-- Adding the same declarations keeps contexts alike. -/
theorem matches_foldlM {seen entries : List Entry} (alike : Alike change hidden context other)
    (describes : Describes context seen)
    (visible : ∀ entry ∈ entries, ∀ name, entry.tagName? = some name → name ∉ hidden)
    (separates : Separates change ((seen ++ entries).filterMap Entry.struct?)) :
    Matches (Alike change hidden) (entries.foldlM addEntry context)
      ((entries.map (·.mapMembers change)).foldlM addEntry other) := by
  induction entries generalizing context other seen with
  | nil => exact .ok alike
  | cons entry entries ih =>
    have first := matches_addEntry alike (visible entry List.mem_cons_self) fun struct own existing found => by
      rw [describes.structs] at found
      obtain ⟨listed, name⟩ := mem_of_structNamed? found
      refine separates existing ?_ struct ?_ name
      · rw [List.filterMap_append]
        exact List.mem_append_left _ listed
      · simp [own]
    rw [List.map_cons, List.foldlM_cons, List.foldlM_cons]
    generalize addEntry other (entry.mapMembers change) = result' at first ⊢
    cases added : addEntry context entry with
    | error error =>
      rw [added] at first
      cases first
      exact .error error
    | ok middle =>
      rw [added] at first
      cases first with
      | ok held =>
        obtain ⟨_, same, describes'⟩ := describes.addEntry (describes.agrees added)
        obtain rfl := Except.ok.inj (added.symm.trans same)
        refine ih held describes' (fun other later => visible other (List.mem_cons_of_mem _ later)) ?_
        rwa [List.append_assoc]

theorem matches_insertEnumeration (alike : Alike change hidden context other) {enumeration : Enumeration}
    (visible : ∀ name, enumeration.declaredName? = some name → name ∉ hidden) :
    Matches (Alike change hidden) (insertEnumeration context enumeration)
      (insertEnumeration other enumeration) := by
  rw [insertEnumeration, insertEnumeration]
  cases own : enumeration.declaredName? with
  | none => exact .ok alike
  | some name =>
    have visible := visible name own
    simp only [alike.isKnown visible]
    split
    · exact .error _
    · next fresh =>
      have fresh : context.tag? name = none := by simpa [isKnown] using fresh
      exact .ok (alike.append visible fresh (.enumeration enumeration))

theorem visible_of_declaredName? (visible : name ∉ hidden) (underlying : Primitive) (items : List EnumItem)
    (own : String) (declared : Enumeration.declaredName? ⟨some name, underlying, items⟩ = some own) :
    own ∉ hidden := by
  obtain ⟨same, -⟩ := Option.filter_eq_some_iff.mp declared
  exact Option.some.inj same ▸ visible

theorem parallel_unifyAt {openings made : List String} (visible : ∀ opening ∈ openings, opening ∉ hidden)
    (position : Nat) (enumeration : Enumeration) :
    Parallel (Alike change hidden) (unifyAt openings made position enumeration)
      (unifyAt openings made position enumeration) := by
  intro context other alike
  rw [unifyAt, outcome_bind, outcome_bind, outcome_get, outcome_get]
  simp only
  cases unified : enumeration.unifiedName? openings with
  | none => exact ⟨rfl, alike⟩
  | some name =>
    obtain ⟨first, -, longest⟩ := Option.bind_eq_some_iff.mp unified
    have visible := visible name (mem_of_longestOpening longest)
    simp only [alike.enumeration? name]
    split
    · split
      · exact ⟨rfl, alike⟩
      · next target _ =>
        rcases mergeItems target.items enumeration.items with ⟨items, collision⟩
        have merged := alike.replace visible (.enumeration { target with items })
        cases collision with
        | some memberName => exact ⟨rfl, merged⟩
        | none => exact ⟨rfl, merged.nameAnonymous visible position⟩
    · split
      · exact ⟨rfl, alike⟩
      · next items _ =>
        have inserted := matches_insertEnumeration alike
          (visible_of_declaredName? visible enumeration.underlying items)
        revert inserted
        generalize context.insertEnumeration _ = result
        generalize other.insertEnumeration _ = result'
        rintro (held | error)
        · exact ⟨rfl, held.nameAnonymous visible position⟩
        · exact ⟨rfl, alike⟩

/-- Typedefs lead to the same enumerations. -/
theorem Alike.aliasSource (alike : Alike change hidden context other) (bound : Nat) (type : CType) :
    other.aliasSource bound type = context.aliasSource bound type := by
  fun_induction Context.aliasSource context bound type with
  | case1 bound name => rw [Context.aliasSource, alike.enumeration?]
  | case2 bound index => rw [Context.aliasSource, alike.anonymous]
  | case3 bound name ih =>
    rw [Context.aliasSource, alike.typedef?]
    exact Option.bind_congr fun typedef _ => ih typedef
  | case4 => simp_all [Context.aliasSource]

theorem Alike.aliased? (alike : Alike change hidden context other) (name : String) :
    other.aliased? name = context.aliased? name := by
  simp only [Context.aliased?, alike.typedef?, alike.typedefs, alike.aliasSource]

theorem Alike.nameIfUnnamed (alike : Alike change hidden context other) (visible : name ∉ hidden)
    (position : Nat) :
    Alike change hidden (context.nameIfUnnamed position name) (other.nameIfUnnamed position name) := by
  rw [Context.nameIfUnnamed, Context.nameIfUnnamed, alike.anonymousName?]
  split
  · exact alike.nameAnonymous visible position
  · exact alike

theorem parallel_aliasTypedef {strategy : TypedefStrategy} (visible : name ∉ hidden) :
    Parallel (Alike change hidden) (aliasTypedef name strategy) (aliasTypedef name strategy) := by
  intro context other alike
  rw [aliasTypedef, outcome_bind, outcome_bind, outcome_get, outcome_get]
  simp only [alike.enumeration?, alike.aliased?]
  split
  · split
    · exact ⟨rfl, alike⟩
    · next source index _ =>
      have inserted := matches_insertEnumeration alike
        (visible_of_declaredName? visible source.underlying source.items)
      revert inserted
      generalize context.insertEnumeration _ = result
      generalize other.insertEnumeration _ = result'
      rintro (held | error)
      · cases index with
        | none => exact ⟨rfl, held⟩
        | some position => exact ⟨rfl, held.nameIfUnnamed visible position⟩
      · exact ⟨rfl, alike⟩
  · exact ⟨rfl, alike⟩

theorem parallel_unify {openings : List String} (visible : ∀ opening ∈ openings, opening ∉ hidden) :
    Parallel (Alike change hidden) (unify openings) (unify openings) := by
  intro context other alike
  rw [unify, outcome_bind, outcome_bind, outcome_get, outcome_get]
  simp only [alike.anonymous]
  refine (Parallel.foldlM (fun made entry _ => ?_) []).bind (fun _ => Parallel.pure _) context other alike
  exact parallel_unifyAt visible entry.2 entry.1.declaration

theorem parallel_aliasAll {strategies : Table TypedefStrategy} (visible : ∀ entry ∈ strategies, entry.1 ∉ hidden) :
    Parallel (Alike change hidden) (aliasAll strategies) (aliasAll strategies) := by
  unfold aliasAll
  exact Parallel.forM fun entry member => parallel_aliasTypedef (visible entry member)

theorem parallel_naming {configuration : Configuration}
    (openings : ∀ opening ∈ configuration.anonymousEnumPrefixes, opening ∉ hidden)
    (strategies : ∀ entry ∈ configuration.typedefStrategies, entry.1 ∉ hidden) :
    Parallel (Alike change hidden) (naming configuration) (naming configuration) :=
  (parallel_unify openings).bind fun _ => parallel_aliasAll strategies

/-- Graphs whose contexts are alike once they are indexed have contexts that are alike. -/
theorem matches_prepareContext {configuration : Configuration} {graph graph' : Graph}
    (indexed : Matches (Alike change hidden) (index graph) (index graph'))
    (openings : ∀ opening ∈ configuration.anonymousEnumPrefixes, opening ∉ hidden)
    (strategies : ∀ entry ∈ configuration.typedefStrategies, entry.1 ∉ hidden) :
    Matches (Alike change hidden) (Generation.prepareContext configuration graph)
      (Generation.prepareContext configuration graph') := by
  rw [prepareContext_eq, prepareContext_eq]
  revert indexed
  generalize index graph = result
  generalize index graph' = result'
  rintro (@⟨context, other, alike⟩ | error)
  · have named := parallel_naming openings strategies context other alike
    simp only [Except.bind]
    rw [named.1]
    cases (outcome (naming configuration) context).1 with
    | error error => exact .error error
    | ok => exact .ok named.2
  · exact .error error

end

section

variable {change : Member → Member} {graph graph' : Graph}

/-- Changed members make no difference to indexing. -/
theorem matches_index_mapMembers (separates : Separates change graph.structs) :
    Matches (Alike change []) (index graph) (index (graph.mapMembers change)) := by
  rw [index_eq, index_eq, Graph.entries_mapMembers]
  refine matches_foldlM (alike_empty change) describes_empty (fun _ _ _ _ => List.not_mem_nil) ?_
  rwa [List.nil_append, Graph.structs_entries]

/-- Nor does one structure more that nothing else is named like. -/
theorem matches_index_insert {early late : List Entry} {struct : Struct}
    (entries : graph.entries = early ++ late) (entries' : graph'.entries = early ++ .struct struct :: late)
    (undeclared : struct.name ∉ graph.tagNames) :
    Matches (Alike id [struct.name]) (index graph) (index graph') := by
  have other (entry : Entry) (member : entry ∈ early ++ late) : entry.tagName? ≠ some struct.name := by
    rw [Graph.tagNames_eq, entries, List.mem_filterMap] at undeclared
    exact fun own => undeclared ⟨entry, member, own⟩
  rw [index_eq, index_eq, entries, entries', List.foldlM_append, List.foldlM_append]
  cases first : early.foldlM addEntry empty with
  | error error => exact .error error
  | ok middle =>
    have describes : Describes middle early := describes_empty.foldlM first
    have fresh : middle.tag? struct.name = none := by
      rw [tag?_eq_none_iff, describes.structs, structNamed?_eq_none, describes.enums, enumerationNamed?,
        List.find?_eq_none]
      constructor
      · intro declared member own
        exact other (.struct declared) (List.mem_append_left _ (by simpa using member)) (congrArg some own)
      · intro declared member own
        exact other (.enumeration declared) (List.mem_append_left _ (by simpa using member))
          (by simpa [Entry.tagName?] using own)
    have added : addEntry middle (.struct struct) = .ok (middle.append struct.name (.struct struct)) := by
      rw [addEntry, addStruct, fresh]
    have unnamed (position : Nat) : middle.anonymousName? position = none := by
      rw [anonymousName?, describes.anonymous, List.getElem?_map]
      cases ((early.filterMap Entry.enumeration?).filter (·.declaredName?.isNone))[position]? <;> rfl
    have alike := alike_append fresh fun position name got => by simp [unnamed] at got
    have visible (entry : Entry) (member : entry ∈ late) (name : String) (own : entry.tagName? = some name) :
        name ∉ [struct.name] := by
      rw [List.mem_singleton]
      rintro rfl
      exact other entry (List.mem_append_right _ member) own
    have rest := matches_foldlM alike describes visible fun _ _ _ _ _ same => by simpa using same
    change Matches _ (late.foldlM addEntry middle) ((.struct struct :: late).foldlM addEntry middle)
    simp only [Entry.mapMembers_id, List.map_id'] at rest
    rw [List.foldlM_cons, added]
    exact rest

end

end Context

end Interop
