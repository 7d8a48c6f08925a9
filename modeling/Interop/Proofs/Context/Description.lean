import Interop.Proofs.Context.Entry

/-! What a context holds while a graph is indexed. A declaration is added exactly if it agrees with
all that were added before it, and the context then describes one declaration more. -/
namespace Interop.Context

/-- A context holds what has been indexed so far, without a contradiction. -/
structure Describes (context : Context) (seen : List Entry) : Prop where
  agree : ∀ first ∈ seen, ∀ second ∈ seen, first.Agrees second
  structs : ∀ name, context.struct? name = structNamed? (seen.filterMap Entry.struct?) name
  enums : ∀ name,
    context.enumeration? name = enumerationNamed? (seen.filterMap Entry.enumeration?) name
  typedefs : ∀ name, context.typedef? name = typedefNamed? (seen.filterMap Entry.typedef?) name
  anonymous : context.anonymous =
    ((seen.filterMap Entry.enumeration?).filter (·.declaredName?.isNone)).map (⟨·, none⟩)

section

variable {context after : Context} {seen : List Entry} {struct : Struct} {name : String}

theorem Describes.agree_append (describes : Describes context seen) {entry : Entry}
    (agree : ∀ other ∈ seen, other.Agrees entry) :
    ∀ first ∈ seen ++ [entry], ∀ second ∈ seen ++ [entry], first.Agrees second := by
  simp only [List.mem_append, List.mem_singleton]
  rintro first (early | rfl) second (late | rfl)
  · exact describes.agree first early second late
  · exact agree first early
  · exact (agree second late).symm
  · exact Entry.Agrees.refl _

theorem Describes.enumeration?_eq_none (describes : Describes context seen)
    (agree : ∀ other ∈ seen, other.Agrees (.struct struct)) : context.enumeration? struct.name = none := by
  rw [describes.enums, enumerationNamed?, List.find?_eq_none]
  intro enumeration member
  have entry : .enumeration enumeration ∈ seen := by simpa using member
  simpa [Entry.Agrees] using agree _ entry

/-- A structure is described once its name stands for what it should and all else stays. -/
theorem Describes.withStruct (describes : Describes context seen)
    (agree : ∀ other ∈ seen, other.Agrees (.struct struct)) {chosen : Struct}
    (named : structNamed? (seen.filterMap Entry.struct? ++ [struct]) struct.name = some chosen)
    (own : after.tag? struct.name = some (.struct chosen))
    (others : ∀ name ≠ struct.name, after.tag? name = context.tag? name)
    (typedefs : after.typedefs = context.typedefs) (anonymous : after.anonymous = context.anonymous) :
    Describes after (seen ++ [.struct struct]) where
  agree := describes.agree_append agree
  structs name := by
    rw [List.filterMap_append]
    by_cases same : name = struct.name
    · rw [same, struct?_eq_some_iff.mpr own]
      exact named.symm
    · rw [struct?_congr (others name same), describes.structs]
      exact (structNamed?_append_other (Ne.symm same)).symm
  enums name := by
    have unchanged : after.enumeration? name = context.enumeration? name := by
      by_cases same : name = struct.name
      · rw [same, describes.enumeration?_eq_none agree, enumeration?, own]
      · exact enumeration?_congr (others name same)
    rw [unchanged, describes.enums]
    simp [Entry.enumeration?, List.filterMap_cons]
  typedefs name := by
    have unchanged : after.typedef? name = context.typedef? name := by rw [typedef?, typedefs, typedef?]
    rw [unchanged, describes.typedefs]
    simp [Entry.typedef?, List.filterMap_cons]
  anonymous := by
    rw [anonymous, describes.anonymous]
    simp [Entry.enumeration?, List.filterMap_cons]

theorem Describes.addStruct (describes : Describes context seen)
    (agree : ∀ other ∈ seen, other.Agrees (.struct struct)) :
    ∃ after, context.addStruct struct = .ok after ∧ Describes after (seen ++ [.struct struct]) := by
  have own := describes.structs struct.name
  have free := describes.enumeration?_eq_none agree
  rw [Context.addStruct]
  cases tag : context.tag? struct.name with
  | none =>
    rw [(tag?_eq_none_iff.mp tag).1] at own
    refine ⟨_, rfl, describes.withStruct agree (structNamed?_append_new own.symm rfl) ?_ ?_ rfl rfl⟩
    · rw [tag?_append tag, if_pos rfl]
    · exact fun name other => by rw [tag?_append tag, if_neg other]
  | some declaration =>
    cases declaration with
    | enumeration enumeration => simp [enumeration?_eq_some_iff.mpr tag] at free
    | struct existing =>
      rw [struct?_eq_some_iff.mpr tag] at own
      simp only
      by_cases forward : struct.incomplete
      · have stays := structNamed?_append_forward own.symm forward
        exact ⟨context, if_pos forward, describes.withStruct agree stays tag (fun _ _ => rfl) rfl rfl⟩
      by_cases former : existing.incomplete
      · rw [if_neg forward, if_pos former]
        refine ⟨_, rfl, describes.withStruct agree
          (structNamed?_append_definition own.symm former rfl forward) ?_ ?_ rfl rfl⟩
        · rw [tag?_replace, if_pos rfl, tag, Option.map_some]
        · exact fun name other => by rw [tag?_replace, if_neg other]
      · obtain ⟨member, name⟩ := mem_of_structNamed? own.symm
        have entry : .struct existing ∈ seen := by simpa using member
        have same : existing = struct := agree _ entry name former forward
        rw [if_neg forward, if_neg former, if_pos same]
        exact ⟨context, rfl, describes.withStruct agree (structNamed?_append_defined own.symm former) tag
          (fun _ _ => rfl) rfl rfl⟩

/-- An enumeration is described once its name, if it has one, stands for it and all else stays. -/
theorem Describes.withEnumeration (describes : Describes context seen) {enumeration : Enumeration}
    (agree : ∀ other ∈ seen, other.Agrees (.enumeration enumeration))
    (tags : ∀ name, after.tag? name =
      if enumeration.declaredName? = some name then some (.enumeration enumeration) else context.tag? name)
    (typedefs : after.typedefs = context.typedefs)
    (anonymous : after.anonymous =
      context.anonymous ++ ([enumeration].filter (·.declaredName?.isNone)).map (⟨·, none⟩)) :
    Describes after (seen ++ [.enumeration enumeration]) where
  agree := describes.agree_append agree
  structs name := by
    have unchanged : after.struct? name = context.struct? name := by
      by_cases own : enumeration.declaredName? = some name
      · have free : context.struct? name = none := by
          rw [describes.structs, structNamed?_eq_none]
          intro struct member same
          have entry : .struct struct ∈ seen := by simpa using member
          exact agree _ entry (same ▸ own)
        rw [free, Context.struct?, tags, if_pos own]
      · exact struct?_congr ((tags name).trans (if_neg own))
    rw [unchanged, describes.structs]
    simp [Entry.struct?, List.filterMap_cons]
  enums name := by
    simp only [List.filterMap_append, List.filterMap_cons, Entry.enumeration?, List.filterMap_nil,
      enumerationNamed?, List.find?_append]
    by_cases own : enumeration.declaredName? = some name
    · rw [enumeration?_eq_some_iff.mpr ((tags name).trans (if_pos own))]
      cases found : (seen.filterMap Entry.enumeration?).find? (·.declaredName? = some name) with
      | none => simp [own]
      | some former =>
        have entry : .enumeration former ∈ seen := by simpa using List.mem_of_find?_eq_some found
        have same := agree _ entry name (by simpa using List.find?_some found) own
        simp [same]
    · rw [enumeration?_congr ((tags name).trans (if_neg own)), describes.enums, enumerationNamed?]
      simp [own]
  typedefs name := by
    have unchanged : after.typedef? name = context.typedef? name := by rw [typedef?, typedefs, typedef?]
    rw [unchanged, describes.typedefs]
    simp [Entry.typedef?, List.filterMap_cons]
  anonymous := by
    rw [anonymous, describes.anonymous]
    simp [Entry.enumeration?]

theorem Describes.addEnumeration (describes : Describes context seen) {enumeration : Enumeration}
    (agree : ∀ other ∈ seen, other.Agrees (.enumeration enumeration)) :
    ∃ after, context.addEnumeration enumeration = .ok after ∧
      Describes after (seen ++ [.enumeration enumeration]) := by
  rw [Context.addEnumeration]
  cases own : enumeration.declaredName? with
  | none => exact ⟨_, rfl, describes.withEnumeration agree (fun name => by simp [own, tag?]) rfl (by simp [own])⟩
  | some name =>
    simp only
    cases tag : context.tag? name with
    | none =>
      refine ⟨_, rfl, describes.withEnumeration agree (fun other => ?_) rfl (by simp [own, append])⟩
      rw [tag?_append tag, own]
      simp [eq_comm]
    | some existing =>
      have same : existing = .enumeration enumeration := by
        cases existing with
        | struct struct =>
          have found := describes.structs name
          rw [struct?_eq_some_iff.mpr tag] at found
          obtain ⟨member, rfl⟩ := mem_of_structNamed? found.symm
          have entry : .struct struct ∈ seen := by simpa using member
          exact absurd own (agree _ entry)
        | enumeration existing =>
          have found := describes.enums name
          rw [enumeration?_eq_some_iff.mpr tag] at found
          have entry : .enumeration existing ∈ seen := by
            simpa using List.mem_of_find?_eq_some found.symm
          rw [agree _ entry name (by simpa using List.find?_some found.symm) own]
      refine ⟨context, if_pos same, describes.withEnumeration agree (fun other => ?_) rfl (by simp [own])⟩
      by_cases reached : name = other
      · rw [← reached, own, if_pos rfl, tag, same]
      · rw [own, if_neg (by simpa using reached)]

/-- A typedef is described once its name stands for it and all else stays. -/
theorem Describes.withTypedef (describes : Describes context seen) {typedef : Typedef}
    (agree : ∀ other ∈ seen, other.Agrees (.typedef typedef)) (tags : after.tags = context.tags)
    (own : after.typedef? typedef.name = some typedef)
    (others : ∀ name ≠ typedef.name, after.typedef? name = context.typedef? name)
    (anonymous : after.anonymous = context.anonymous) : Describes after (seen ++ [.typedef typedef]) where
  agree := describes.agree_append agree
  structs name := by
    rw [struct?_congr (congrArg (List.lookup name) tags), describes.structs]
    simp [Entry.struct?, List.filterMap_cons]
  enums name := by
    rw [enumeration?_congr (congrArg (List.lookup name) tags), describes.enums]
    simp [Entry.enumeration?, List.filterMap_cons]
  typedefs name := by
    simp only [List.filterMap_append, List.filterMap_cons, Entry.typedef?, List.filterMap_nil,
      typedefNamed?, List.find?_append]
    by_cases same : name = typedef.name
    · subst same
      rw [own]
      cases found : (seen.filterMap Entry.typedef?).find? (·.name = typedef.name) with
      | none => simp
      | some former =>
        have entry : .typedef former ∈ seen := by simpa using List.mem_of_find?_eq_some found
        have equal : former = typedef := agree _ entry (by simpa using List.find?_some found)
        simp [equal]
    · rw [others name same, describes.typedefs, typedefNamed?]
      simp [Ne.symm same]
  anonymous := by
    rw [anonymous, describes.anonymous]
    simp [Entry.enumeration?, List.filterMap_cons]

theorem Describes.addTypedef (describes : Describes context seen) {typedef : Typedef}
    (agree : ∀ other ∈ seen, other.Agrees (.typedef typedef)) :
    ∃ after, context.addTypedef typedef = .ok after ∧ Describes after (seen ++ [.typedef typedef]) := by
  rw [Context.addTypedef]
  cases held : context.typedef? typedef.name with
  | none =>
    rw [typedef?] at held
    refine ⟨_, rfl, describes.withTypedef agree rfl ?_ (fun name other => ?_) rfl⟩
    · simp [typedef?, List.lookup_append, held]
    · simp [typedef?, List.lookup_append, List.lookup_cons, beq_false_of_ne other]
  | some existing =>
    have found := describes.typedefs typedef.name
    rw [held] at found
    have entry : .typedef existing ∈ seen := by simpa using List.mem_of_find?_eq_some found.symm
    have same : existing = typedef := agree _ entry (by simpa using List.find?_some found.symm)
    exact ⟨context, if_pos same, describes.withTypedef agree rfl (same ▸ held) (fun _ _ => rfl) rfl⟩

/-- What agrees with all that has been indexed is indexed. -/
theorem Describes.addEntry (describes : Describes context seen) {entry : Entry}
    (agree : ∀ other ∈ seen, other.Agrees entry) :
    ∃ after, context.addEntry entry = .ok after ∧ Describes after (seen ++ [entry]) := by
  cases entry with
  | struct => exact describes.addStruct agree
  | enumeration => exact describes.addEnumeration agree
  | typedef => exact describes.addTypedef agree

theorem Describes.agrees_struct (describes : Describes context seen)
    (added : context.addStruct struct = .ok after) : ∀ other ∈ seen, other.Agrees (.struct struct) := by
  have own := describes.structs struct.name
  have free : context.enumeration? struct.name = none := by
    rw [Context.addStruct] at added
    split at added
    · next unknown => exact (tag?_eq_none_iff.mp unknown).2
    · cases added
    · next tag => rw [enumeration?, tag]
  intro other member
  cases other with
  | struct first =>
    intro name complete complete'
    have listed : first ∈ seen.filterMap Entry.struct? := by simpa using member
    rw [Context.addStruct] at added
    split at added
    · next unknown =>
      rw [(tag?_eq_none_iff.mp unknown).1] at own
      exact absurd name (structNamed?_eq_none.mp own.symm first listed)
    · cases added
    · next existing tag =>
      rw [struct?_eq_some_iff.mpr tag] at own
      have former : ¬ existing.incomplete := fun forward =>
        complete (incomplete_of_structNamed? own.symm forward first listed name)
      obtain ⟨held, named⟩ := mem_of_structNamed? own.symm
      have entry : .struct existing ∈ seen := by simpa using held
      have equal := describes.agree _ member _ entry (name.trans named.symm) complete former
      rw [if_neg complete', if_neg former] at added
      split at added
      · next same => exact equal.trans same
      · cases added
  | enumeration first =>
    intro name
    have listed : first ∈ seen.filterMap Entry.enumeration? := by simpa using member
    rw [describes.enums, enumerationNamed?, List.find?_eq_none] at free
    exact free first listed (by simpa using name)
  | typedef => trivial

theorem Describes.agrees_enumeration (describes : Describes context seen) {enumeration : Enumeration}
    (added : context.addEnumeration enumeration = .ok after) :
    ∀ other ∈ seen, other.Agrees (.enumeration enumeration) := by
  rw [Context.addEnumeration] at added
  intro other member
  cases own : enumeration.declaredName? with
  | none => cases other <;> simp [Entry.Agrees, own]
  | some name =>
    rw [own] at added
    simp only at added
    have held : context.tag? name = none ∨ context.tag? name = some (.enumeration enumeration) := by
      split at added
      · next unknown => exact .inl unknown
      · next existing tag =>
        split at added
        · next same => exact .inr (same ▸ tag)
        · cases added
    cases other with
    | struct first =>
      intro same
      have listed : first ∈ seen.filterMap Entry.struct? := by simpa using member
      have free : context.struct? name = none := by
        rcases held with unknown | tag
        · exact (tag?_eq_none_iff.mp unknown).1
        · rw [struct?, tag]
      rw [describes.structs, structNamed?_eq_none] at free
      exact free first listed (Option.some.inj (same.symm.trans own))
    | enumeration first =>
      intro other former same
      obtain rfl : name = other := Option.some.inj (own.symm.trans same)
      have listed : first ∈ seen.filterMap Entry.enumeration? := by simpa using member
      rcases held with unknown | tag
      · have free := (tag?_eq_none_iff.mp unknown).2
        rw [describes.enums, enumerationNamed?, List.find?_eq_none] at free
        exact absurd (by simpa using former) (free first listed)
      · have found := describes.enums name
        rw [enumeration?_eq_some_iff.mpr tag] at found
        have entry : .enumeration enumeration ∈ seen := by
          simpa using List.mem_of_find?_eq_some found.symm
        exact describes.agree _ member _ entry name former own
    | typedef => trivial

theorem Describes.agrees_typedef (describes : Describes context seen) {typedef : Typedef}
    (added : context.addTypedef typedef = .ok after) : ∀ other ∈ seen, other.Agrees (.typedef typedef) := by
  intro other member
  cases other with
  | struct | enumeration => trivial
  | typedef first =>
    intro same
    have listed : first ∈ seen.filterMap Entry.typedef? := by simpa using member
    have found := describes.typedefs typedef.name
    rw [Context.addTypedef] at added
    split at added
    · next unknown =>
      rw [unknown, eq_comm, typedefNamed?, List.find?_eq_none] at found
      exact absurd (by simpa using same) (found first listed)
    · next existing held =>
      rw [held] at found
      have entry : .typedef existing ∈ seen := by simpa using List.mem_of_find?_eq_some found.symm
      have named : existing.name = typedef.name := by simpa using List.find?_some found.symm
      split at added
      · next equal => exact (describes.agree _ member _ entry (same.trans named.symm)).trans equal
      · cases added

/-- What is indexed agrees with all that has been indexed before. -/
theorem Describes.agrees (describes : Describes context seen) {entry : Entry}
    (added : context.addEntry entry = .ok after) : ∀ other ∈ seen, other.Agrees entry := by
  cases entry with
  | struct => exact describes.agrees_struct added
  | enumeration => exact describes.agrees_enumeration added
  | typedef => exact describes.agrees_typedef added

theorem describes_empty : Describes empty [] where
  agree := nofun
  structs _ := rfl
  enums _ := rfl
  typedefs _ := rfl
  anonymous := rfl

/-- A run of additions describes what it has gone through. -/
theorem Describes.foldlM {entries : List Entry} (describes : Describes context seen)
    (added : entries.foldlM Context.addEntry context = .ok after) : Describes after (seen ++ entries) := by
  induction entries generalizing context seen with
  | nil =>
    cases added
    rwa [List.append_nil]
  | cons entry entries ih =>
    rw [List.foldlM_cons] at added
    cases first : context.addEntry entry with
    | error error => rw [first] at added; cases added
    | ok middle =>
      rw [first] at added
      obtain ⟨_, same, describes'⟩ := describes.addEntry (describes.agrees first)
      obtain rfl := Except.ok.inj (first.symm.trans same)
      have rest := ih describes' added
      rwa [List.append_assoc] at rest

/-- Declarations that agree are all indexed. -/
theorem Describes.exists_foldlM {entries : List Entry} (describes : Describes context seen)
    (agree : ∀ first ∈ seen ++ entries, ∀ second ∈ entries, first.Agrees second) :
    ∃ after, entries.foldlM Context.addEntry context = .ok after := by
  induction entries generalizing context seen with
  | nil => exact ⟨context, rfl⟩
  | cons entry entries ih =>
    obtain ⟨middle, first, describes'⟩ := describes.addEntry fun other member =>
      agree other (List.mem_append_left _ member) entry List.mem_cons_self
    obtain ⟨after, rest⟩ := ih describes' fun other member second later =>
      agree other (by simpa using member) second (List.mem_cons_of_mem _ later)
    exact ⟨after, by rw [List.foldlM_cons, first]; exact rest⟩

end

section

variable {graph graph' : Graph} {context : Context}

theorem describes_index (indexed : index graph = .ok context) : Describes context graph.entries :=
  describes_empty.foldlM (index_eq graph ▸ indexed)

theorem struct?_index (indexed : index graph = .ok context) (name : String) :
    context.struct? name = structNamed? graph.structs name := by
  rw [(describes_index indexed).structs, Graph.structs_entries]

theorem enumeration?_index (indexed : index graph = .ok context) (name : String) :
    context.enumeration? name = enumerationNamed? graph.enums name := by
  rw [(describes_index indexed).enums, Graph.enums_entries]

theorem typedef?_index (indexed : index graph = .ok context) (name : String) :
    context.typedef? name = typedefNamed? graph.typedefs name := by
  rw [(describes_index indexed).typedefs, Graph.typedefs_entries]

theorem anonymous_index (indexed : index graph = .ok context) :
    context.anonymous = graph.anonymousEnums.map (⟨·, none⟩) := by
  rw [(describes_index indexed).anonymous, Graph.enums_entries, Graph.anonymousEnums]

end

end Interop.Context
