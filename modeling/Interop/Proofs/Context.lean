import Interop.Generation.Basic
import Interop.Proofs.Work

/-! The names of a context. Structures stand under their own names, every known name is listed
once, and the names that a graph declares come first, in the order of their first declarations;
enumerations that get their names later come after them. -/
namespace Interop

def TranslationUnit.tagNames (unit : TranslationUnit) : List String :=
  unit.structs.map (·.name) ++ unit.enums.flatMap (·.declaredName?.toList)

def Graph.tagNames (graph : Graph) : List String := graph.units.flatMap (·.tagNames)

namespace Context

open Work

/-- The structures of a context stand under their own names. -/
def Named (context : Context) : Prop :=
  ∀ entry ∈ context.tags, ∀ struct, entry.2 = .struct struct → struct.name = entry.1

/-- Every known name is listed once, and declared names as they come first. -/
structure Lists (context : Context) (declared : List String) : Prop where
  named : Named context
  names : context.knownNames = declared.eraseDups
  distinct : context.knownNames.Nodup

/-- What a later context of a run keeps of an earlier one. -/
structure Grows (before after : Context) : Prop where
  named : Named before → Named after
  names : before.knownNames <+: after.knownNames
  distinct : before.knownNames.Nodup → after.knownNames.Nodup
  structs : ∀ name, after.struct? name = before.struct? name
  typedefs : after.typedefs = before.typedefs

theorem Named.tag? {context : Context} (named : Named context) {name : String} {struct : Struct}
    (tag : context.tag? name = some (.struct struct)) : struct.name = name := by
  obtain ⟨early, late, tags, -⟩ := List.lookup_eq_some_iff.mp tag
  exact named (name, .struct struct) (tags ▸ List.mem_append_right _ List.mem_cons_self) struct rfl

section

variable {context : Context} {name : String} {declaration : TagDeclaration}

theorem not_mem_knownNames (unknown : context.tag? name = none) : name ∉ context.knownNames := by
  rw [mem_knownNames, isKnown, unknown]
  simp

theorem mem_knownNames_of_tag? (tag : context.tag? name = some declaration) : name ∈ context.knownNames := by
  rw [mem_knownNames, isKnown, tag]
  rfl

def Fits (name : String) (declaration : TagDeclaration) : Prop :=
  ∀ struct, declaration = .struct struct → struct.name = name

theorem fits_enumeration (name : String) (enumeration : Enumeration) : Fits name (.enumeration enumeration) :=
  nofun

theorem fits_struct (struct : Struct) : Fits struct.name (.struct struct) := by
  rintro _ ⟨⟩
  rfl

theorem knownNames_append : (context.append name declaration).knownNames = context.knownNames ++ [name] := by
  simp [knownNames, append]

theorem knownNames_replace : (context.replace name declaration).knownNames = context.knownNames := by
  simp only [knownNames, replace, List.map_map]
  apply List.map_congr_left
  intro entry _
  simp only [Function.comp]
  split
  · next same => exact same.symm
  · rfl

theorem struct?_eq_some_iff {struct : Struct} :
    context.struct? name = some struct ↔ context.tag? name = some (.struct struct) := by
  rw [struct?]
  split <;> simp_all

theorem enumeration?_eq_some_iff {enumeration : Enumeration} :
    context.enumeration? name = some enumeration ↔
      context.tag? name = some (.enumeration enumeration) := by
  rw [enumeration?]
  split <;> simp_all

theorem tag?_eq_none_iff :
    context.tag? name = none ↔ context.struct? name = none ∧ context.enumeration? name = none := by
  rw [struct?, enumeration?]
  cases context.tag? name with
  | none => simp
  | some declaration => cases declaration <;> simp

theorem struct?_congr {after : Context} (same : after.tag? name = context.tag? name) :
    after.struct? name = context.struct? name := by
  rw [struct?, same, struct?]

theorem enumeration?_congr {after : Context} (same : after.tag? name = context.tag? name) :
    after.enumeration? name = context.enumeration? name := by
  rw [enumeration?, same, enumeration?]

theorem tag?_append (unknown : context.tag? name = none) (other : String) :
    (context.append name declaration).tag? other =
      if other = name then some declaration else context.tag? other := by
  simp only [tag?, append, List.lookup_append, List.lookup_cons, List.lookup_nil] at unknown ⊢
  by_cases same : other = name
  · simp [same, unknown]
  · simp [same, beq_false_of_ne same]

/-- Replacing puts a declaration where the name is known and touches nothing else. -/
theorem tag?_replace (other : String) :
    (context.replace name declaration).tag? other =
      if other = name then (context.tag? name).map fun _ => declaration else context.tag? other := by
  simp only [tag?, replace]
  induction context.tags with
  | nil => simp
  | cons entry tags ih =>
    obtain ⟨key, held⟩ := entry
    by_cases first : key = name <;> by_cases same : other = name
    · subst first same
      simp
    · subst first
      simpa [List.lookup_cons, beq_false_of_ne same, same] using ih
    · subst same
      simpa [List.lookup_cons, beq_false_of_ne (Ne.symm first), first] using ih
    · simp only [List.map_cons, first, same, if_false, List.lookup_cons] at ih ⊢
      rw [ih]

theorem Named.append (named : Named context) (fits : Fits name declaration) :
    Named (context.append name declaration) := by
  intro entry member
  rcases List.mem_append.mp member with older | own
  · exact named entry older
  · obtain rfl := List.mem_singleton.mp own
    exact fits

theorem Named.replace (named : Named context) (fits : Fits name declaration) :
    Named (context.replace name declaration) := by
  intro entry member
  obtain ⟨former, older, rfl⟩ := List.mem_map.mp member
  split
  · exact fits
  · exact named former older

theorem distinct_append (distinct : context.knownNames.Nodup) (unknown : context.tag? name = none) :
    (context.append name declaration).knownNames.Nodup := by
  rw [knownNames_append, List.nodup_append]
  refine ⟨distinct, List.pairwise_singleton _ _, ?_⟩
  rintro other known _ own rfl
  obtain rfl := List.mem_singleton.mp own
  exact not_mem_knownNames unknown known

theorem grows_append (unknown : context.tag? name = none) (enumeration : Enumeration) :
    Grows context (context.append name (.enumeration enumeration)) where
  named named := named.append (fits_enumeration name enumeration)
  names := knownNames_append ▸ List.prefix_append _ _
  distinct distinct := distinct_append distinct unknown
  structs other := by
    by_cases same : other = name
    · rw [same, (tag?_eq_none_iff.mp unknown).1, struct?, tag?_append unknown, if_pos rfl]
    · exact struct?_congr ((tag?_append unknown other).trans (if_neg same))
  typedefs := rfl

theorem grows_replace {former : Enumeration} (held : context.enumeration? name = some former)
    (enumeration : Enumeration) : Grows context (context.replace name (.enumeration enumeration)) where
  named named := named.replace (fits_enumeration name enumeration)
  names := knownNames_replace ▸ List.prefix_rfl
  distinct distinct := by
    rw [knownNames_replace]
    exact distinct
  structs other := by
    have tag := enumeration?_eq_some_iff.mp held
    by_cases same : other = name
    · rw [same, struct?, tag?_replace, if_pos rfl, tag, struct?, tag, Option.map_some]
    · exact struct?_congr ((tag?_replace other).trans (if_neg same))
  typedefs := rfl

end

theorem Grows.refl (context : Context) : Grows context context :=
  ⟨id, List.prefix_rfl, id, fun _ => rfl, rfl⟩

theorem Grows.trans {first second third : Context} (early : Grows first second)
    (late : Grows second third) : Grows first third where
  named named := late.named (early.named named)
  names := early.names.trans late.names
  distinct distinct := late.distinct (early.distinct distinct)
  structs name := (late.structs name).trans (early.structs name)
  typedefs := late.typedefs.trans early.typedefs

theorem frame_grows : Frame Grows := ⟨Grows.refl, Grows.trans⟩

section

variable {context after : Context} {declared : List String} {name : String}

theorem eraseDups_known (known : name ∈ declared) : (declared ++ [name]).eraseDups = declared.eraseDups := by
  simp [List.eraseDups_append, List.removeAll, known]

theorem eraseDups_unknown (unknown : name ∉ declared) :
    (declared ++ [name]).eraseDups = declared.eraseDups ++ [name] := by
  simp [List.eraseDups_append, List.removeAll, unknown, List.eraseDups_cons]

theorem Lists.known (lists : Lists context declared) (known : name ∈ context.knownNames) :
    Lists context (declared ++ [name]) where
  named := lists.named
  names := by
    rw [eraseDups_known (List.mem_eraseDups.mp (lists.names ▸ known)), lists.names]
  distinct := lists.distinct

theorem Lists.append (lists : Lists context declared) {declaration : TagDeclaration}
    (unknown : context.tag? name = none) (fits : Fits name declaration) :
    Lists (context.append name declaration) (declared ++ [name]) where
  named := lists.named.append fits
  names := by
    have missing : name ∉ declared := fun member =>
      not_mem_knownNames unknown (lists.names ▸ List.mem_eraseDups.mpr member)
    rw [knownNames_append, eraseDups_unknown missing, lists.names]
  distinct := distinct_append lists.distinct unknown

theorem Lists.replace (lists : Lists context declared) {declaration : TagDeclaration}
    (known : name ∈ context.knownNames) (fits : Fits name declaration) :
    Lists (context.replace name declaration) (declared ++ [name]) where
  named := lists.named.replace fits
  names := by rw [knownNames_replace, (lists.known known).names]
  distinct := by
    rw [knownNames_replace]
    exact lists.distinct

theorem lists_addStruct {struct : Struct} (lists : Lists context declared)
    (added : addStruct context struct = .ok after) : Lists after (declared ++ [struct.name]) := by
  rw [addStruct] at added
  split at added
  · next unknown =>
    cases added
    exact lists.append unknown (fits_struct struct)
  · cases added
  · next existing tag =>
    have known := lists.known (mem_knownNames_of_tag? tag)
    split at added
    · cases added
      exact known
    · split at added
      · cases added
        exact lists.replace (mem_knownNames_of_tag? tag) (fits_struct struct)
      · split at added
        · cases added
          exact known
        · cases added

theorem lists_addEnumeration {enumeration : Enumeration} (lists : Lists context declared)
    (added : addEnumeration context enumeration = .ok after) :
    Lists after (declared ++ enumeration.declaredName?.toList) := by
  rw [addEnumeration] at added
  split at added
  · next unnamed =>
    cases added
    rw [unnamed, Option.toList_none, List.append_nil]
    exact ⟨lists.named, lists.names, lists.distinct⟩
  · next name own =>
    rw [own, Option.toList_some]
    split at added
    · next unknown =>
      cases added
      exact lists.append unknown (fits_enumeration name enumeration)
    · next existing tag =>
      split at added
      · cases added
        exact lists.known (mem_knownNames_of_tag? tag)
      · cases added

theorem lists_addTypedef {typedef : Typedef} (lists : Lists context declared)
    (added : addTypedef context typedef = .ok after) : Lists after (declared ++ []) := by
  rw [List.append_nil]
  rw [addTypedef] at added
  split at added
  · cases added
    exact ⟨lists.named, lists.names, lists.distinct⟩
  · split at added
    · cases added
      exact lists
    · cases added

/-- Declarations added one after another add their names one after another. -/
theorem lists_foldlM {α : Type} (add : Context → α → Except GenerationError Context)
    (names : α → List String)
    (each : ∀ item context after declared, Lists context declared → add context item = .ok after →
      Lists after (declared ++ names item))
    {items : List α} (lists : Lists context declared) (added : items.foldlM add context = .ok after) :
    Lists after (declared ++ items.flatMap names) := by
  induction items generalizing context declared with
  | nil =>
    cases added
    rwa [List.flatMap_nil, List.append_nil]
  | cons item items ih =>
    rw [List.foldlM_cons] at added
    cases first : add context item with
    | error error => rw [first] at added; cases added
    | ok middle =>
      rw [first] at added
      rw [List.flatMap_cons, ← List.append_assoc]
      exact ih (each item context middle declared lists first) added

theorem lists_addUnit {unit : TranslationUnit} (lists : Lists context declared)
    (added : addUnit context unit = .ok after) : Lists after (declared ++ unit.tagNames) := by
  rw [addUnit] at added
  cases structs : unit.structs.foldlM addStruct context with
  | error error => rw [structs] at added; cases added
  | ok first =>
    cases enums : unit.enums.foldlM addEnumeration first with
    | error error => simp only [structs, bind, Except.bind, enums] at added; cases added
    | ok second =>
      simp only [structs, bind, Except.bind, enums] at added
      have early := lists_foldlM addStruct (fun struct => [struct.name])
        (fun _ _ _ _ => lists_addStruct) lists structs
      have middle := lists_foldlM addEnumeration (fun enumeration => enumeration.declaredName?.toList)
        (fun _ _ _ _ => lists_addEnumeration) early enums
      have late := lists_foldlM addTypedef (fun _ => []) (fun _ _ _ _ => lists_addTypedef) middle added
      have nothing : unit.typedefs.flatMap (fun _ => ([] : List String)) = [] :=
        List.flatMap_eq_nil_iff.mpr fun _ _ => rfl
      rwa [nothing, List.append_nil, List.append_assoc, ← List.map_eq_flatMap] at late

theorem lists_empty : Lists empty [] where
  named _ member := absurd member List.not_mem_nil
  names := rfl
  distinct := List.nodup_nil

end

/-- Indexing lists the names that a graph declares in the order of their first declarations. -/
theorem lists_index {graph : Graph} {context : Context} (indexed : index graph = .ok context) :
    Lists context graph.tagNames :=
  lists_foldlM addUnit TranslationUnit.tagNames (fun _ _ _ _ => lists_addUnit) lists_empty indexed

section

variable {before : Context}

/-- Naming an enumeration by its index leaves the tags alone. -/
theorem grows_nameAnonymous (index : Nat) (name : String) : Grows before (before.nameAnonymous index name) :=
  ⟨id, List.prefix_rfl, id, fun _ => rfl, rfl⟩

theorem grows_nameIfUnnamed (index : Nat) (name : String) : Grows before (before.nameIfUnnamed index name) := by
  rw [nameIfUnnamed]
  split
  · exact grows_nameAnonymous index name
  · exact Grows.refl before

theorem grows_insertEnumeration {enumeration : Enumeration} {after : Context}
    (inserted : before.insertEnumeration enumeration = .ok after) : Grows before after := by
  rw [insertEnumeration] at inserted
  split at inserted
  · cases inserted
    exact Grows.refl before
  · next name _ =>
    split at inserted
    · cases inserted
    · next unknown =>
      cases inserted
      exact grows_append (by simpa [isKnown] using unknown) enumeration

end

theorem grows_unifyAt (openings made : List String) (index : Nat) (enumeration : Enumeration) :
    Keeps Grows (unifyAt openings made index enumeration) := by
  intro context
  rw [unifyAt, outcome_bind, outcome_get]
  simp only
  split
  · exact Grows.refl context
  · next name _ =>
    split
    · split
      · exact Grows.refl context
      · next target held =>
        rcases mergeItems target.items enumeration.items with ⟨items, collision⟩
        have merged : Grows context (context.replace name (.enumeration { target with items })) :=
          grows_replace held _
        cases collision with
        | some memberName => exact merged
        | none => exact merged.trans (grows_nameAnonymous index name)
    · split
      · exact Grows.refl context
      · next items _ =>
        cases inserted : context.insertEnumeration ⟨some name, enumeration.underlying, items⟩ with
        | error error => exact Grows.refl context
        | ok extended =>
          exact (grows_insertEnumeration inserted).trans (grows_nameAnonymous index name)

theorem grows_aliasTypedef (name : String) (strategy : TypedefStrategy) :
    Keeps Grows (aliasTypedef name strategy) := by
  intro context
  rw [aliasTypedef, outcome_bind, outcome_get]
  simp only
  split
  · split
    · exact Grows.refl context
    · next source index _ =>
      cases inserted : context.insertEnumeration { source with name := some name } with
      | error error => exact Grows.refl context
      | ok extended =>
        have grows := grows_insertEnumeration inserted
        cases index with
        | none => exact grows
        | some index => exact grows.trans (grows_nameIfUnnamed index name)
  · exact Grows.refl context

theorem grows_unify (openings : List String) : Keeps Grows (unify openings) := by
  intro context
  rw [unify, outcome_bind, outcome_get]
  refine frame_grows.bind (frame_grows.foldlM (fun made entry _ => ?_) []) (fun _ => frame_grows.pure _) context
  exact grows_unifyAt openings made entry.2 entry.1.declaration

theorem grows_aliasAll (strategies : Table TypedefStrategy) : Keeps Grows (aliasAll strategies) := by
  unfold aliasAll
  refine frame_grows.forM fun entry _ => ?_
  exact grows_aliasTypedef entry.1 entry.2

def naming (configuration : Configuration) : Work Context Unit := do
  unify configuration.anonymousEnumPrefixes
  aliasAll configuration.typedefStrategies

theorem prepareContext_eq (configuration : Configuration) (graph : Graph) :
    Generation.prepareContext configuration graph = (index graph).bind fun indexed =>
      (outcome (naming configuration) indexed).1.map fun _ => (outcome (naming configuration) indexed).2 := by
  refine congrArg (Except.bind (index graph)) (funext fun indexed => ?_)
  have run : StateT.run (ExceptT.run (do
      unify configuration.anonymousEnumPrefixes
      aliasAll configuration.typedefStrategies)) indexed = outcome (naming configuration) indexed := rfl
  simp only [run]
  rcases outcome (naming configuration) indexed with ⟨error | done, context⟩ <;> rfl

theorem grows_naming (configuration : Configuration) : Keeps Grows (naming configuration) :=
  frame_grows.bind (grows_unify configuration.anonymousEnumPrefixes) fun _ =>
    grows_aliasAll configuration.typedefStrategies

/-- The context of a run lists the names that its graph declares first, in the order of their
first declarations. -/
theorem grows_prepareContext {configuration : Configuration} {graph : Graph} {context : Context}
    (prepared : Generation.prepareContext configuration graph = .ok context) :
    ∃ indexed, index graph = .ok indexed ∧ Grows indexed context := by
  rw [prepareContext_eq] at prepared
  cases found : index graph with
  | error error => rw [found] at prepared; cases prepared
  | ok indexed =>
    rw [found] at prepared
    have grows := grows_naming configuration indexed
    simp only [Except.bind] at prepared
    revert prepared grows
    rcases outcome (naming configuration) indexed with ⟨error | done, after⟩
    · rintro ⟨⟩
    · rintro ⟨⟩ grows
      exact ⟨indexed, rfl, grows⟩

theorem named_prepareContext {configuration : Configuration} {graph : Graph} {context : Context}
    (prepared : Generation.prepareContext configuration graph = .ok context) : Named context := by
  obtain ⟨indexed, found, grows⟩ := grows_prepareContext prepared
  exact grows.named (lists_index found).named

/-- The display names of the enumerations without a name, by their positions. -/
theorem filterMap_zipIdx_unnamed (entries : List AnonymousEnum) (start : Nat) :
    ((entries.zipIdx start).filterMap fun (entry, index) =>
      if entry.name.isNone then some (TagReference.anonymous index).display else none) =
    ((List.range' start entries.length).filter fun index =>
      (entries[index - start]?.bind (·.name)).isNone).map fun index =>
        (TagReference.anonymous index).display := by
  induction entries generalizing start with
  | nil => rfl
  | cons entry entries ih =>
    have shift : (List.range' (start + 1) entries.length).filter (fun index =>
          ((entry :: entries)[index - start]?.bind (·.name)).isNone) =
        (List.range' (start + 1) entries.length).filter fun index =>
          (entries[index - (start + 1)]?.bind (·.name)).isNone := by
      apply List.filter_congr
      intro index member
      obtain ⟨offset, rfl⟩ := Nat.exists_eq_add_of_le (List.mem_range'_1.mp member).1
      have first : start + 1 + offset - start = offset + 1 := by omega
      rw [first, List.getElem?_cons_succ, Nat.add_sub_cancel_left]
    rw [List.zipIdx_cons, List.length_cons, List.range'_succ, List.filterMap_cons, List.filter_cons,
      shift, ih (start + 1)]
    simp only [Nat.sub_self, List.getElem?_cons_zero, Option.bind_some]
    cases entry.name <;> rfl

theorem orphans_eq (context : Context) (registered : List String) :
    context.orphans registered = context.knownNames.filter (· ∉ registered) ++
      ((List.range context.anonymous.length).filter fun index => (context.anonymousName? index).isNone).map
        fun index => (TagReference.anonymous index).display := by
  have known : context.knownNames.filter (fun name => !registered.contains name) =
      context.knownNames.filter (· ∉ registered) := by
    apply List.filter_congr
    intro name _
    simp
  rw [orphans, known, filterMap_zipIdx_unnamed context.anonymous 0, List.range_eq_range']
  rfl

end Context

end Interop
