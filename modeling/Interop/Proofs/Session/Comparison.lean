import Interop.Proofs.Context.Comparison
import Interop.Proofs.Session.Binding

/-! Sessions of two runs whose contexts are alike. Nothing that a session asks for has a hidden name,
and it asks for no type of a member whose name is overridden; so both sessions do the same. -/
namespace Interop

def Setting.within (setting : Setting) (other : Context) : Setting := { setting with context := other }

@[simp] theorem Setting.context_within (setting : Setting) (other : Context) :
    (setting.within other).context = other := rfl

@[simp] theorem Setting.configuration_within (setting : Setting) (other : Context) :
    (setting.within other).configuration = setting.configuration := rfl

@[simp] theorem Setting.constants_within (setting : Setting) (other : Context) :
    (setting.within other).constants = setting.constants := rfl

def Graph.files (graph : Graph) : List (String × List Function) :=
  graph.units.map fun unit => (unit.fileName, unit.functions)

def Library.files (library : Library) (graph : Graph) : List (String × List Function) :=
  graph.files.filter fun file => Path.sameFile file.1 library.header

theorem Library.partition_eq (library : Library) (graph : Graph) (claimed : List String) :
    library.partition graph claimed =
      if (library.files graph).isEmpty then .error (.missingUnit library.name library.header)
      else .ok (claimFunctions claimed ((library.files graph).flatMap (·.2))) := by
  have files : library.files graph = (library.units graph).map fun unit => (unit.fileName, unit.functions) := by
    simp only [files, Graph.files, Library.units, List.filter_map, Function.comp_def]
  rw [Library.partition, files]
  cases library.units graph with
  | nil => rfl
  | cons => simp [List.flatMap_map]

theorem Library.type_mem {library : Library} {graph : Graph} {function : Function} {type : CType}
    (bound : function ∈ library.functions graph) (used : type ∈ function.types) : type ∈ graph.types := by
  obtain ⟨unit, listed, own⟩ := List.mem_flatMap.mp bound
  exact Graph.type_mem_of_function (List.mem_filter.mp listed).1 own used

theorem mem_of_claimFunctions {claimed : List String} {functions : List Function} {function : Function}
    (member : function ∈ (claimFunctions claimed functions).1) : function ∈ functions :=
  List.mem_of_find?_eq_some (mem_claimFunctions.mp member).2

section

variable {change : Function → Function} (names : ∀ function, (change function).name = function.name)
  {claimed : List String}

include names

theorem claimFunctions_map {functions : List Function} : claimFunctions claimed (functions.map change) =
    ((claimFunctions claimed functions).1.map change, (claimFunctions claimed functions).2) := by
  induction functions generalizing claimed with
  | nil => rfl
  | cons function functions ih =>
    rw [List.map_cons, claimFunctions, claimFunctions, names]
    split
    · exact ih
    · rw [ih]
      rfl

variable {graph graph' : Graph} (files : graph'.files = graph.files.map (Prod.map id (List.map change)))

include files

/-- A library claims the same functions, changed. -/
theorem Library.partition_map (library : Library) : library.partition graph' claimed =
    (library.partition graph claimed).map (Prod.map (List.map change) id) := by
  have own : library.files graph' = (library.files graph).map (Prod.map id (List.map change)) := by
    rw [Library.files, files, List.filter_map]
    rfl
  have functions : (library.files graph').flatMap (·.2) = ((library.files graph).flatMap (·.2)).map change := by
    rw [own, List.flatMap_map, List.map_flatMap]
    rfl
  rw [Library.partition_eq, Library.partition_eq, functions, claimFunctions_map names, own, List.isEmpty_map]
  split <;> rfl

end

namespace Session

open Work

/-- Another context differs from the one of a setting only in what the setting cannot ask for. -/
structure Concords (change : Member → Member) (hidden : List String) (setting : Setting)
    (other : Context) : Prop where
  alike : Context.Alike change hidden setting.context other
  names : ∀ m, (change m).name = m.name
  types : ∀ m, setting.configuration.nameOverrides.lookup m.name = none → (change m).type = m.type
  fields : ∀ name struct, setting.context.struct? name = some struct →
    ∀ m ∈ struct.fields, m.type.Avoids hidden
  typedefs : ∀ name typedef, setting.context.typedef? name = some typedef → typedef.underlying.Avoids hidden
  strategies : ∀ name, setting.configuration.typedefStrategies.lookup name = some .namedEnum → name ∉ hidden
  notFound : ∀ name target, setting.configuration.notFoundOverrides.lookup name = some target → target ∉ hidden
  overrides : ∀ name target, setting.configuration.nameOverrides.lookup name = some target → target ∉ hidden

section

variable {change : Member → Member} {hidden : List String} {setting : Setting} {other : Context}
  (concords : Concords change hidden setting other)

include concords

theorem isFunctionWithin_concords (steps : Nat) (type : CType) :
    isFunctionWithin other steps type = isFunctionWithin setting.context steps type := by
  fun_induction isFunctionWithin setting.context steps type with
  | case1 => rw [isFunctionWithin]
  | case2 => rw [isFunctionWithin]
  | case3 steps name typedef found ih =>
    rw [isFunctionWithin, concords.alike.typedef?, found]
    exact ih
  | case4 steps name unknown => rw [isFunctionWithin, concords.alike.typedef?, unknown]
  | case5 => simp_all [isFunctionWithin]

theorem isFunction_concords (type : CType) : isFunction other type = isFunction setting.context type :=
  isFunctionWithin_concords concords typedefLimit type

theorem tagName_concords (reference : TagReference) :
    tagName other reference = tagName setting.context reference := by
  cases reference with
  | named => rfl
  | anonymous index => rw [tagName, concords.alike.anonymousName?, tagName]

theorem visible_of_isKnown {name : String} (known : setting.context.isKnown name) : name ∉ hidden := by
  intro member
  rw [Context.isKnown, concords.alike.unknown name member] at known
  cases known

theorem followOverrides_concords (start : String) (bound : Nat) (chain : List String) (current : String) :
    followOverrides (setting.within other) start bound chain current =
      followOverrides setting start bound chain current := by
  induction bound generalizing chain current with
  | zero => rfl
  | succ bound ih =>
    rw [followOverrides, followOverrides, Setting.configuration_within]
    cases entry : setting.configuration.notFoundOverrides.lookup current with
    | none => rfl
    | some target =>
      have known := concords.alike.isKnown (concords.notFound current target entry)
      simp only [Setting.context_within, known, ih]

theorem redirect_concords (name : String) : redirect (setting.within other) name = redirect setting name :=
  followOverrides_concords concords name _ [name] name

section

variable {emit emit' : String → Work Progress Registration}
  (same : ∀ name, name ∉ hidden → emit' name = emit name)

include same

/-- A name that is not hidden is known to both contexts or redirected to a name known to both. -/
theorem registerBy_concords {name : String} (visible : name ∉ hidden) :
    registerBy (m := Work Progress) (setting.within other) throw emit' name =
      registerBy (m := Work Progress) setting throw emit name := by
  rw [registerBy, registerBy, Setting.context_within, concords.alike.isKnown visible, same name visible,
    redirect_concords concords]
  split
  · rfl
  · next unknown =>
    cases redirected : redirect setting name with
    | error error => rfl
    | ok target =>
      have stands := standsFor_of_redirect unknown redirected
      simp only [same target (visible_of_isKnown concords stands.isKnown)]

theorem enter_concords {name : String} (visible : name ∉ hidden) :
    (effectsBy (setting.within other) emit').enter name = (effectsBy setting emit).enter name := by
  simp only [effectsBy, enterBy, registerBy_concords concords same visible]

theorem resolveTag_concords {reference : TagReference} (avoids : (CType.tag reference).Avoids hidden) :
    resolveTag (setting.within other) (effectsBy (setting.within other) emit') reference =
      resolveTag setting (effectsBy setting emit) reference := by
  rw [resolveTag, resolveTag, Setting.context_within, tagName_concords concords]
  cases found : tagName setting.context reference with
  | error error => rfl
  | ok name =>
    have visible : name ∉ hidden := by
      cases reference with
      | named own =>
        cases found
        exact avoids name (List.mem_singleton_self name)
      | anonymous index =>
        rw [tagName] at found
        split at found
        · next given =>
          cases found
          exact concords.alike.named index name given
        · cases found
    simp only [enter_concords concords same visible]

omit concords same in
mutual

theorem resolveType_concords (concords : Concords change hidden setting other)
    (same : ∀ name, name ∉ hidden → emit' name = emit name) (unwrap : String → Work Progress Target) :
    (type : CType) → type.Avoids hidden →
    resolveType (setting.within other) (effectsBy (setting.within other) emit') unwrap type =
      resolveType setting (effectsBy setting emit) unwrap type
  | .builtin kind, _ => rfl
  | .pointer pointee, avoids => by
    simp only [resolveType, resolveType_concords concords same unwrap pointee avoids, Setting.context_within,
      isFunction_concords concords pointee]
  | .tag _, avoids => resolveTag_concords concords same avoids
  | .typedef _, _ => rfl
  | .function parameters result, avoids => by
    have first := resolveTypes_concords concords same unwrap parameters fun name used =>
      avoids name (List.mem_append_left _ used)
    have second := resolveType_concords concords same unwrap result fun name used =>
      avoids name (List.mem_append_right _ used)
    simp only [resolveType, first, second]
  | .array element _, avoids => by
    simp only [resolveType, resolveType_concords concords same unwrap element avoids]

theorem resolveTypes_concords (concords : Concords change hidden setting other)
    (same : ∀ name, name ∉ hidden → emit' name = emit name) (unwrap : String → Work Progress Target) :
    (types : List CType) →
    (∀ name ∈ CType.listTagNames types, name ∉ hidden) →
    resolveTypes (setting.within other) (effectsBy (setting.within other) emit') unwrap types =
      resolveTypes setting (effectsBy setting emit) unwrap types
  | [], _ => rfl
  | type :: types, avoid => by
    have first := resolveType_concords concords same unwrap type fun name used =>
      avoid name (List.mem_append_left _ used)
    have rest := resolveTypes_concords concords same unwrap types fun name used =>
      avoid name (List.mem_append_right _ used)
    simp only [resolveTypes, first, rest]

end

theorem resolveTypedef_concords (room : Nat) (name : String) :
    resolveTypedef (setting.within other) (effectsBy (setting.within other) emit') room name =
      resolveTypedef setting (effectsBy setting emit) room name := by
  by_cases strategy : setting.configuration.typedefStrategies.lookup name = some .namedEnum
  · rw [resolveTypedef_named _ _ room strategy, resolveTypedef_named (setting.within other) _ room strategy]
    exact resolveTag_concords concords same (CType.avoids_named (concords.strategies name strategy))
  have found : (setting.within other).context.typedef? name = setting.context.typedef? name :=
    concords.alike.typedef? name
  cases known : setting.context.typedef? name with
  | none =>
    rw [resolveTypedef_unknown _ _ strategy room known,
      resolveTypedef_unknown (setting.within other) _ strategy room (found.trans known)]
    rfl
  | some typedef =>
    cases room with
    | zero =>
      rw [resolveTypedef_zero _ _ strategy known,
        resolveTypedef_zero (setting.within other) _ strategy (found.trans known)]
      rfl
    | succ room =>
      have unwrap := funext (resolveTypedef_concords room)
      rw [resolveTypedef_succ _ _ strategy room known,
        resolveTypedef_succ (setting.within other) _ strategy room (found.trans known), unwrap,
        resolveType_concords concords same _ _ (concords.typedefs name typedef known)]
      rfl

theorem resolveWith_concords {type : CType} (avoids : type.Avoids hidden) :
    resolveWith (setting.within other) (effectsBy (setting.within other) emit') type =
      resolveWith setting (effectsBy setting emit) type := by
  have unwrap := funext (resolveTypedef_concords concords same typedefLimit)
  rw [resolveWith, resolveWith, unwrap, resolveType_concords concords same _ type avoids]

/-- Neither session asks for the type of a member whose name is overridden. -/
theorem resolveMemberWith_concords {m : Member} (avoids : m.type.Avoids hidden) :
    resolveMemberWith (setting.within other) (effectsBy (setting.within other) emit') (change m).name
        (change m).type =
      resolveMemberWith setting (effectsBy setting emit) m.name m.type := by
  rw [resolveMemberWith, resolveMemberWith, concords.names, Setting.configuration_within]
  cases entry : setting.configuration.nameOverrides.lookup m.name with
  | none =>
    simp only [concords.types m entry]
    exact resolveWith_concords concords same avoids
  | some target =>
    have visible := concords.overrides m.name target entry
    simp only [Setting.context_within, concords.alike.isKnown visible]
    split
    · exact resolveTag_concords concords same (CType.avoids_named visible)
    · rfl

theorem resolveMembersWith_concords (rename : String → Nat → String) {declared : List Member}
    (avoid : ∀ m ∈ declared, m.type.Avoids hidden) :
    resolveMembersWith (setting.within other) (effectsBy (setting.within other) emit') rename
        (declared.map change) =
      resolveMembersWith setting (effectsBy setting emit) rename declared := by
  rw [resolveMembersWith, resolveMembersWith, List.zipIdx_map, List.mapM_map]
  refine mapM_congr fun entry member => ?_
  have resolved := resolveMemberWith_concords concords same
    (avoid entry.1 (List.fst_mem_of_mem_zipIdx member))
  simp only [Function.comp_apply, Prod.map, id, resolved]
  rw [concords.names]

theorem emitDeclaration_concords {name : String} {declaration : TagDeclaration}
    (held : setting.context.tag? name = some declaration) :
    emitDeclaration (setting.within other) emit' name (declaration.mapMembers change) =
      emitDeclaration setting emit name declaration := by
  cases declaration with
  | enumeration => rfl
  | struct struct =>
    have fields := concords.fields name struct (Context.struct?_eq_some_iff.mpr held)
    have resolved := resolveMembersWith_concords concords same Identifier.field fields
    simp only [emitDeclaration, TagDeclaration.mapMembers, declare, Struct.mapMembers, resolved]
    rfl

end

theorem emitWithin_concords (bound : Nat) {name : String} (visible : name ∉ hidden) :
    emitWithin (setting.within other) bound name = emitWithin setting bound name := by
  induction bound generalizing name with
  | zero => rfl
  | succ bound ih =>
    apply Work.ext
    intro progress
    rw [emitWithin_succ, emitWithin_succ, Setting.context_within, concords.alike.tags name visible]
    split
    · rfl
    · cases held : setting.context.tag? name with
      | none => rfl
      | some declaration =>
        simp only [Option.map_some, emitDeclaration_concords concords (fun _ => ih) held]

/-- The bound of the other session is larger, which decides nothing. -/
theorem emit_concords {name : String} (visible : name ∉ hidden) :
    emit (setting.within other) name = emit setting name := by
  rw [emit, emit, emitWithin_concords concords _ visible]
  apply Work.ext
  intro progress
  have bound := unregistered_le setting.context progress
  have larger : setting.context.tags.length ≤ other.tags.length := by
    have filtered := List.length_filter_le (· ∉ hidden) other.knownNames
    rwa [concords.alike.names, Context.knownNames, Context.knownNames, List.length_map, List.length_map] at filtered
  refine emitWithin_stable setting ?_ (by omega)
  rw [Setting.context_within]
  omega

theorem register_concords {name : String} (visible : name ∉ hidden) :
    register (setting.within other) name = register setting name :=
  registerBy_concords concords (fun _ => emit_concords concords) visible

theorem forceTypes_concords (visible : ∀ name ∈ setting.configuration.forceTypes, name ∉ hidden) :
    forceTypes (setting.within other) = forceTypes setting := by
  refine forM_congr fun name member => ?_
  rw [register_concords concords (visible name member)]

theorem signature_concords {function : Function} (avoid : ∀ type ∈ function.types, type.Avoids hidden) :
    signature (setting.within other) (function.mapMembers change) = signature setting function := by
  have same (name : String) (visible : name ∉ hidden) := emit_concords concords visible
  have parameters := resolveMembersWith_concords concords same Identifier.parameter
    (fun m member => avoid m.type (List.mem_append_left _ (List.mem_map_of_mem member)))
  have result := resolveWith_concords concords same
    (avoid function.result (List.mem_append_right _ (List.mem_singleton_self _)))
  simp only [signature, signatureWith, Function.mapMembers, effects, parameters, result]

section

variable {graph graph' : Graph}
  (files : graph'.files = graph.files.map (Prod.map id (List.map (·.mapMembers change))))
  (avoid : ∀ type ∈ graph.types, type.Avoids hidden)

include files avoid

theorem bindLibrary_concords (claimed : List String) (library : Library) :
    bindLibrary (setting.within other) graph' claimed library = bindLibrary setting graph claimed library := by
  rw [bindLibrary, bindLibrary, Library.partition_map (fun function => function.name_mapMembers change) files]
  cases found : library.partition graph claimed with
  | error error => simp only [Except.map, lift_error_bind]
  | ok result =>
    have signatures : (result.1.map (·.mapMembers change)).mapM (signature (setting.within other)) =
        result.1.mapM (signature setting) := by
      rw [List.mapM_map]
      refine mapM_congr fun function member => signature_concords concords fun type used => ?_
      rw [Library.partition_ok found] at member
      exact avoid type (Library.type_mem (mem_of_claimFunctions member) used)
    have platforms : writePlatform (setting.within other) = writePlatform setting := rfl
    have writes : write (setting.within other) = write setting := rfl
    simp only [Except.map, lift_ok_bind, Prod.map, signatures, platforms, writes, id,
      Setting.constants_within]

/-- Both sessions write the same. -/
theorem writeAll_concords (forced : ∀ name ∈ setting.configuration.forceTypes, name ∉ hidden) :
    Generation.writeAll (setting.within other) graph' = Generation.writeAll setting graph := by
  have libraries := funext fun claimed => funext (bindLibrary_concords concords files avoid claimed)
  rw [Generation.writeAll, Generation.writeAll, forceTypes_concords concords forced, libraries]
  rfl

end

end

end Session

end Interop
