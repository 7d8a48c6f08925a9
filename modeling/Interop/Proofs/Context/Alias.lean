import Mathlib.Logic.Relation
import Interop.Proofs.Context.Naming
import Interop.Proofs.Session.Pointer

/-! Typedefs that become enumerations. The walk down the typedefs ends at a type that is none, at a typedef
that is not declared, or goes round for ever; there are no more distinct typedefs than are declared, so the
bound of the walk decides nothing. The pass only adds enumerations under names of its table, so what a
typedef leads to at its turn is what it led to before. -/
namespace Interop.Context

open Work Session

section

variable (context : Context)

def Leads (name next : String) : Prop :=
  ∃ typedef, context.typedef? name = some typedef ∧ typedef.underlying = .typedef next

/-- The enumeration that a tag refers to, and its index if it is not referred to by name. -/
def enumerationOf? : TagReference → Option (Enumeration × Option Nat)
  | .named name => (context.enumeration? name).map (·, none)
  | .anonymous index => context.anonymous[index]?.map fun entry => (entry.declaration, some index)

/-- A typedef leads round in a circle, or to a typedef that is not declared. -/
inductive Endless (name : String) : Prop where
  | cyclic {other : String} : Relation.ReflTransGen context.Leads name other →
      Relation.TransGen context.Leads other other → Endless name
  | undeclared {other : String} : Relation.ReflTransGen context.Leads name other →
      context.typedef? other = none → Endless name

/-- A typedef does not lead to an enumeration: there is none at its end, and none is made for the table. -/
inductive Misses (strategies : Table TypedefStrategy) (name : String) : Prop where
  | endless : context.Endless name → Misses strategies name
  | untagged {steps : Nat} {type : CType} : Unwraps context steps (.typedef name) type →
      (∀ reference, type ≠ .tag reference) → Misses strategies name
  | outOfRange {steps index : Nat} : Unwraps context steps (.typedef name) (.tag (.anonymous index)) →
      context.anonymous.length ≤ index → Misses strategies name
  | unknown {steps : Nat} {other : String} : Unwraps context steps (.typedef name) (.tag (.named other)) →
      context.enumeration? other = none → (other, .namedEnum) ∉ strategies → Misses strategies name

end

variable {context before middle after : Context} {steps : Nat} {name next other : String} {type underlying : CType}
  {strategies : Table TypedefStrategy}

theorem Leads.unwraps (leads : context.Leads name next) (unwraps : Unwraps context steps (.typedef name) underlying) :
    ∃ rest, steps = rest + 1 ∧ Unwraps context rest (.typedef next) underlying := by
  obtain ⟨typedef, known, stands⟩ := leads
  obtain ⟨typedef', rest, known', unwraps, rfl⟩ := unwraps_typedef_iff.mp unwraps
  obtain rfl := Option.some.inj (known.symm.trans known')
  exact ⟨rest, rfl, stands ▸ unwraps⟩

/-- What a typedef leads to is closer to the end. -/
theorem unwraps_of_reflTransGen (leads : Relation.ReflTransGen context.Leads name other)
    (unwraps : Unwraps context steps (.typedef name) underlying) :
    ∃ rest ≤ steps, Unwraps context rest (.typedef other) underlying := by
  induction leads with
  | refl => exact ⟨steps, Nat.le_refl steps, unwraps⟩
  | tail _ leads ih =>
    obtain ⟨_, less, further⟩ := ih
    obtain ⟨rest, rfl, unwraps⟩ := leads.unwraps further
    exact ⟨rest, Nat.le_of_succ_le less, unwraps⟩

theorem Endless.not_unwraps (endless : context.Endless name) :
    ¬ Unwraps context steps (.typedef name) underlying := by
  intro unwraps
  cases endless with
  | undeclared leads missing =>
    obtain ⟨rest, -, unwraps⟩ := unwraps_of_reflTransGen leads unwraps
    obtain ⟨typedef, _, known, -⟩ := unwraps_typedef_iff.mp unwraps
    cases missing.symm.trans known
  | @cyclic other leads cycle =>
    obtain ⟨whole, -, unwraps⟩ := unwraps_of_reflTransGen leads unwraps
    obtain ⟨next, first, back⟩ := Relation.TransGen.head'_iff.mp cycle
    obtain ⟨shorter, rfl, unwraps'⟩ := first.unwraps unwraps
    obtain ⟨rest, less, again⟩ := unwraps_of_reflTransGen back unwraps'
    have same := (again.unique unwraps).1
    omega

/-- The typedefs passed on the way are distinct, for each is a different number of steps from the end. -/
theorem exists_passed (unwraps : Unwraps context steps type underlying) :
    ∃ names : List String, names.length = steps ∧ names.Nodup ∧ ∀ name ∈ names,
      name ∈ context.typedefs.map (·.1) ∧ ∃ rest ≤ steps, Unwraps context rest (.typedef name) underlying := by
  induction unwraps with
  | bare => exact ⟨[], rfl, List.nodup_nil, nofun⟩
  | @typedef steps name typedef underlying known unwraps ih =>
    obtain ⟨names, rfl, distinct, passed⟩ := ih
    refine ⟨name :: names, rfl, List.nodup_cons.mpr ⟨fun again => ?_, distinct⟩, fun other member => ?_⟩
    · obtain ⟨-, rest, less, unwraps'⟩ := passed name again
      have same := (unwraps'.unique (.typedef known unwraps)).1
      omega
    · rcases List.mem_cons.mp member with rfl | former
      · exact ⟨List.mem_map.mpr ⟨_, Table.mem_of_lookup known, rfl⟩, _, Nat.le_refl _, .typedef known unwraps⟩
      · obtain ⟨declared, rest, less, unwraps⟩ := passed other former
        exact ⟨declared, rest, Nat.le_succ_of_le less, unwraps⟩

theorem steps_le_length (unwraps : Unwraps context steps type underlying) : steps ≤ context.typedefs.length := by
  obtain ⟨names, rfl, distinct, passed⟩ := exists_passed unwraps
  have fewer := distinct.length_le_of_subset fun name member => (passed name member).1
  rwa [List.length_map] at fewer

theorem Endless.of_leads (leads : context.Leads name next) (endless : context.Endless next) :
    context.Endless name := by
  cases endless with
  | cyclic further cycle => exact .cyclic (.head leads further) cycle
  | undeclared further missing => exact .undeclared (.head leads further) missing

/-- By induction on how many declared typedefs have not been passed. -/
theorem exists_unwraps_of_passed {passed : List String} (distinct : passed.Nodup)
    (declared : passed ⊆ context.typedefs.map (·.1))
    (behind : ∀ name ∈ passed, Relation.TransGen context.Leads name other) (finite : ¬ context.Endless other) :
    ∃ steps underlying, Unwraps context steps (.typedef other) underlying := by
  generalize left : context.typedefs.length - passed.length = count
  induction count using Nat.strongRecOn generalizing other passed with
  | ind count ih =>
    subst left
    cases known : context.typedef? other with
    | none => exact absurd (.undeclared .refl known) finite
    | some typedef =>
      have fresh : other ∉ passed := fun again => finite (.cyclic .refl (behind other again))
      have distinct : (other :: passed).Nodup := List.nodup_cons.mpr ⟨fresh, distinct⟩
      have declared : other :: passed ⊆ context.typedefs.map (·.1) :=
        List.cons_subset.mpr ⟨List.mem_map.mpr ⟨_, Table.mem_of_lookup known, rfl⟩, declared⟩
      have room := distinct.length_le_of_subset declared
      rw [List.length_cons, List.length_map] at room
      by_cases further : ∃ next, typedef.underlying = .typedef next
      · obtain ⟨next, stands⟩ := further
        have leads : context.Leads other next := ⟨typedef, known, stands⟩
        have behind (name : String) (member : name ∈ other :: passed) : Relation.TransGen context.Leads name next := by
          rcases List.mem_cons.mp member with rfl | former
          · exact .single leads
          · exact .tail (behind name former) leads
        obtain ⟨steps, underlying, unwraps⟩ := ih _ (by rw [List.length_cons]; omega) distinct declared behind
          (fun endless => finite (endless.of_leads leads)) rfl
        exact ⟨steps + 1, underlying, .typedef known (stands ▸ unwraps)⟩
      · exact ⟨1, typedef.underlying, .typedef known (.bare fun next same => further ⟨next, same⟩)⟩

/-- A typedef that is not endless comes to an end. -/
theorem exists_unwraps_or_endless (name : String) :
    (∃ steps underlying, Unwraps context steps (.typedef name) underlying) ∨ context.Endless name := by
  by_cases endless : context.Endless name
  · exact .inr endless
  · exact .inl (exists_unwraps_of_passed List.nodup_nil (List.nil_subset _) nofun endless)

/-- The walk finds what the type unwraps to, if it is an enumeration and close enough. -/
theorem aliasSource_eq_some_iff {bound : Nat} {found : Enumeration × Option Nat} :
    aliasSource context bound type = some found ↔ ∃ steps reference, steps ≤ bound ∧
      Unwraps context steps type (.tag reference) ∧ context.enumerationOf? reference = some found := by
  induction bound generalizing type with
  | zero =>
    cases type with
    | tag reference => cases reference <;> simp [aliasSource, unwraps_iff_of_plain, enumerationOf?]
    | typedef name => simp [aliasSource, unwraps_typedef_iff]
    | builtin | pointer | function | array => simp [aliasSource, unwraps_iff_of_plain]
  | succ bound ih =>
    cases type with
    | tag reference => cases reference <;> simp [aliasSource, unwraps_iff_of_plain, enumerationOf?]
    | builtin | pointer | function | array => simp [aliasSource, unwraps_iff_of_plain]
    | typedef name =>
      simp only [aliasSource, Option.bind_eq_some_iff, ih, unwraps_typedef_iff]
      constructor
      · rintro ⟨typedef, known, steps, reference, less, unwraps, found⟩
        exact ⟨steps + 1, reference, Nat.succ_le_succ less, ⟨typedef, steps, known, unwraps, rfl⟩, found⟩
      · rintro ⟨_, reference, less, ⟨typedef, steps, known, unwraps, rfl⟩, found⟩
        exact ⟨typedef, known, steps, reference, Nat.le_of_succ_le_succ less, unwraps, found⟩

/-- It ends by itself: with more room it comes to the same. -/
theorem aliasSource_of_le {bound : Nat} (enough : context.typedefs.length ≤ bound) :
    aliasSource context bound type = aliasSource context context.typedefs.length type := by
  refine Option.ext fun found => ?_
  simp only [aliasSource_eq_some_iff]
  constructor
  · rintro ⟨steps, reference, -, unwraps, found⟩
    exact ⟨steps, reference, steps_le_length unwraps, unwraps, found⟩
  · rintro ⟨steps, reference, less, unwraps, found⟩
    exact ⟨steps, reference, less.trans enough, unwraps, found⟩

theorem aliased?_eq_some_iff {found : Enumeration × Option Nat} : context.aliased? name = some found ↔
    ∃ steps reference, Unwraps context steps (.typedef name) (.tag reference) ∧
      context.enumerationOf? reference = some found := by
  simp only [aliased?, Option.bind_eq_some_iff, aliasSource_eq_some_iff, unwraps_typedef_iff]
  constructor
  · rintro ⟨typedef, known, steps, reference, -, unwraps, found⟩
    exact ⟨steps + 1, reference, ⟨typedef, steps, known, unwraps, rfl⟩, found⟩
  · rintro ⟨_, reference, ⟨typedef, steps, known, unwraps, rfl⟩, found⟩
    exact ⟨typedef, known, steps, reference, Nat.le_succ_of_le (steps_le_length unwraps), unwraps, found⟩

/-- What naming typedefs does to a context: enumerations are added, under some names. -/
structure Adds (keys : String → Prop) (before after : Context) : Prop where
  typedefs : after.typedefs = before.typedefs
  held : ∀ name enumeration, before.enumeration? name = some enumeration → after.enumeration? name = some enumeration
  gained : ∀ name enumeration, after.enumeration? name = some enumeration →
    before.enumeration? name = some enumeration ∨ keys name
  declarations : after.anonymous.map (·.declaration) = before.anonymous.map (·.declaration)
  named : ∀ index name, before.anonymousName? index = some name → after.anonymousName? index = some name

variable {keys : String → Prop}

theorem frame_adds : Frame (Adds keys) where
  refl _ := ⟨rfl, fun _ _ => id, fun _ _ => .inl, rfl, fun _ _ => id⟩
  trans early late := by
    refine ⟨late.typedefs.trans early.typedefs, fun name enumeration held => late.held _ _ (early.held _ _ held), ?_,
      late.declarations.trans early.declarations, fun index name got => late.named _ _ (early.named _ _ got)⟩
    intro name enumeration found
    rcases late.gained name enumeration found with former | key
    · exact early.gained name enumeration former
    · exact .inr key

theorem adds_append (fresh : before.tag? name = none) (key : keys name) (enumeration : Enumeration) :
    Adds keys before (before.append name (.enumeration enumeration)) := by
  have other {other : String} (different : other ≠ name) :
      (before.append name (.enumeration enumeration)).enumeration? other = before.enumeration? other :=
    enumeration?_congr ((tag?_append fresh other).trans (if_neg different))
  refine ⟨rfl, fun name' held found => ?_, fun name' held found => ?_, rfl, fun _ _ => id⟩
  · rwa [other]
    rintro rfl
    cases (tag?_eq_none_iff.mp fresh).2.symm.trans found
  · by_cases same : name' = name
    · exact .inr (same ▸ key)
    · exact .inl (other same ▸ found)

theorem adds_nameIfUnnamed (index : Nat) (name : String) : Adds keys before (before.nameIfUnnamed index name) := by
  rw [nameIfUnnamed]
  split
  · next unnamed =>
    refine ⟨rfl, fun _ _ => id, fun _ _ => .inl, declarations_nameAnonymous index, fun other name' got => ?_⟩
    rw [anonymousName?_nameAnonymous, if_neg, got]
    rintro rfl
    rw [got] at unnamed
    cases unnamed
  · exact frame_adds.refl before

theorem Adds.unwraps_iff (adds : Adds keys before after) :
    Unwraps after steps type underlying ↔ Unwraps before steps type underlying := by
  have same (name : String) : after.typedef? name = before.typedef? name := by
    rw [typedef?, adds.typedefs, typedef?]
  constructor
  · intro unwraps
    induction unwraps with
    | bare plain => exact .bare plain
    | typedef known _ ih => exact .typedef (same _ ▸ known) ih
  · intro unwraps
    induction unwraps with
    | bare plain => exact .bare plain
    | typedef known _ ih => exact .typedef ((same _).trans known) ih

theorem Adds.enumerationOf? (adds : Adds keys before after) {reference : TagReference}
    {found : Enumeration × Option Nat} (held : before.enumerationOf? reference = some found) :
    after.enumerationOf? reference = some found := by
  cases reference with
  | named name =>
    obtain ⟨enumeration, here, rfl⟩ := Option.map_eq_some_iff.mp held
    rw [Context.enumerationOf?, adds.held name enumeration here, Option.map_some]
  | anonymous index =>
    obtain ⟨entry, here, rfl⟩ := Option.map_eq_some_iff.mp held
    have same := congrArg (·[index]?) adds.declarations
    simp only [List.getElem?_map, here, Option.map_some, Option.map_eq_some_iff] at same
    obtain ⟨entry', here', same⟩ := same
    rw [Context.enumerationOf?, here', Option.map_some, same]

/-- What is found at a tag after other typedefs had their turns was there before, or has been made. -/
theorem Adds.isSome_enumerationOf? (adds : Adds keys before after) {reference : TagReference}
    (found : (after.enumerationOf? reference).isSome) : (before.enumerationOf? reference).isSome ∨
      ∃ name, reference = .named name ∧ keys name := by
  cases reference with
  | named name =>
    rw [Context.enumerationOf?, Option.isSome_map] at found
    obtain ⟨enumeration, here⟩ := Option.isSome_iff_exists.mp found
    rcases adds.gained name enumeration here with former | key
    · exact .inl (by simp [Context.enumerationOf?, former])
    · exact .inr ⟨name, rfl, key⟩
  | anonymous index =>
    have same := congrArg List.length adds.declarations
    simp only [List.length_map] at same
    simp only [Context.enumerationOf?, Option.isSome_map, isSome_getElem?] at found ⊢
    exact .inl (same ▸ found)

/-- One turn of the pass. -/
theorem gives_aliasTypedef {strategy : TypedefStrategy} : Gives (aliasTypedef name strategy) before ⟨⟩ after ↔
    (¬ (strategy = .namedEnum ∧ before.enumeration? name = none ∧ (before.aliased? name).isSome) ∧ after = before) ∨
    (strategy = .namedEnum ∧ before.enumeration? name = none ∧ ∃ source index extended,
      before.aliased? name = some (source, index) ∧
      before.insertEnumeration { source with name := some name } = .ok extended ∧
      after = index.elim extended (extended.nameIfUnnamed · name)) := by
  rw [Gives, aliasTypedef, outcome_bind, outcome_get]
  simp only
  split
  · next chosen =>
    have absent : before.enumeration? name = none := Option.isNone_iff_eq_none.mp chosen.2
    simp only [chosen.1, absent, true_and]
    cases before.aliased? name with
    | none => simp [eq_comm]
    | some found =>
      obtain ⟨source, index⟩ := found
      cases inserted : before.insertEnumeration { source with name := some name } with
      | error error => simp [outcome_bind, inserted]
      | ok extended => cases index <;> simp [outcome_bind, inserted, eq_comm]
  · next other =>
    have left : ¬ (strategy = .namedEnum ∧ before.enumeration? name = none ∧ (before.aliased? name).isSome) :=
      fun chosen => other ⟨chosen.1, Option.isNone_iff_eq_none.mpr chosen.2.1⟩
    rw [outcome_pure, Prod.mk.injEq, eq_comm (a := before)]
    constructor
    · exact fun same => .inl ⟨left, same.2⟩
    · rintro (⟨-, same⟩ | ⟨strategy, absent, -⟩)
      · exact ⟨rfl, same⟩
      · exact absurd ⟨strategy, Option.isNone_iff_eq_none.mpr absent⟩ other

theorem adds_aliasTypedef {strategy : TypedefStrategy} (key : strategy = .namedEnum → keys name) :
    Keeps (Adds keys) (aliasTypedef name strategy) := by
  intro context
  rw [aliasTypedef, outcome_bind, outcome_get]
  simp only
  split
  · next chosen =>
    split
    · exact frame_adds.refl context
    · next source index _ =>
      cases inserted : context.insertEnumeration { source with name := some name } with
      | error error => exact frame_adds.refl context
      | ok extended =>
        have adds : Adds keys context extended := by
          rcases insertEnumeration_ok inserted with ⟨-, rfl⟩ | ⟨-, fresh, rfl⟩
          · exact frame_adds.refl extended
          · exact adds_append fresh (key chosen.1) _
        cases index with
        | none => exact adds
        | some index => exact frame_adds.trans adds (adds_nameIfUnnamed index name)
  · exact frame_adds.refl context

theorem adds_aliasAll (among : ∀ name, (name, .namedEnum) ∈ strategies → keys name) :
    Keeps (Adds keys) (aliasAll strategies) := by
  unfold aliasAll
  refine frame_adds.forM fun entry member => adds_aliasTypedef fun chosen => among entry.1 ?_
  rwa [← chosen]

theorem gives_aliasAll_cons {entry : String × TypedefStrategy} :
    Gives (aliasAll (entry :: strategies)) before ⟨⟩ after ↔ ∃ middle,
      Gives (aliasTypedef entry.1 entry.2) before ⟨⟩ middle ∧ Gives (aliasAll strategies) middle ⟨⟩ after := by
  rw [aliasAll, List.forM_eq_forM, List.forM_cons, gives_bind]
  exact ⟨fun ⟨_, middle, first, rest⟩ => ⟨middle, first, rest⟩,
    fun ⟨middle, first, rest⟩ => ⟨⟨⟩, middle, first, rest⟩⟩

theorem enumeration?_nameIfUnnamed (index : Nat) (name other : String) :
    (context.nameIfUnnamed index name).enumeration? other = context.enumeration? other := by
  rw [nameIfUnnamed]
  split <;> rfl

theorem isSome_anonymousName?_nameIfUnnamed {index : Nat} (listed : index < context.anonymous.length) :
    ((context.nameIfUnnamed index name).anonymousName? index).isSome := by
  rw [nameIfUnnamed]
  split
  · rw [anonymousName?_nameAnonymous, if_pos rfl, List.getElem?_eq_getElem listed]
    rfl
  · next named => simpa [Option.isSome_iff_ne_none] using named

/-- A typedef gets the enumeration it leads to at its turn. -/
theorem enumeration?_of_aliasTypedef {source : Enumeration} {index : Option Nat}
    (gives : Gives (aliasTypedef name .namedEnum) before ⟨⟩ after) (filled : name ≠ "")
    (absent : before.enumeration? name = none) (leads : before.aliased? name = some (source, index)) :
    after.enumeration? name = some { source with name := some name } ∧ ∀ position, index = some position →
      position < before.anonymous.length → (after.anonymousName? position).isSome := by
  rcases gives_aliasTypedef.mp gives with ⟨skipped, -⟩ | ⟨-, -, source', index', extended, leads', inserted, rfl⟩
  · exact absurd ⟨rfl, absent, by rw [leads]; rfl⟩ skipped
  obtain ⟨rfl, rfl⟩ := Prod.mk.inj (Option.some.inj (leads.symm.trans leads'))
  obtain ⟨-, fresh, rfl⟩ := (insertEnumeration_ok inserted).resolve_left fun empty => filled empty.1
  have made : (before.append name (.enumeration { source with name := some name })).enumeration? name =
      some { source with name := some name } := by
    rw [enumeration?, tag?_append fresh, if_pos rfl]
  cases index with
  | none =>
    refine ⟨made, ?_⟩
    rintro _ ⟨⟩
  | some index =>
    refine ⟨(enumeration?_nameIfUnnamed index name name).trans made, ?_⟩
    rintro _ ⟨⟩ listed
    exact isSome_anonymousName?_nameIfUnnamed listed

/-- A name that gets an enumeration in a turn is that of a typedef that led to one. -/
theorem turn_of_gained {key : String} {strategy : TypedefStrategy} {enumeration : Enumeration}
    (gives : Gives (aliasTypedef key strategy) before ⟨⟩ after) (absent : before.enumeration? name = none)
    (gained : after.enumeration? name = some enumeration) :
    (key, strategy) = (name, .namedEnum) ∧ (before.aliased? name).isSome := by
  rcases gives_aliasTypedef.mp gives with ⟨-, rfl⟩ | ⟨rfl, -, source, index, -, leads, -, -⟩
  · cases absent.symm.trans gained
  have adds : Adds (key = ·) before after := (adds_aliasTypedef fun _ => rfl).of_gives gives
  rcases adds.gained name enumeration gained with former | rfl
  · cases absent.symm.trans former
  · exact ⟨rfl, by rw [leads]; rfl⟩

/-- By induction on the table: the turn in which an enumeration is gained finds the context with some
enumerations added. -/
theorem exists_turn_of_gained {enumeration : Enumeration} (among : ∀ key, (key, .namedEnum) ∈ strategies → keys key)
    (gives : Gives (aliasAll strategies) before ⟨⟩ after) (absent : before.enumeration? name = none)
    (gained : after.enumeration? name = some enumeration) :
    ∃ middle, Adds keys before middle ∧ (middle.aliased? name).isSome := by
  induction strategies generalizing before with
  | nil =>
    obtain ⟨-, rfl⟩ := gives_pure.mp gives
    cases absent.symm.trans gained
  | cons entry strategies ih =>
    obtain ⟨middle, first, rest⟩ := gives_aliasAll_cons.mp gives
    cases held : middle.enumeration? name with
    | some _ => exact ⟨before, frame_adds.refl before, (turn_of_gained first absent held).2⟩
    | none =>
      have early : Adds keys before middle := (adds_aliasTypedef fun chosen =>
        among entry.1 (chosen ▸ List.mem_cons_self)).of_gives first
      obtain ⟨turn, late, leads⟩ := ih (fun key member => among key (List.mem_cons_of_mem entry member)) rest held
      exact ⟨turn, frame_adds.trans early late, leads⟩

/-- The first turn of a typedef finds the context with some enumerations added, and not its own. -/
theorem exists_turn (among : ∀ key, (key, .namedEnum) ∈ strategies → keys key)
    (gives : Gives (aliasAll strategies) before ⟨⟩ after) (member : (name, .namedEnum) ∈ strategies)
    (absent : before.enumeration? name = none) :
    ∃ middle next, Adds keys before middle ∧ middle.enumeration? name = none ∧
      Gives (aliasTypedef name .namedEnum) middle ⟨⟩ next ∧ Adds keys next after := by
  induction strategies generalizing before with
  | nil => cases member
  | cons entry strategies ih =>
    obtain ⟨middle, first, rest⟩ := gives_aliasAll_cons.mp gives
    have others (key : String) (member : (key, .namedEnum) ∈ strategies) : keys key :=
      among key (List.mem_cons_of_mem entry member)
    by_cases own : entry = (name, .namedEnum)
    · subst own
      exact ⟨before, middle, frame_adds.refl before, absent, first, (adds_aliasAll others).of_gives rest⟩
    · have absent : middle.enumeration? name = none := by
        by_contra gained
        obtain ⟨enumeration, found⟩ := Option.ne_none_iff_exists'.mp gained
        exact own (turn_of_gained first absent found).1
      have early : Adds keys before middle := (adds_aliasTypedef fun chosen =>
        among entry.1 (chosen ▸ List.mem_cons_self)).of_gives first
      have later : (name, .namedEnum) ∈ strategies := (List.mem_cons.mp member).resolve_left (Ne.symm own)
      obtain ⟨turn, next, adds, still, turned, rest⟩ := ih others rest later absent
      exact ⟨turn, next, frame_adds.trans early adds, still, turned, rest⟩

/-- A typedef that leads to a tag gets the enumeration that the tag referred to before the pass. -/
theorem enumeration?_of_aliasAll {source : Enumeration} {index : Option Nat} {reference : TagReference}
    (gives : Gives (aliasAll strategies) before ⟨⟩ after) (member : (name, .namedEnum) ∈ strategies)
    (filled : name ≠ "") (absent : before.enumeration? name = none)
    (unwraps : Unwraps before steps (.typedef name) (.tag reference))
    (held : before.enumerationOf? reference = some (source, index)) :
    after.enumeration? name = some { source with name := some name } ∧ ∀ position, index = some position →
      position < before.anonymous.length → (after.anonymousName? position).isSome := by
  obtain ⟨turn, next, early, absent, turned, late⟩ :=
    exists_turn (fun _ member => member) gives member absent
  have leads := aliased?_eq_some_iff.mpr ⟨steps, reference, early.unwraps_iff.mpr unwraps, early.enumerationOf? held⟩
  obtain ⟨made, named⟩ := enumeration?_of_aliasTypedef turned filled absent leads
  have listed : turn.anonymous.length = before.anonymous.length := by
    simpa only [List.length_map] using congrArg List.length early.declarations
  refine ⟨late.held name _ made, fun position own within => ?_⟩
  obtain ⟨given, got⟩ := Option.isSome_iff_exists.mp (named position own (listed.symm ▸ within))
  rw [late.named position given got]
  rfl

/-- A typedef that gains an enumeration does not miss. -/
theorem enumeration?_of_misses (gives : Gives (aliasAll strategies) before ⟨⟩ after)
    (absent : before.enumeration? name = none) (misses : before.Misses strategies name) :
    after.enumeration? name = none := by
  by_contra gained
  obtain ⟨enumeration, gained⟩ := Option.ne_none_iff_exists'.mp gained
  obtain ⟨turn, adds, leads⟩ :=
    exists_turn_of_gained (fun _ member => member) gives absent gained
  obtain ⟨found, leads⟩ := Option.isSome_iff_exists.mp leads
  obtain ⟨steps, reference, unwraps, held⟩ := aliased?_eq_some_iff.mp leads
  have unwraps := adds.unwraps_iff.mp unwraps
  have held := adds.isSome_enumerationOf? (by rw [held]; rfl : (turn.enumerationOf? reference).isSome)
  cases misses with
  | endless endless => exact endless.not_unwraps unwraps
  | untagged unwraps' untagged => exact untagged reference (unwraps'.unique unwraps).2
  | outOfRange unwraps' beyond =>
    obtain rfl := CType.tag.inj (unwraps'.unique unwraps).2
    rcases held with held | ⟨_, other, -⟩
    · rw [enumerationOf?, List.getElem?_eq_none beyond] at held
      cases held
    · cases other
  | unknown unwraps' unknown unmade =>
    obtain rfl := CType.tag.inj (unwraps'.unique unwraps).2
    rcases held with held | ⟨_, same, made⟩
    · rw [enumerationOf?, unknown] at held
      cases held
    · cases same
      exact unmade made

/-- What the pass makes of the table. A typedef that is to be an enumeration, and is none yet, gets the one that
it leads to, with its kind and its items, under its own name; an enumeration without a name has one afterwards.
A typedef that misses gains nothing, and every typedef leads to a tag or misses. All else stays as it was, and the
walk down the typedefs ends by itself, whatever they lead to. -/
theorem aliasAll_configured (gives : Gives (aliasAll strategies) before ⟨⟩ after) :
    (∀ name, (name, .namedEnum) ∈ strategies → before.enumeration? name = none →
      (∀ steps other source, name ≠ "" → Unwraps before steps (.typedef name) (.tag (.named other)) →
        before.enumeration? other = some source → after.enumeration? name = some { source with name := some name }) ∧
      (∀ steps index entry, name ≠ "" → Unwraps before steps (.typedef name) (.tag (.anonymous index)) →
        before.anonymous[index]? = some entry →
        after.enumeration? name = some { entry.declaration with name := some name } ∧
        (after.anonymousName? index).isSome) ∧
      (before.Misses strategies name → after.enumeration? name = none) ∧
      ((∃ steps reference, Unwraps before steps (.typedef name) (.tag reference)) ∨ before.Misses strategies name)) ∧
    (∀ name enumeration, after.enumeration? name = some enumeration →
      before.enumeration? name = some enumeration ∨ (name, .namedEnum) ∈ strategies) ∧
    (∀ name enumeration, before.enumeration? name = some enumeration → after.enumeration? name = some enumeration) ∧
    (∀ index name, before.anonymousName? index = some name → after.anonymousName? index = some name) ∧
    (∀ name, after.struct? name = before.struct? name) ∧
    (∀ name, after.typedef? name = before.typedef? name) ∧
    ∀ bound type, before.typedefs.length ≤ bound →
      aliasSource before bound type = aliasSource before before.typedefs.length type := by
  have adds := (adds_aliasAll fun _ member => member).of_gives gives
  have grows := (grows_aliasAll strategies).of_gives gives
  refine ⟨fun name member absent => ⟨?_, ?_, enumeration?_of_misses gives absent, ?_⟩, adds.gained, adds.held,
    adds.named, grows.structs, fun name => ?_, fun bound type => aliasSource_of_le⟩
  · intro steps other source filled unwraps held
    have found : before.enumerationOf? (.named other) = some (source, none) := by
      rw [enumerationOf?, held, Option.map_some]
    exact (enumeration?_of_aliasAll gives member filled absent unwraps found).1
  · intro steps index entry filled unwraps held
    have found : before.enumerationOf? (.anonymous index) = some (entry.declaration, some index) := by
      rw [enumerationOf?, held, Option.map_some]
    obtain ⟨made, named⟩ := enumeration?_of_aliasAll gives member filled absent unwraps found
    exact ⟨made, named index rfl (List.getElem?_eq_some_iff.mp held).1⟩
  · rcases exists_unwraps_or_endless name with ⟨steps, type, unwraps⟩ | endless
    · by_cases tagged : ∃ reference, type = .tag reference
      · obtain ⟨reference, rfl⟩ := tagged
        exact .inl ⟨steps, reference, unwraps⟩
      · exact .inr (.untagged unwraps fun reference same => tagged ⟨reference, same⟩)
    · exact .inr (.endless endless)
  · rw [typedef?, grows.typedefs, typedef?]

/-- Typedefs of an enumeration, of one without a name, of each other, and of a number. -/
def hueGraph : Graph := ⟨[{
  fileName := "hue.h"
  structs := []
  enums := [⟨some "Color", .unsignedInt, [⟨"RED", .signed 0⟩, ⟨"BLUE", .signed 7⟩]⟩,
    ⟨none, .int, [⟨"FLAG_A", .signed 1⟩]⟩]
  typedefs := [⟨"Hue", .typedef ("Shade")⟩, ⟨"Shade", .tag (.named "Color")⟩, ⟨"Flags", .tag (.anonymous 0)⟩,
    ⟨"Round", .typedef ("Back")⟩, ⟨"Back", .typedef ("Round")⟩, ⟨"Count", .builtin .int⟩]
  functions := []
  macros := [] }]⟩

def hueContext : Context := ((index hueGraph).toOption).getD .empty

def hueStrategies : Table TypedefStrategy :=
  [("Count", .namedEnum), ("Flags", .namedEnum), ("Hue", .namedEnum), ("Round", .namedEnum)]

theorem aliasAll_configured_hue : index hueGraph = .ok hueContext ∧
    ∃ after, Gives (aliasAll hueStrategies) hueContext ⟨⟩ after ∧
      after.enumeration? "Hue" = some ⟨some "Hue", .unsignedInt, [⟨"RED", .signed 0⟩, ⟨"BLUE", .signed 7⟩]⟩ ∧
      after.enumeration? "Flags" = some ⟨some "Flags", .int, [⟨"FLAG_A", .signed 1⟩]⟩ ∧
      (after.anonymousName? 0).isSome ∧ after.enumeration? "Round" = none ∧ after.enumeration? "Count" = none := by
  have indexed : index hueGraph = .ok hueContext := rfl
  obtain ⟨after, gives⟩ : ∃ after, Gives (aliasAll hueStrategies) hueContext ⟨⟩ after := ⟨_, rfl⟩
  have configured := (aliasAll_configured gives).1
  have shade : Unwraps hueContext 1 (.typedef ("Shade")) (.tag (.named "Color")) := .typedef rfl (.bare nofun)
  have flags : Unwraps hueContext 1 (.typedef ("Flags")) (.tag (.anonymous 0)) := .typedef rfl (.bare nofun)
  have count : Unwraps hueContext 1 (.typedef ("Count")) (.builtin .int) := .typedef rfl (.bare nofun)
  have there : hueContext.Leads "Round" "Back" := ⟨_, rfl, rfl⟩
  have back : hueContext.Leads "Back" "Round" := ⟨_, rfl, rfl⟩
  obtain ⟨named, -⟩ := configured "Hue" (by decide) rfl
  obtain ⟨-, anonymous, -⟩ := configured "Flags" (by decide) rfl
  obtain ⟨-, -, round, -⟩ := configured "Round" (by decide) rfl
  obtain ⟨-, -, counted, -⟩ := configured "Count" (by decide) rfl
  obtain ⟨made, got⟩ := anonymous 1 0 _ (by decide) flags rfl
  exact ⟨indexed, after, gives, named 2 "Color" _ (by decide) (.typedef rfl shade) rfl, made, got,
    round (.endless (.cyclic .refl (.head there (.single back)))), counted (.untagged count nofun)⟩

end Interop.Context
