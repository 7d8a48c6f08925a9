import Interop.Proofs.Context.Description

/-! What becomes of enumerations without a name. One that stays without is reported, and one that
gets a name finds its members under it, unless that name is the empty one: no enumeration can have
it, so an enumeration that gets it is neither reported nor generated. -/
namespace Interop

section

variable {items added merged : List EnumItem}

theorem subset_of_mergeItems {collision : Option String}
    (merge : mergeItems items added = (merged, collision)) : items ⊆ merged := by
  induction added generalizing items with
  | nil =>
    cases merge
    exact List.Subset.refl _
  | cons item rest ih =>
    rw [mergeItems] at merge
    split at merge
    · exact List.Subset.trans (List.subset_append_left items [item]) (ih merge)
    · split at merge
      · exact ih merge
      · cases merge
        exact List.Subset.refl _

/-- Without a collision, all members that were to be added are there. -/
theorem added_subset_of_mergeItems (merge : mergeItems items added = (merged, none)) : added ⊆ merged := by
  induction added generalizing items with
  | nil => exact List.nil_subset _
  | cons item rest ih =>
    rw [mergeItems] at merge
    split at merge
    · have kept := subset_of_mergeItems merge (List.mem_append_right items List.mem_cons_self)
      exact List.cons_subset.mpr ⟨kept, ih merge⟩
    · next existing found =>
      split at merge
      · next same =>
        have name : existing.name = item.name := by simpa using List.find?_some found
        obtain rfl : existing = item := by
          cases existing
          cases item
          simp_all
        have kept := subset_of_mergeItems merge (List.mem_of_find?_eq_some found)
        exact List.cons_subset.mpr ⟨kept, ih merge⟩
      · cases merge

end

theorem mem_of_longestOpening {name opening : String} {openings : List String}
    (found : longestOpening name openings = some opening) : opening ∈ openings := by
  rw [longestOpening] at found
  revert found
  refine List.foldlRecOn openings _ (motive := fun best => best = some opening → opening ∈ openings) nofun ?_
  intro best ih other member
  split
  · rintro ⟨⟩
    exact member
  · exact ih

namespace Context

open Work

/-- An enumeration without a name is reported, or has got a name that stands for an enumeration
with all its members. -/
def Accounted (context : Context) (registered : List String) (position : Nat)
    (enumeration : Enumeration) : Prop :=
  (context.anonymousName? position = none ∧
      (TagReference.anonymous position).display ∈ context.orphans registered) ∨
    ∃ name target, context.anonymousName? position = some name ∧
      context.enumeration? name = some target ∧ enumeration.items ⊆ target.items

def Offers (context : Context) (name : String) (items : List EnumItem) : Prop :=
  ∃ target, context.enumeration? name = some target ∧ items ⊆ target.items

/-- Every name that one of the enumerations without a name has got stands for its members or, where
the naming allows for it, is empty. -/
structure Accounts (blank : Prop) (enums : List Enumeration) (context : Context) : Prop where
  declarations : context.anonymous.map (·.declaration) = enums
  nameless : context.enumeration? "" = none
  named : ∀ position name, context.anonymousName? position = some name →
    (name = "" ∧ blank) ∨
      ∀ enumeration, enums[position]? = some enumeration → Offers context name enumeration.items

section

variable {blank : Prop} {enums : List Enumeration} {context after : Context} {name : String}

theorem anonymousName?_nameAnonymous (position other : Nat) :
    (context.nameAnonymous position name).anonymousName? other =
      if position = other then context.anonymous[other]?.map fun _ => name
      else context.anonymousName? other := by
  simp only [anonymousName?, nameAnonymous, List.getElem?_modify]
  by_cases same : position = other
  · cases context.anonymous[other]? <;> simp [same]
  · cases context.anonymous[other]? <;> simp [same]

theorem declarations_nameAnonymous (position : Nat) :
    (context.nameAnonymous position name).anonymous.map (·.declaration) = context.anonymous.map (·.declaration) := by
  apply List.ext_getElem?
  intro other
  simp only [nameAnonymous, List.getElem?_map, List.getElem?_modify]
  by_cases same : position = other
  · cases context.anonymous[other]? <;> simp [same]
  · cases context.anonymous[other]? <;> simp [same]

/-- Enumerations may get more members. -/
theorem Accounts.extend (accounts : Accounts blank enums context)
    (anonymous : after.anonymous = context.anonymous) (nameless : after.enumeration? "" = none)
    (offers : ∀ name items, Offers context name items → Offers after name items) :
    Accounts blank enums after where
  declarations := by rw [anonymous, accounts.declarations]
  nameless := nameless
  named position name got := by
    rw [anonymousName?, anonymous] at got
    rcases accounts.named position name got with empty | held
    · exact .inl empty
    · exact .inr fun enumeration member => offers _ _ (held enumeration member)

/-- An enumeration may get a name that stands for its members. -/
theorem Accounts.nameAnonymous (accounts : Accounts blank enums context) {position : Nat}
    (fits : (name = "" ∧ blank) ∨
      ∀ enumeration, enums[position]? = some enumeration → Offers context name enumeration.items) :
    Accounts blank enums (context.nameAnonymous position name) where
  declarations := (declarations_nameAnonymous position).trans accounts.declarations
  nameless := accounts.nameless
  named other name' got := by
    rw [anonymousName?_nameAnonymous] at got
    split at got
    · next same =>
      obtain ⟨entry, -, rfl⟩ := Option.map_eq_some_iff.mp got
      subst same
      exact fits
    · exact accounts.named other name' got

/-- A fresh enumeration may be added. -/
theorem Accounts.append (accounts : Accounts blank enums context) (fresh : context.tag? name = none)
    (given : name ≠ "") (enumeration : Enumeration) :
    Accounts blank enums (context.append name (.enumeration enumeration)) := by
  refine accounts.extend rfl ?_ fun other items => ?_
  · rw [enumeration?_congr ((tag?_append fresh "").trans (if_neg (Ne.symm given)))]
    exact accounts.nameless
  · rintro ⟨target, found, held⟩
    have different : other ≠ name := by
      rintro rfl
      rw [(tag?_eq_none_iff.mp fresh).2] at found
      cases found
    refine ⟨target, ?_, held⟩
    rw [enumeration?_congr ((tag?_append fresh other).trans (if_neg different)), found]

/-- An enumeration may get more members. -/
theorem Accounts.replace (accounts : Accounts blank enums context) {former enumeration : Enumeration}
    (held : context.enumeration? name = some former) (more : former.items ⊆ enumeration.items) :
    Accounts blank enums (context.replace name (.enumeration enumeration)) := by
  have tag := enumeration?_eq_some_iff.mp held
  refine accounts.extend rfl ?_ fun other items => ?_
  · have given : "" ≠ name := by
      rintro rfl
      rw [accounts.nameless] at held
      cases held
    rw [enumeration?_congr ((tag?_replace "").trans (if_neg given))]
    exact accounts.nameless
  · rintro ⟨target, found, members⟩
    by_cases same : other = name
    · subst same
      obtain rfl := Option.some.inj (held.symm.trans found)
      refine ⟨enumeration, ?_, List.Subset.trans members more⟩
      rw [enumeration?, tag?_replace, if_pos rfl, tag, Option.map_some]
    · refine ⟨target, ?_, members⟩
      rw [enumeration?_congr ((tag?_replace other).trans (if_neg same)), found]

/-- What inserting an enumeration does: nothing if its name is empty. -/
theorem insertEnumeration_ok {underlying : Primitive} {items : List EnumItem}
    (inserted : context.insertEnumeration ⟨some name, underlying, items⟩ = .ok after) :
    (name = "" ∧ after = context) ∨ (name ≠ "" ∧ context.tag? name = none ∧
      after = context.append name (.enumeration ⟨some name, underlying, items⟩)) := by
  rw [insertEnumeration] at inserted
  by_cases empty : name = ""
  · have own : Enumeration.declaredName? ⟨some name, underlying, items⟩ = none := by
      simp [Enumeration.declaredName?, empty]
    rw [own] at inserted
    cases inserted
    exact .inl ⟨empty, rfl⟩
  · have own : Enumeration.declaredName? ⟨some name, underlying, items⟩ = some name := by
      simp [Enumeration.declaredName?, empty]
    rw [own] at inserted
    simp only at inserted
    split at inserted
    · cases inserted
    · next unknown =>
      cases inserted
      exact .inr ⟨empty, by simpa [isKnown] using unknown, rfl⟩

/-- An inserted enumeration is there under its name, if that is not empty. -/
theorem Accounts.insert (accounts : Accounts blank enums context) {underlying : Primitive}
    {items : List EnumItem} (allowed : name = "" → blank)
    (inserted : context.insertEnumeration ⟨some name, underlying, items⟩ = .ok after) :
    Accounts blank enums after ∧ ((name = "" ∧ blank) ∨ Offers after name items) := by
  rcases insertEnumeration_ok inserted with ⟨empty, rfl⟩ | ⟨given, fresh, rfl⟩
  · exact ⟨accounts, .inl ⟨empty, allowed empty⟩⟩
  · refine ⟨accounts.append fresh given _, .inr ⟨⟨some name, underlying, items⟩, ?_, List.Subset.refl items⟩⟩
    rw [enumeration?, tag?_append fresh, if_pos rfl]

theorem accounts_unifyAt {openings : List String} (allowed : "" ∈ openings → blank) (made : List String)
    {position : Nat} {enumeration : Enumeration} (own : enums[position]? = some enumeration) :
    Keeps (fun before after => Accounts blank enums before → Accounts blank enums after)
      (unifyAt openings made position enumeration) := by
  have only {other : Enumeration} (member : enums[position]? = some other) : other = enumeration :=
    Option.some.inj (member.symm.trans own)
  intro context
  rw [unifyAt, outcome_bind, outcome_get]
  simp only
  split
  · exact id
  · next name unified =>
    obtain ⟨first, -, longest⟩ := Option.bind_eq_some_iff.mp unified
    have allowed (empty : name = "") : blank := allowed (empty ▸ mem_of_longestOpening longest)
    split
    · split
      · exact id
      · next target held =>
        rcases merge : mergeItems target.items enumeration.items with ⟨items, collision⟩
        intro accounts
        have merged : Accounts blank enums (context.replace name (.enumeration { target with items })) :=
          accounts.replace held (subset_of_mergeItems merge)
        cases collision with
        | some memberName => exact merged
        | none =>
          refine merged.nameAnonymous (.inr fun other member => ?_)
          rw [only member]
          have tag := enumeration?_eq_some_iff.mp held
          refine ⟨{ target with items }, ?_, added_subset_of_mergeItems merge⟩
          rw [enumeration?, tag?_replace, if_pos rfl, tag, Option.map_some]
    · split
      · exact id
      · next items merge =>
        cases inserted : context.insertEnumeration ⟨some name, enumeration.underlying, items⟩ with
        | error error => exact id
        | ok extended =>
          intro accounts
          obtain ⟨accounts', offers⟩ := accounts.insert allowed inserted
          refine accounts'.nameAnonymous (offers.imp_right ?_)
          rintro ⟨target, found, held⟩ other member
          rw [only member]
          exact ⟨target, found, List.Subset.trans (added_subset_of_mergeItems merge) held⟩

/-- The enumeration that a typedef leads to has its members at its index, if it has no name. -/
theorem declaration_of_aliasSource {bound position : Nat} {type : CType} {source : Enumeration}
    (found : context.aliasSource bound type = some (source, some position)) :
    (context.anonymous.map (·.declaration))[position]? = some source := by
  fun_induction aliasSource context bound type with
  | case1 bound name => simp at found
  | case2 bound index =>
    simp only [Option.map_eq_some_iff, Prod.mk.injEq, Option.some.injEq] at found
    obtain ⟨entry, held, rfl, rfl⟩ := found
    rw [List.getElem?_map, held, Option.map_some]
  | case3 bound name ih =>
    obtain ⟨typedef, -, rest⟩ := Option.bind_eq_some_iff.mp found
    exact ih typedef rest
  | case4 => cases found

theorem accounts_aliasTypedef {strategy : TypedefStrategy} (allowed : name = "" → strategy = .namedEnum → blank) :
    Keeps (fun before after => Accounts blank enums before → Accounts blank enums after)
      (aliasTypedef name strategy) := by
  intro context
  rw [aliasTypedef, outcome_bind, outcome_get]
  simp only
  split
  · next chosen =>
    split
    · exact id
    · next source index aliased =>
      cases inserted : context.insertEnumeration { source with name := some name } with
      | error error => exact id
      | ok extended =>
        intro accounts
        obtain ⟨accounts', offers⟩ := accounts.insert (fun empty => allowed empty chosen.1) inserted
        cases index with
        | none => exact accounts'
        | some position =>
          obtain ⟨typedef, -, found⟩ := Option.bind_eq_some_iff.mp aliased
          have own := declaration_of_aliasSource found
          rw [accounts.declarations] at own
          change Accounts blank enums (extended.nameIfUnnamed position name)
          rw [nameIfUnnamed]
          split
          · refine accounts'.nameAnonymous (offers.imp_right fun offers other member => ?_)
            obtain rfl := Option.some.inj (member.symm.trans own)
            exact offers
          · exact accounts'
  · exact id

theorem frame_accounts :
    Frame fun before after => Accounts blank enums before → Accounts blank enums after :=
  ⟨fun _ => id, fun early late => late ∘ early⟩

theorem accounts_unify {openings : List String} (allowed : "" ∈ openings → blank) :
    Keeps (fun before after => Accounts blank enums before → Accounts blank enums after) (unify openings) := by
  intro context accounts
  rw [unify, outcome_bind, outcome_get]
  refine frame_accounts.bind (frame_accounts.foldlM (fun made entry member => ?_) [])
    (fun _ => frame_accounts.pure _) context accounts
  have held : context.anonymous[entry.2]? = some entry.1 := List.mem_zipIdx_iff_getElem?.mp member
  refine accounts_unifyAt allowed made ?_
  rw [← accounts.declarations, List.getElem?_map, held, Option.map_some]

theorem accounts_aliasAll {strategies : Table TypedefStrategy} (allowed : ("", .namedEnum) ∈ strategies → blank) :
    Keeps (fun before after => Accounts blank enums before → Accounts blank enums after) (aliasAll strategies) := by
  unfold aliasAll
  refine frame_accounts.forM fun (name, strategy) member => ?_
  exact accounts_aliasTypedef fun empty chosen => allowed (empty ▸ chosen ▸ member)

theorem accounts_index {graph : Graph} (indexed : index graph = .ok context) :
    Accounts blank graph.anonymousEnums context where
  declarations := by
    rw [anonymous_index indexed, List.map_map]
    exact List.map_id' _
  nameless := by
    rw [enumeration?_index indexed, enumerationNamed?, List.find?_eq_none]
    intro enumeration _
    simp [Enumeration.declaredName?]
  named position name got := by
    rw [anonymousName?, anonymous_index indexed, List.getElem?_map] at got
    cases held : graph.anonymousEnums[position]? <;> simp [held] at got

theorem mem_orphans {position : Nat} (listed : position < context.anonymous.length)
    (unnamed : context.anonymousName? position = none) (registered : List String) :
    (TagReference.anonymous position).display ∈ context.orphans registered := by
  rw [orphans_eq]
  refine List.mem_append_right _ (List.mem_map_of_mem (List.mem_filter.mpr ⟨List.mem_range.mpr listed, ?_⟩))
  simp [unnamed]

/-- An enumeration without a name is reported or found under its new name, unless that name is the
empty one; it is so only if an opening or a typedef with a strategy of its own is empty. -/
theorem accounted_iff {graph : Graph} {openings : List String} {strategies : Table TypedefStrategy}
    {indexed : Context} {position : Nat} {enumeration : Enumeration} (start : index graph = .ok indexed)
    (given : Gives (do unify openings; aliasAll strategies) indexed ⟨⟩ context)
    (member : graph.anonymousEnums[position]? = some enumeration) (registered : List String) :
    (Accounted context registered position enumeration ↔ context.anonymousName? position ≠ some "") ∧
      (context.anonymousName? position = some "" → "" ∈ openings ∨ ("", .namedEnum) ∈ strategies) := by
  have accounts : Accounts ("" ∈ openings ∨ ("", .namedEnum) ∈ strategies) graph.anonymousEnums context :=
    (frame_accounts.bind (accounts_unify .inl) fun _ => accounts_aliasAll .inr).of_gives given
      (accounts_index start)
  constructor
  · constructor
    · rintro (⟨unnamed, -⟩ | ⟨name, target, got, found, -⟩) empty
      · rw [unnamed] at empty
        cases empty
      · obtain rfl := Option.some.inj (got.symm.trans empty)
        rw [accounts.nameless] at found
        cases found
    · intro filled
      cases got : context.anonymousName? position with
      | none =>
        have listed : position < context.anonymous.length := by
          obtain ⟨bound, -⟩ := List.getElem?_eq_some_iff.mp member
          rwa [← accounts.declarations, List.length_map] at bound
        exact .inl ⟨got, mem_orphans listed got registered⟩
      | some name =>
        rcases accounts.named position name got with ⟨rfl, -⟩ | offers
        · exact absurd got filled
        · obtain ⟨target, found, held⟩ := offers enumeration member
          exact .inr ⟨name, target, got, found, held⟩
  · intro empty
    rcases accounts.named position "" empty with ⟨-, source⟩ | offers
    · exact source
    · obtain ⟨target, found, -⟩ := offers enumeration member
      rw [accounts.nameless] at found
      cases found

/-- An enumeration that an opening fits, one that a typedef stands for, and one that nothing names. -/
def unnamedGraph : Graph := ⟨[{
  fileName := "unnamed.h"
  structs := []
  enums := [⟨none, .int, [⟨"LOG_A", .signed 0⟩]⟩,
    ⟨none, .unsignedInt, [⟨"RED", .signed 1⟩, ⟨"BLUE", .signed 2⟩]⟩,
    ⟨some "", .int, [⟨"MISC", .signed 3⟩]⟩]
  typedefs := [⟨"Color", .tag (.anonymous 1)⟩]
  functions := []
  macros := [] }]⟩

theorem accounted_iff_unnamed : ∃ indexed context, index unnamedGraph = .ok indexed ∧
    Gives (do unify ["LOG"]; aliasAll [("Color", .namedEnum)]) indexed ⟨⟩ context ∧
    unnamedGraph.anonymousEnums[1]? = some ⟨none, .unsignedInt, [⟨"RED", .signed 1⟩, ⟨"BLUE", .signed 2⟩]⟩ ∧
    context.anonymousName? 1 = some "Color" ∧
    Accounted context [] 1 ⟨none, .unsignedInt, [⟨"RED", .signed 1⟩, ⟨"BLUE", .signed 2⟩]⟩ := by
  have accounted := (@accounted_iff _ unnamedGraph ["LOG"] [("Color", .namedEnum)] _ 1 _ rfl rfl rfl []).1
  exact ⟨_, _, rfl, rfl, rfl, rfl, accounted.mpr (by decide)⟩

/-- An empty opening fits every name, and hides what it names. -/
theorem not_always_accounted : ∃ indexed context, index unnamedGraph = .ok indexed ∧
    Gives (do unify [""]; aliasAll []) indexed ⟨⟩ context ∧
    unnamedGraph.anonymousEnums[0]? = some ⟨none, .int, [⟨"LOG_A", .signed 0⟩]⟩ ∧
    context.knownNames = [] ∧ ¬ Accounted context [] 0 ⟨none, .int, [⟨"LOG_A", .signed 0⟩]⟩ := by
  refine ⟨_, _, rfl, rfl, rfl, rfl, ?_⟩
  rintro (⟨unnamed, -⟩ | ⟨name, target, got, found, -⟩)
  · cases unnamed
  · cases got
    cases found

end

end Context

end Interop
