import Mathlib.Data.List.Induction
import Interop.Proofs.Context.Naming
import Interop.Proofs.Declaration.RoundTrip

/-! What unification makes of the enumerations without a name. Each is named after the longest
opening of its first member; those of one name become one enumeration, with the members of all of
them in order and every later repeat dropped. This goes through exactly if none of the names is
taken and no name gets one member with two values. -/
namespace Interop

section

variable {name opening other : String} {openings : List String}

structure IsLongestOpening (openings : List String) (name opening : String) : Prop where
  given : opening ∈ openings
  opens : opening.toList <+: name.toList
  longest : ∀ other ∈ openings, other.toList <+: name.toList → other.length ≤ opening.length

/-- Of two openings of one name, the longer one has more bytes. -/
theorem utf8ByteSize_lt_of_length_lt (opens : opening.toList <+: name.toList)
    (opens' : other.toList <+: name.toList) (shorter : other.length < opening.length) :
    other.utf8ByteSize < opening.utf8ByteSize := by
  rw [← String.length_toList, ← String.length_toList] at shorter
  obtain ⟨rest, same⟩ := List.prefix_of_prefix_length_le opens' opens (Nat.le_of_lt shorter)
  have joined : opening = other ++ String.ofList rest := by
    rw [← String.toList_inj, String.toList_append, String.toList_ofList, same]
  have added : (String.ofList rest).utf8ByteSize ≠ 0 := by
    rw [ne_eq, String.utf8ByteSize_eq_zero_iff]
    intro empty
    rw [joined, empty, String.append_empty] at shorter
    exact Nat.lt_irrefl _ shorter
  rw [joined, String.utf8ByteSize_append]
  omega

theorem IsLongestOpening.unique (left : IsLongestOpening openings name opening)
    (right : IsLongestOpening openings name other) : opening = other := by
  have shorter := right.longest opening left.given left.opens
  have longer := left.longest other right.given right.opens
  rw [← String.length_toList, ← String.length_toList] at shorter longer
  have within := List.prefix_of_prefix_length_le left.opens right.opens shorter
  exact String.toList_inj.mp (within.eq_of_length_le longer)

theorem longestOpening_append (name opening : String) (openings : List String) :
    longestOpening name (openings ++ [opening]) =
      if opening.toList.isPrefixOf name.toList ∧
        (longestOpening name openings).all (·.utf8ByteSize < opening.utf8ByteSize)
      then some opening else longestOpening name openings := by
  rw [longestOpening, List.foldl_append]
  rfl

/-- Going through the openings keeps the longest so far. -/
theorem isLongestOpening_of_longestOpening (name : String) (openings : List String) :
    (∀ opening, longestOpening name openings = some opening → IsLongestOpening openings name opening) ∧
      (longestOpening name openings = none → ∀ opening ∈ openings, ¬ opening.toList <+: name.toList) := by
  induction openings using List.reverseRecOn with
  | nil => exact ⟨nofun, nofun⟩
  | append_singleton openings opening ih =>
    obtain ⟨found, missing⟩ := ih
    rw [longestOpening_append]
    split
    · next taken =>
      obtain ⟨opens, beats⟩ := taken
      rw [List.isPrefixOf_iff_prefix] at opens
      refine ⟨?_, nofun⟩
      rintro _ ⟨⟩
      refine ⟨List.mem_append_right _ List.mem_cons_self, opens, fun other member fits => ?_⟩
      rcases List.mem_append.mp member with earlier | own
      · cases best : longestOpening name openings with
        | none => exact absurd fits (missing best other earlier)
        | some former =>
          have held := found former best
          have fewer : former.utf8ByteSize < opening.utf8ByteSize := by simpa [best] using beats
          have atMost : former.length ≤ opening.length := by
            by_contra longer
            have more := utf8ByteSize_lt_of_length_lt held.opens opens (by omega)
            omega
          exact Nat.le_trans (held.longest other earlier fits) atMost
      · obtain rfl := List.mem_singleton.mp own
        exact Nat.le_refl _
    · next kept =>
      constructor
      · intro former best
        have held := found former best
        refine ⟨List.mem_append_left _ held.given, held.opens, fun other member fits => ?_⟩
        rcases List.mem_append.mp member with earlier | own
        · exact held.longest other earlier fits
        · obtain rfl := List.mem_singleton.mp own
          by_contra longer
          have more := utf8ByteSize_lt_of_length_lt fits held.opens (by omega)
          exact kept ⟨List.isPrefixOf_iff_prefix.mpr fits, by simpa [best] using more⟩
      · intro best other member fits
        rcases List.mem_append.mp member with earlier | own
        · exact missing best other earlier fits
        · obtain rfl := List.mem_singleton.mp own
          exact kept ⟨List.isPrefixOf_iff_prefix.mpr fits, by rw [best, Option.all_none]⟩

theorem longestOpening_eq_some_iff :
    longestOpening name openings = some opening ↔ IsLongestOpening openings name opening := by
  obtain ⟨found, missing⟩ := isLongestOpening_of_longestOpening name openings
  refine ⟨found opening, fun longest => ?_⟩
  cases best : longestOpening name openings with
  | none => exact absurd longest.opens (missing best opening longest.given)
  | some other => rw [(found other best).unique longest]

end

section

variable {items seen added merged : List EnumItem} {item : EnumItem} {name : String}

/-- No name has members of different values. A number with a sign and without one is two values, as it is two
literals. -/
def Coherent (items : List EnumItem) : Prop :=
  ∀ item ∈ items, ∀ other ∈ items, item.name = other.name → item.value = other.value

def CoherentNumbers (items : List EnumItem) : Prop :=
  ∀ item ∈ items, ∀ other ∈ items, item.name = other.name → item.value.number = other.value.number

theorem coherent_iff_numbers (canonical : ∀ item ∈ items, item.value.IsCanonical) :
    Coherent items ↔ CoherentNumbers items :=
  forall₄_congr fun item member other member' =>
    imp_congr_right fun _ => ((canonical item member).number_inj (canonical other member')).symm

def firstItems : List EnumItem → List EnumItem
  | [] => []
  | item :: rest => item :: (firstItems rest).filter (·.name ≠ item.name)

theorem Coherent.mono (coherent : Coherent items) (less : seen ⊆ items) : Coherent seen :=
  fun item member other member' => coherent item (less member) other (less member')

theorem find?_firstItems (items : List EnumItem) (name : String) :
    (firstItems items).find? (·.name = name) = items.find? (·.name = name) := by
  induction items with
  | nil => rfl
  | cons item rest ih =>
    rw [firstItems, List.find?_cons, List.find?_cons, List.find?_filter]
    by_cases own : item.name = name
    · simp [own]
    · have same : (fun other : EnumItem => decide (decide (other.name ≠ item.name) = true ∧
          decide (other.name = name) = true)) = fun other => decide (other.name = name) := by
        funext other
        by_cases reached : other.name = name
        · simp [reached, Ne.symm own]
        · simp [reached]
      simp only [own, decide_false, same, ih]

theorem nodup_firstItems (items : List EnumItem) : ((firstItems items).map (·.name)).Nodup := by
  induction items with
  | nil => exact List.nodup_nil
  | cons item rest ih =>
    rw [firstItems, List.map_cons, List.nodup_cons]
    refine ⟨fun member => ?_, ih.sublist (List.filter_sublist.map _)⟩
    obtain ⟨other, kept, same⟩ := List.mem_map.mp member
    have different := (List.mem_filter.mp kept).2
    simp only [ne_eq, same, not_true_eq_false, decide_false, Bool.false_eq_true] at different

theorem firstItems_append (items : List EnumItem) (item : EnumItem) :
    firstItems (items ++ [item]) =
      if items.any (·.name = item.name) then firstItems items else firstItems items ++ [item] := by
  induction items with
  | nil => rfl
  | cons first rest ih =>
    rw [List.cons_append, firstItems, firstItems, ih, List.any_cons]
    by_cases own : first.name = item.name
    · simp only [own, decide_true, Bool.true_or, if_true]
      split
      · rfl
      · simp [List.filter_append]
    · simp only [own, decide_false, Bool.false_or]
      split
      · rfl
      · simp [List.filter_append, Ne.symm own]

theorem Coherent.append (coherent : Coherent items)
    (agree : ∀ other ∈ items, other.name = item.name → other.value = item.value) :
    Coherent (items ++ [item]) := by
  simp only [Coherent, List.mem_append, List.mem_singleton]
  rintro first (early | rfl) second (late | rfl) same
  · exact coherent first early second late same
  · exact agree first early same
  · exact (agree second late same.symm).symm
  · rfl

/-- Merging into the first members of what was seen gives the first members of all, or stops at a
member whose value is another one. -/
theorem mergeItems_firstItems (coherent : Coherent seen) (added : List EnumItem) :
    (Coherent (seen ++ added) ∧
      mergeItems (firstItems seen) added = (firstItems (seen ++ added), none)) ∨
    (¬ Coherent (seen ++ added) ∧ ∃ items memberName,
      mergeItems (firstItems seen) added = (items, some memberName)) := by
  induction added generalizing seen with
  | nil => exact .inl ⟨by rwa [List.append_nil], by rw [List.append_nil]; rfl⟩
  | cons item rest ih =>
    have shift : seen ++ item :: rest = seen ++ [item] ++ rest := by simp
    rw [mergeItems, find?_firstItems, shift]
    cases found : seen.find? (·.name = item.name) with
    | none =>
      have fresh : ∀ other ∈ seen, other.name ≠ item.name := by simpa using found
      have extended : firstItems (seen ++ [item]) = firstItems seen ++ [item] := by
        rw [firstItems_append, if_neg (by simpa using fresh)]
      rw [← extended]
      exact ih (coherent.append fun other member same => absurd same (fresh other member))
    | some existing =>
      have member := List.mem_of_find?_eq_some found
      have name : existing.name = item.name := by simpa using List.find?_some found
      dsimp only
      split
      · next same =>
        have kept : firstItems (seen ++ [item]) = firstItems seen := by
          rw [firstItems_append, if_pos (List.any_eq_true.mpr ⟨existing, member, by simpa using name⟩)]
        rw [← kept]
        exact ih (coherent.append fun other listed own =>
          (coherent other listed existing member (own.trans name.symm)).trans same)
      · next different =>
        refine .inr ⟨fun all => different ?_, _, _, rfl⟩
        exact all existing (by simp [member]) item (by simp) name

end

def contributors (openings : List String) (enums : List Enumeration) (name : String) : List Enumeration :=
  enums.filter (·.unifiedName? openings = some name)

/-- The members that a name gets, in order and with repeats. -/
def contributions (openings : List String) (enums : List Enumeration) (name : String) : List EnumItem :=
  (contributors openings enums name).flatMap (·.items)

theorem mem_enums_of_contributions {openings : List String} {graph : Graph} {name : String} {item : EnumItem}
    (member : item ∈ contributions openings graph.anonymousEnums name) :
    ∃ enumeration ∈ graph.enums, item ∈ enumeration.items := by
  obtain ⟨enumeration, contributes, inside⟩ := List.mem_flatMap.mp member
  exact ⟨enumeration, (List.mem_filter.mp (List.mem_filter.mp contributes).1).1, inside⟩

def unified? (openings : List String) (enums : List Enumeration) (name : String) : Option Enumeration :=
  (contributors openings enums name).head?.map fun first =>
    ⟨some name, first.underlying, firstItems (contributions openings enums name)⟩

section

variable {openings : List String} {enums more : List Enumeration} {enumeration : Enumeration} {name : String}

theorem unifiedName?_eq_some_iff : enumeration.unifiedName? openings = some name ↔
    ∃ item, enumeration.items.head? = some item ∧ IsLongestOpening openings item.name name := by
  simp only [Enumeration.unifiedName?, Option.bind_eq_some_iff, longestOpening_eq_some_iff]

theorem ne_empty_of_unifiedName? (filled : "" ∉ openings)
    (own : enumeration.unifiedName? openings = some name) : name ≠ "" := by
  obtain ⟨item, -, longest⟩ := unifiedName?_eq_some_iff.mp own
  exact fun empty => filled (empty ▸ longest.given)

theorem mem_contributors {other : Enumeration} : other ∈ contributors openings enums name ↔
    other ∈ enums ∧ other.unifiedName? openings = some name := by
  rw [contributors, List.mem_filter, decide_eq_true_eq]

theorem contributors_append : contributors openings (enums ++ more) name =
    contributors openings enums name ++ contributors openings more name := List.filter_append ..

theorem contributors_other (other : enumeration.unifiedName? openings ≠ some name) :
    contributors openings (enums ++ [enumeration]) name = contributors openings enums name := by
  rw [contributors_append]
  simp [contributors, other]

theorem contributors_own (own : enumeration.unifiedName? openings = some name) :
    contributors openings (enums ++ [enumeration]) name = contributors openings enums name ++ [enumeration] := by
  rw [contributors_append]
  simp [contributors, own]

theorem contributions_append : contributions openings (enums ++ more) name =
    contributions openings enums name ++ contributions openings more name := by
  rw [contributions, contributors_append, List.flatMap_append]
  rfl

theorem contributions_other (other : enumeration.unifiedName? openings ≠ some name) :
    contributions openings (enums ++ [enumeration]) name = contributions openings enums name := by
  rw [contributions, contributors_other other, contributions]

theorem contributions_own (own : enumeration.unifiedName? openings = some name) :
    contributions openings (enums ++ [enumeration]) name =
      contributions openings enums name ++ enumeration.items := by
  rw [contributions, contributors_own own, List.flatMap_append, List.flatMap_singleton, contributions]

theorem unified?_other (other : enumeration.unifiedName? openings ≠ some name) :
    unified? openings (enums ++ [enumeration]) name = unified? openings enums name := by
  rw [unified?, contributors_other other, contributions_other other, unified?]

theorem unified?_first (own : enumeration.unifiedName? openings = some name)
    (first : contributors openings enums name = []) :
    unified? openings (enums ++ [enumeration]) name =
      some ⟨some name, enumeration.underlying, firstItems enumeration.items⟩ := by
  rw [unified?, contributors_own own, contributions_own own, contributions, first]
  rfl

/-- A later contributor adds its members and does not change the kind. -/
theorem unified?_later (own : enumeration.unifiedName? openings = some name) {target : Enumeration}
    (former : unified? openings enums name = some target) :
    unified? openings (enums ++ [enumeration]) name =
      some { target with items := firstItems (contributions openings enums name ++ enumeration.items) } := by
  obtain ⟨first, head, rfl⟩ := Option.map_eq_some_iff.mp former
  rw [unified?, contributors_own own, contributions_own own, List.head?_append, head]
  rfl

end

namespace Context

open Work

/-- No enumeration gets a name that is known, and no name gets one member with two values. -/
structure Unifiable (openings : List String) (enums : List Enumeration) (context : Context) : Prop where
  free : ∀ enumeration ∈ enums, ∀ name, enumeration.unifiedName? openings = some name → ¬ context.isKnown name
  coherent : ∀ name, Coherent (contributions openings enums name)

/-- What unification has come to, once it has gone through some enumerations and others wait. -/
structure Unifies (openings : List String) (done waiting : List Enumeration) (start : Context)
    (made : List String) (context : Context) : Prop where
  unifiable : Unifiable openings done start
  made : ∀ name, name ∈ made ↔ contributors openings done name ≠ []
  tags : ∀ name, context.tag? name =
    ((unified? openings done name).map .enumeration).or (start.tag? name)
  typedefs : context.typedefs = start.typedefs
  anonymous : context.anonymous =
    done.map (fun enumeration => ⟨enumeration, enumeration.unifiedName? openings⟩) ++ waiting.map (⟨·, none⟩)

section

variable {openings : List String} {done waiting : List Enumeration} {enumeration : Enumeration}
  {start context middle : Context} {made made' : List String} {name : String}

theorem Unifiable.of_append (unifiable : Unifiable openings (done ++ waiting) start) :
    Unifiable openings done start where
  free other member := unifiable.free other (List.mem_append_left _ member)
  coherent name := (unifiable.coherent name).mono (by
    rw [contributions_append]
    exact List.subset_append_left _ _)

theorem Unifiable.append_none (unifiable : Unifiable openings done start)
    (nameless : enumeration.unifiedName? openings = none) :
    Unifiable openings (done ++ [enumeration]) start where
  free other member name own := by
    rcases List.mem_append.mp member with earlier | last
    · exact unifiable.free other earlier name own
    · obtain rfl := List.mem_singleton.mp last
      rw [nameless] at own
      cases own
  coherent name := by
    rw [contributions_other (by simp [nameless])]
    exact unifiable.coherent name

/-- One more enumeration fits if its name is free and its members agree with those of the name. -/
theorem Unifiable.append_iff (unifiable : Unifiable openings done start)
    (own : enumeration.unifiedName? openings = some name) :
    Unifiable openings (done ++ [enumeration]) start ↔
      ¬ start.isKnown name ∧ Coherent (contributions openings done name ++ enumeration.items) := by
  constructor
  · intro extended
    refine ⟨extended.free enumeration (List.mem_append_right _ List.mem_cons_self) name own, ?_⟩
    rw [← contributions_own own]
    exact extended.coherent name
  · rintro ⟨free, coherent⟩
    refine ⟨fun other member name' own' => ?_, fun name' => ?_⟩
    · rcases List.mem_append.mp member with earlier | last
      · exact unifiable.free other earlier name' own'
      · obtain rfl := List.mem_singleton.mp last
        obtain rfl := Option.some.inj (own.symm.trans own')
        exact free
    · by_cases same : name' = name
      · rw [same, contributions_own own]
        exact coherent
      · rw [contributions_other (by simpa [own] using Ne.symm same)]
        exact unifiable.coherent name'

theorem modify_length_append {α : Type} (front : List α) (item : α) (rest : List α) (change : α → α) :
    (front ++ item :: rest).modify front.length change = front ++ change item :: rest := by
  rw [List.modify_eq_take_drop, List.take_left, List.drop_left, List.modifyHead_cons]

/-- An enumeration that gets no name leaves everything as it is. -/
theorem Unifies.skip (unifies : Unifies openings done (enumeration :: waiting) start made context)
    (nameless : enumeration.unifiedName? openings = none) :
    Unifies openings (done ++ [enumeration]) waiting start made context where
  unifiable := unifies.unifiable.append_none nameless
  made name := by
    rw [contributors_other (by simp [nameless])]
    exact unifies.made name
  tags name := by
    rw [unified?_other (by simp [nameless])]
    exact unifies.tags name
  typedefs := unifies.typedefs
  anonymous := by
    rw [unifies.anonymous]
    simp [nameless]

/-- An enumeration gets its name once the name stands for its members too. -/
theorem Unifies.extend (unifies : Unifies openings done (enumeration :: waiting) start made context)
    (own : enumeration.unifiedName? openings = some name)
    (unifiable : Unifiable openings (done ++ [enumeration]) start)
    (added : ∀ other, other ∈ made' ↔ other = name ∨ other ∈ made) {target : Enumeration}
    (found : unified? openings (done ++ [enumeration]) name = some target)
    (tags : ∀ other, middle.tag? other =
      if other = name then some (.enumeration target) else context.tag? other)
    (typedefs : middle.typedefs = context.typedefs) (anonymous : middle.anonymous = context.anonymous) :
    Unifies openings (done ++ [enumeration]) waiting start made' (middle.nameAnonymous done.length name) where
  unifiable := unifiable
  made other := by
    rw [added, unifies.made]
    by_cases same : other = name
    · simp [same, contributors_own own]
    · rw [contributors_other (by simpa [own] using Ne.symm same)]
      simp [same]
  tags other := by
    change middle.tag? other = _
    rw [tags]
    split
    · next same => rw [same, found, Option.map_some, Option.some_or]
    · next different =>
      rw [unified?_other (by simpa [own] using Ne.symm different)]
      exact unifies.tags other
  typedefs := typedefs.trans unifies.typedefs
  anonymous := by
    have placed := modify_length_append
      (done.map fun enumeration => (⟨enumeration, enumeration.unifiedName? openings⟩ : AnonymousEnum))
      ⟨enumeration, none⟩ (waiting.map (⟨·, none⟩)) fun entry => { entry with name := some name }
    change middle.anonymous.modify _ _ = _
    rw [List.length_map] at placed
    rw [anonymous, unifies.anonymous, List.map_cons, placed]
    simp [own]

/-- What a step of unification that succeeds does. -/
theorem gives_unifyAt {position : Nat} {after : Context} :
    Gives (unifyAt openings made position enumeration) context made' after ↔
      (enumeration.unifiedName? openings = none ∧ made' = made ∧ after = context) ∨
      ∃ name, enumeration.unifiedName? openings = some name ∧
        ((name ∈ made ∧ context.enumeration? name = none ∧ made' = made ∧ after = context) ∨
        (name ∈ made ∧ ∃ target items, context.enumeration? name = some target ∧
          mergeItems target.items enumeration.items = (items, none) ∧ made' = made ∧
          after = (context.replace name (.enumeration { target with items })).nameAnonymous position name) ∨
        (name ∉ made ∧ ∃ items extended, mergeItems [] enumeration.items = (items, none) ∧
          context.insertEnumeration ⟨some name, enumeration.underlying, items⟩ = .ok extended ∧
          made' = name :: made ∧ after = extended.nameAnonymous position name)) := by
  rw [Gives, unifyAt, outcome_bind, outcome_get]
  simp only
  cases own : enumeration.unifiedName? openings with
  | none => simp [eq_comm]
  | some name =>
    by_cases given : name ∈ made
    · cases held : context.enumeration? name with
      | none => simp [given, held, eq_comm]
      | some target =>
        rcases merge : mergeItems target.items enumeration.items with ⟨items, _ | memberName⟩
        · simp [given, held, merge, outcome_bind, eq_comm, -bind_pure_comp]
        · simp [given, held, merge, outcome_bind]
    · rcases merge : mergeItems [] enumeration.items with ⟨items, _ | memberName⟩
      · cases inserted : context.insertEnumeration ⟨some name, enumeration.underlying, items⟩ with
        | error error => simp [given, inserted, outcome_bind]
        | ok extended => simp [given, inserted, outcome_bind, eq_comm, -bind_pure_comp]
      · simp [given]

/-- An enumeration with a name that is not empty is added exactly if the name is free. -/
theorem insertEnumeration_eq_ok_iff {underlying : Primitive} {items : List EnumItem} {extended : Context}
    (filled : name ≠ "") : context.insertEnumeration ⟨some name, underlying, items⟩ = .ok extended ↔
      context.tag? name = none ∧ extended = context.append name (.enumeration ⟨some name, underlying, items⟩) := by
  constructor
  · intro inserted
    rcases insertEnumeration_ok inserted with ⟨empty, -⟩ | ⟨-, free, same⟩
    · exact absurd empty filled
    · exact ⟨free, same⟩
  · rintro ⟨free, rfl⟩
    have own : Enumeration.declaredName? ⟨some name, underlying, items⟩ = some name := by
      simp [Enumeration.declaredName?, filled]
    simp [insertEnumeration, own, isKnown, free]

/-- A name that was given stands for the members that it has got so far. -/
theorem Unifies.exists_held (unifies : Unifies openings done waiting start made context)
    (given : name ∈ made) : ∃ target, unified? openings done name = some target ∧
      context.enumeration? name = some target ∧
      target.items = firstItems (contributions openings done name) ∧ ¬ start.isKnown name := by
  obtain ⟨first, others, contributing⟩ := List.exists_cons_of_ne_nil ((unifies.made name).mp given)
  have member : first ∈ contributors openings done name := contributing ▸ List.mem_cons_self
  obtain ⟨listed, own⟩ := mem_contributors.mp member
  have found : unified? openings done name =
      some ⟨some name, first.underlying, firstItems (contributions openings done name)⟩ := by
    rw [unified?, contributing]
    rfl
  have tag := unifies.tags name
  rw [found] at tag
  exact ⟨_, found, enumeration?_eq_some_iff.mpr tag, rfl, unifies.unifiable.free first listed name own⟩

/-- A name that was not given yet stands for what it stood for at the start. -/
theorem Unifies.first (unifies : Unifies openings done waiting start made context) (absent : name ∉ made) :
    contributors openings done name = [] ∧ context.tag? name = start.tag? name := by
  have nobody : contributors openings done name = [] := by
    simpa [unifies.made] using absent
  refine ⟨nobody, ?_⟩
  rw [unifies.tags, unified?, nobody]
  rfl

/-- The members of a further enumeration agree with those that its name has got exactly if merging
them succeeds, and then all of them are merged. -/
theorem Unifies.merges (unifies : Unifies openings done waiting start made context) (name : String)
    (added items : List EnumItem) :
    mergeItems (firstItems (contributions openings done name)) added = (items, none) ↔
      Coherent (contributions openings done name ++ added) ∧
        items = firstItems (contributions openings done name ++ added) := by
  rcases mergeItems_firstItems (unifies.unifiable.coherent name) added with
    ⟨coherent, merged⟩ | ⟨conflict, items, memberName, merged⟩
  · simp [merged, coherent, eq_comm]
  · simp [merged, conflict]

/-- A step that succeeds unifies one enumeration more. -/
theorem Unifies.of_gives (unifies : Unifies openings done (enumeration :: waiting) start made context)
    (filled : "" ∉ openings) {after : Context}
    (gives : Gives (unifyAt openings made done.length enumeration) context made' after) :
    Unifies openings (done ++ [enumeration]) waiting start made' after := by
  rcases gives_unifyAt.mp gives with ⟨nameless, rfl, rfl⟩ | ⟨name, own, step⟩
  · exact unifies.skip nameless
  rcases step with ⟨given, missing, -⟩ | ⟨given, target, items, held, merge, rfl, rfl⟩ |
    ⟨absent, items, extended, merge, inserted, rfl, rfl⟩
  · obtain ⟨target, -, held, -⟩ := unifies.exists_held given
    rw [held] at missing
    cases missing
  · obtain ⟨former, found, held', members, free⟩ := unifies.exists_held given
    obtain rfl := Option.some.inj (held'.symm.trans held)
    rw [members] at merge
    obtain ⟨coherent, rfl⟩ := (unifies.merges name enumeration.items items).mp merge
    refine unifies.extend own ((unifies.unifiable.append_iff own).mpr ⟨free, coherent⟩) (fun other => ?_)
      (unified?_later own found) (fun other => ?_) rfl rfl
    · exact ⟨.inr, fun either => either.elim (fun same => same ▸ given) id⟩
    · rw [tag?_replace, enumeration?_eq_some_iff.mp held, Option.map_some]
  · obtain ⟨nobody, start_tag⟩ := unifies.first absent
    have nothing : contributions openings done name = [] := by rw [contributions, nobody, List.flatMap_nil]
    have merges := unifies.merges name enumeration.items items
    rw [nothing, List.nil_append] at merges
    obtain ⟨coherent, rfl⟩ := merges.mp merge
    obtain ⟨free, rfl⟩ := (insertEnumeration_eq_ok_iff (ne_empty_of_unifiedName? filled own)).mp inserted
    have unknown : ¬ start.isKnown name := by simp [isKnown, ← start_tag, free]
    refine unifies.extend own ((unifies.unifiable.append_iff own).mpr ⟨unknown, ?_⟩)
      (fun other => List.mem_cons) (unified?_first own nobody) (fun other => tag?_append free other) rfl rfl
    rwa [nothing]

/-- A step succeeds if the enumeration can be unified with those before it. -/
theorem Unifies.exists_gives (unifies : Unifies openings done (enumeration :: waiting) start made context)
    (filled : "" ∉ openings) (unifiable : Unifiable openings (done ++ [enumeration]) start) :
    ∃ made' after, Gives (unifyAt openings made done.length enumeration) context made' after := by
  simp only [gives_unifyAt]
  cases own : enumeration.unifiedName? openings with
  | none => exact ⟨made, context, .inl ⟨rfl, rfl, rfl⟩⟩
  | some name =>
    obtain ⟨free, coherent⟩ := (unifies.unifiable.append_iff own).mp unifiable
    have merge := (unifies.merges name enumeration.items _).mpr ⟨coherent, rfl⟩
    by_cases given : name ∈ made
    · obtain ⟨target, -, held, members, -⟩ := unifies.exists_held given
      rw [← members] at merge
      exact ⟨_, _, .inr ⟨name, rfl, .inr (.inl ⟨given, target, _, held, merge, rfl, rfl⟩)⟩⟩
    · obtain ⟨nobody, start_tag⟩ := unifies.first given
      rw [contributions, nobody] at merge
      have unknown : context.tag? name = none := by
        rw [start_tag]
        simpa [isKnown] using free
      have inserted (items : List EnumItem) : ∃ extended,
          context.insertEnumeration ⟨some name, enumeration.underlying, items⟩ = .ok extended :=
        ⟨_, (insertEnumeration_eq_ok_iff (ne_empty_of_unifiedName? filled own)).mpr ⟨unknown, rfl⟩⟩
      obtain ⟨extended, inserted⟩ := inserted _
      exact ⟨_, _, .inr ⟨name, rfl, .inr (.inr ⟨given, _, extended, merge, inserted, rfl, rfl⟩)⟩⟩

/-- A run that succeeds unifies all enumerations that wait. -/
theorem Unifies.of_gives_foldlM (unifies : Unifies openings done waiting start made context)
    (filled : "" ∉ openings) {after : Context}
    (gives : Gives ((waiting.zipIdx done.length).foldlM
      (fun made entry => unifyAt openings made entry.2 entry.1) made) context made' after) :
    Unifies openings (done ++ waiting) [] start made' after := by
  induction waiting generalizing done made context with
  | nil =>
    obtain ⟨rfl, rfl⟩ := gives_pure.mp gives
    rwa [List.append_nil]
  | cons enumeration waiting ih =>
    rw [List.zipIdx_cons, List.foldlM_cons] at gives
    obtain ⟨made, middle, first, rest⟩ := gives_bind.mp gives
    have step := unifies.of_gives filled first
    rw [List.append_cons]
    exact ih step (by rwa [List.length_append])

/-- A run succeeds if all enumerations can be unified. -/
theorem Unifies.exists_gives_foldlM (unifies : Unifies openings done waiting start made context)
    (filled : "" ∉ openings) (unifiable : Unifiable openings (done ++ waiting) start) :
    ∃ made' after, Gives ((waiting.zipIdx done.length).foldlM
      (fun made entry => unifyAt openings made entry.2 entry.1) made) context made' after := by
  induction waiting generalizing done made context with
  | nil => exact ⟨made, context, rfl⟩
  | cons enumeration waiting ih =>
    rw [List.append_cons] at unifiable
    obtain ⟨between, middle, first⟩ := unifies.exists_gives filled unifiable.of_append
    obtain ⟨made', after, rest⟩ := ih (unifies.of_gives filled first) unifiable
    rw [List.length_append] at rest
    rw [List.zipIdx_cons, List.foldlM_cons]
    exact ⟨made', after, gives_bind.mpr ⟨between, middle, first, rest⟩⟩

theorem unifies_start (openings : List String) (anonymous : start.anonymous = waiting.map (⟨·, none⟩)) :
    Unifies openings [] waiting start [] start where
  unifiable := ⟨nofun, fun _ => nofun⟩
  made := fun name => by simp [contributors]
  tags := fun name => rfl
  typedefs := rfl
  anonymous := anonymous

theorem gives_unify {after : Context} (anonymous : start.anonymous = waiting.map (⟨·, none⟩)) :
    Gives (unify openings) start ⟨⟩ after ↔ ∃ made, Gives ((waiting.zipIdx 0).foldlM
      (fun made entry => unifyAt openings made entry.2 entry.1) []) start made after := by
  have run : start.anonymous.zipIdx.foldlM
        (fun made entry => unifyAt openings made entry.2 entry.1.declaration) [] =
      (waiting.zipIdx 0).foldlM (fun made entry => unifyAt openings made entry.2 entry.1) [] := by
    rw [anonymous, List.zipIdx_map, List.foldlM_map]
    rfl
  rw [← run, unify]
  constructor
  · intro gives
    obtain ⟨_, _, got, rest⟩ := gives_bind.mp gives
    obtain ⟨rfl, rfl⟩ := gives_get.mp got
    obtain ⟨made, _, folded, ended⟩ := gives_bind.mp rest
    obtain ⟨-, rfl⟩ := gives_pure.mp ended
    exact ⟨made, folded⟩
  · rintro ⟨made, folded⟩
    refine gives_bind.mpr ⟨start, start, rfl, gives_bind.mpr ⟨made, after, folded, rfl⟩⟩

/-- Unification goes through exactly if no enumeration gets a known name and no name gets one member
with two values, which in a graph that was read are two numbers. Every enumeration then has the longest
opening of its first member as its name; a name that was given stands for the members of all that got it,
as the first of them has them, and whatever has another name stays as it was. -/
theorem unify_iff_unifiable {graph : Graph} {openings : List String} {context : Context}
    (indexed : index graph = .ok context) (filled : "" ∉ openings) :
    (∀ (enumeration : Enumeration) (name : String), enumeration.unifiedName? openings = some name ↔
      ∃ item : EnumItem, enumeration.items.head? = some item ∧ IsLongestOpening openings item.name name) ∧
    ((∃ after, Gives (unify openings) context ⟨⟩ after) ↔
      Unifiable openings graph.anonymousEnums context) ∧
    (∀ json, Graph.read json = some graph → ∀ name,
      (Coherent (contributions openings graph.anonymousEnums name) ↔
        CoherentNumbers (contributions openings graph.anonymousEnums name))) ∧
    ∀ after, Gives (unify openings) context ⟨⟩ after →
      (∀ position enumeration, graph.anonymousEnums[position]? = some enumeration →
        after.anonymousName? position = enumeration.unifiedName? openings) ∧
      (∀ name first others, contributors openings graph.anonymousEnums name = first :: others →
        ∃ items, after.enumeration? name = some ⟨some name, first.underlying, items⟩ ∧
          items = firstItems ((first :: others).flatMap (·.items)) ∧ (items.map (·.name)).Nodup) ∧
      (∀ name, contributors openings graph.anonymousEnums name = [] → after.tag? name = context.tag? name) ∧
      (∀ name, after.struct? name = context.struct? name) ∧
      (∀ name, after.typedef? name = context.typedef? name) := by
  have anonymous := anonymous_index indexed
  have start := unifies_start openings anonymous
  refine ⟨fun _ _ => unifiedName?_eq_some_iff, ⟨?_, fun unifiable => ?_⟩, fun json found name => ?_,
    fun after gives => ?_⟩
  · rintro ⟨after, gives⟩
    obtain ⟨made, folded⟩ := (gives_unify anonymous).mp gives
    exact (start.of_gives_foldlM filled folded).unifiable
  · obtain ⟨made, after, folded⟩ := start.exists_gives_foldlM filled unifiable
    exact ⟨after, (gives_unify anonymous).mpr ⟨made, folded⟩⟩
  · refine coherent_iff_numbers fun item member => ?_
    obtain ⟨enumeration, declared, inside⟩ := mem_enums_of_contributions member
    exact Graph.isCanonical_of_read found enumeration declared item inside
  · obtain ⟨made, folded⟩ := (gives_unify anonymous).mp gives
    have unifies := start.of_gives_foldlM filled folded
    rw [List.nil_append] at unifies
    have grows := (grows_unify openings).of_gives gives
    refine ⟨fun position enumeration listed => ?_, fun name first others contributing => ?_,
      fun name nobody => ?_, grows.structs, fun name => ?_⟩
    · rw [anonymousName?, unifies.anonymous, List.map_nil, List.append_nil, List.getElem?_map, listed]
      rfl
    · have tag := unifies.tags name
      rw [unified?, contributions, contributing] at tag
      exact ⟨_, enumeration?_eq_some_iff.mpr tag, rfl, nodup_firstItems _⟩
    · rw [unifies.tags, unified?, nobody]
      rfl
    · rw [typedef?, grows.typedefs, typedef?]

/-- Two names that several enumerations get in turn, and one enumeration that gets none. -/
def mixedGraph : Graph := ⟨[{
  fileName := "log.h"
  structs := [⟨"Sink", [], false, false⟩]
  enums := [⟨none, .unsignedInt, [⟨"LOG_A", .signed 0⟩, ⟨"LOG_B", .signed 1⟩]⟩,
    ⟨none, .int, [⟨"LOGGER_X", .signed 5⟩]⟩]
  typedefs := []
  functions := []
  macros := [] }, {
  fileName := "more.h"
  structs := []
  enums := [⟨some "", .int, [⟨"LOG_C", .signed 2⟩, ⟨"LOG_A", .signed 0⟩, ⟨"LOGGER_X", .signed 6⟩]⟩,
    ⟨none, .int, [⟨"MISC", .signed 9⟩]⟩]
  typedefs := []
  functions := []
  macros := [] }]⟩

theorem unify_iff_unifiable_mixed : ∃ context after, index mixedGraph = .ok context ∧
    "" ∉ ["LO", "LOGGER", "LOG"] ∧ Gives (unify ["LO", "LOGGER", "LOG"]) context ⟨⟩ after ∧
    Unifiable ["LO", "LOGGER", "LOG"] mixedGraph.anonymousEnums context ∧
    after.enumeration? "LOG" = some ⟨some "LOG", .unsignedInt,
      [⟨"LOG_A", .signed 0⟩, ⟨"LOG_B", .signed 1⟩, ⟨"LOG_C", .signed 2⟩, ⟨"LOGGER_X", .signed 6⟩]⟩ ∧
    after.anonymousName? 1 = some "LOGGER" ∧ after.anonymousName? 3 = none := by
  have filled : "" ∉ ["LO", "LOGGER", "LOG"] := by decide
  obtain ⟨-, passes, -, unified⟩ := @unify_iff_unifiable mixedGraph _ _ rfl filled
  obtain ⟨names, merged, -⟩ := unified _ rfl
  refine ⟨_, _, rfl, filled, rfl, passes.mp ⟨_, rfl⟩, ?_, names 1 _ rfl, names 3 _ rfl⟩
  obtain ⟨items, held, rfl, -⟩ := merged "LOG" _ _ rfl
  exact held

-- The number is the same, but only one of the literals has a sign.
example : (outcome (unify ["LOG"]) ⟨[], [], [⟨⟨none, .int, [⟨"LOG_A", .signed 5⟩]⟩, none⟩,
      ⟨⟨none, .int, [⟨"LOG_A", .unsigned 5⟩]⟩, none⟩]⟩).1 = .error (.memberCollision "LOG" "LOG_A") :=
  rfl

end

end Context

end Interop
