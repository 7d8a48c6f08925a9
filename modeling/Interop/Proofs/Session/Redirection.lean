import Mathlib.Data.List.Nodup
import Interop.Proofs.Session.Reference

/-! Redirection of unknown names. The names passed on the way are unknown and distinct, and each has
an entry that leads to the next; so there are no more rounds than entries and one, and a name is
redirected exactly if it leads to a known one. -/
namespace Interop.Session

section

variable (setting : Setting)

/-- One round of redirection that finds another unknown name. The last name of a chain comes first. -/
inductive Round : List String → List String → Prop where
  | follow {current next : String} {passed : List String} :
      setting.configuration.notFoundOverrides.lookup current = some next →
      next ∉ current :: passed → ¬ setting.context.isKnown next →
      Round (current :: passed) (next :: current :: passed)

/-- Names passed by redirection, the last one first. -/
structure Chain (chain : List String) : Prop where
  distinct : chain.Nodup
  unknown : ∀ name ∈ chain, ¬ setting.context.isKnown name
  linked : ∀ name ∈ chain.tail, ∃ next ∈ chain,
    setting.configuration.notFoundOverrides.lookup name = some next

end

variable {setting : Setting} {chain chain' passed : List String} {name next target : String}

theorem chain_start (unknown : ¬ setting.context.isKnown name) : Chain setting [name] where
  distinct := List.nodup_singleton name
  unknown _ member := List.mem_singleton.mp member ▸ unknown
  linked _ member := absurd member List.not_mem_nil

theorem Chain.round (chained : Chain setting chain) (round : Round setting chain chain') :
    Chain setting chain' := by
  cases round with
  | follow entry new unknown =>
    refine ⟨List.nodup_cons.mpr ⟨new, chained.distinct⟩, ?_, ?_⟩
    · intro name member
      rcases List.mem_cons.mp member with rfl | older
      · exact unknown
      · exact chained.unknown name older
    · intro name member
      rcases List.mem_cons.mp member with rfl | older
      · exact ⟨_, List.mem_cons_self, entry⟩
      · obtain ⟨next, present, linked⟩ := chained.linked name older
        exact ⟨next, List.mem_cons_of_mem _ present, linked⟩

/-- The names passed are names of the table. -/
theorem Chain.length_le (chained : Chain setting chain) :
    chain.tail.length ≤ setting.configuration.notFoundOverrides.length := by
  have among : chain.tail ⊆ setting.configuration.notFoundOverrides.map (·.1) := by
    intro name member
    obtain ⟨next, -, linked⟩ := chained.linked name member
    obtain ⟨early, late, table, -⟩ := List.lookup_eq_some_iff.mp linked
    rw [table]
    exact List.mem_map.mpr ⟨(name, next), List.mem_append_right _ List.mem_cons_self, rfl⟩
  have fewer := List.Nodup.length_le_of_subset chained.distinct.tail among
  rwa [List.length_map] at fewer

/-- There are no more rounds than entries. -/
theorem length_rounds_le {states : List (List String)} (chained : Chain setting chain)
    (rounds : List.IsChain (Round setting) (chain :: states)) :
    chain.tail.length + states.length ≤ setting.configuration.notFoundOverrides.length := by
  induction states generalizing chain with
  | nil => exact chained.length_le
  | cons next states ih =>
    obtain ⟨round, rest⟩ := List.isChain_cons_cons.mp rounds
    have more := ih (chained.round round) rest
    cases round with
    | follow =>
      simp only [List.tail_cons, List.length_cons] at more ⊢
      omega

/-- A round only passes on to the next name. -/
theorem followOverrides_round {start : String} {bound : Nat}
    (round : Round setting (name :: passed) (next :: name :: passed)) :
    followOverrides setting start (bound + 1) (name :: passed) name =
      followOverrides setting start bound (next :: name :: passed) next := by
  cases round with
  | follow entry fresh unknown =>
    rw [followOverrides, entry]
    simp only [fresh, unknown, if_false]
    rfl

/-- A bound with a round for every entry that is not passed, and one more, decides nothing. -/
theorem followOverrides_stable {start : String} {bound other : Nat} (chained : Chain setting (name :: passed))
    (enough : setting.configuration.notFoundOverrides.length < bound + passed.length)
    (also : setting.configuration.notFoundOverrides.length < other + passed.length) :
    followOverrides setting start bound (name :: passed) name =
      followOverrides setting start other (name :: passed) name := by
  have passed_le : passed.length ≤ setting.configuration.notFoundOverrides.length := chained.length_le
  induction bound generalizing other name passed with
  | zero => omega
  | succ bound ih =>
    obtain ⟨other, rfl⟩ : ∃ smaller, other = smaller + 1 := ⟨other - 1, by omega⟩
    by_cases more : ∃ next, Round setting (name :: passed) (next :: name :: passed)
    · obtain ⟨next, round⟩ := more
      have chained := chained.round round
      rw [followOverrides_round round, followOverrides_round round]
      apply ih chained
      · rw [List.length_cons]
        omega
      · rw [List.length_cons]
        omega
      · exact chained.length_le
    · rw [followOverrides, followOverrides]
      cases entry : setting.configuration.notFoundOverrides.lookup name with
      | none => rfl
      | some next =>
        by_cases fresh : next ∈ name :: passed
        · simp only [fresh, if_true]
        · by_cases known : setting.context.isKnown next
          · simp only [fresh, known, if_false, if_true]
          · exact absurd ⟨next, .follow entry fresh known⟩ more

/-- A chain of names that lead to one another has no end. -/
theorem not_standsFor_of_cycle (unknown : ∀ name ∈ chain, ¬ setting.context.isKnown name)
    (linked : ∀ name ∈ chain, ∃ next ∈ chain,
      setting.configuration.notFoundOverrides.lookup name = some next)
    (member : name ∈ chain) : ¬ StandsFor setting name target := by
  intro stands
  induction stands with
  | known known => exact unknown _ member known
  | overridden _ entry _ ih =>
    obtain ⟨next, present, linked⟩ := linked _ member
    obtain rfl := Option.some.inj (linked.symm.trans entry)
    exact ih present

/-- Redirection finds what a name leads to, if there is a round left for every entry that is not
passed. -/
theorem followOverrides_of_standsFor {start : String} {bound : Nat}
    (chained : Chain setting (name :: passed)) (stands : StandsFor setting name target)
    (enough : setting.configuration.notFoundOverrides.length < bound + passed.length) :
    followOverrides setting start bound (name :: passed) name = .ok target := by
  induction bound generalizing name passed with
  | zero =>
    have fewer := chained.length_le
    rw [List.tail_cons] at fewer
    omega
  | succ bound ih =>
    have unknown := chained.unknown name List.mem_cons_self
    cases stands with
    | known known => exact absurd known unknown
    | @overridden _ next _ _ entry rest =>
      have fresh : next ∉ name :: passed := by
        intro repeated
        refine not_standsFor_of_cycle chained.unknown ?_ List.mem_cons_self (.overridden unknown entry rest)
        intro other member
        rcases List.mem_cons.mp member with rfl | older
        · exact ⟨next, repeated, entry⟩
        · exact chained.linked other older
      by_cases known : setting.context.isKnown next
      · rw [followOverrides, entry]
        simp only [fresh, known, if_false, if_true, rest.unique (.known known)]
      · have round : Round setting (name :: passed) (next :: name :: passed) := .follow entry fresh known
        rw [followOverrides_round round]
        apply ih (chained.round round) rest
        rw [List.length_cons]
        omega

/-- A name that is not known is redirected to what it stands for. -/
theorem redirect_eq_ok_iff (unknown : ¬ setting.context.isKnown name) :
    redirect setting name = .ok target ↔ StandsFor setting name target := by
  refine ⟨standsFor_of_redirect unknown, fun stands => ?_⟩
  exact followOverrides_of_standsFor (chain_start unknown) stands (Nat.lt_succ_self _)

end Interop.Session
