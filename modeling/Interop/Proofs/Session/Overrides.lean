import Mathlib.Data.List.Chain
import Interop.Proofs.Failure
import Interop.Proofs.Session.Order

/-! Where the overrides of an unknown name lead. The names along them end at a known one, come back to
one of themselves, or end at a name without an entry; redirection finds out which, and registration
does what is done for the known name, or fails and leaves the session as it was. -/
namespace Interop.Session

open Work

section

variable (setting : Setting)

def Linked (names : List String) : Prop :=
  names.IsChain fun name next => setting.configuration.notFoundOverrides.lookup name = some next

/-- Names that overrides lead along, none of which is known. -/
structure Trail (names : List String) : Prop where
  linked : Linked setting names
  unknown : ∀ name ∈ names, ¬ setting.context.isKnown name

def Ended (names : List String) : Prop :=
  ∀ last ∈ names.getLast?, setting.configuration.notFoundOverrides.lookup last = none

end

variable {setting : Setting} {name next current last target : String} {names passed passed' : List String}

theorem linked_cons_cons : Linked setting (name :: next :: names) ↔
    setting.configuration.notFoundOverrides.lookup name = some next ∧ Linked setting (next :: names) :=
  List.isChain_cons_cons

theorem Ended.of_append {early late : List String} (ended : Ended setting (early ++ late)) : Ended setting late := by
  intro last found
  refine ended last ?_
  rw [List.getLast?_append, found, Option.some_or]
  rfl

/-- Overrides that lead to a name without an entry lead there in one way. -/
theorem Linked.unique (linked : Linked setting (name :: passed)) (linked' : Linked setting (name :: passed'))
    (ended : Ended setting (name :: passed)) (ended' : Ended setting (name :: passed')) : passed = passed' := by
  induction passed generalizing name passed' with
  | nil =>
    cases passed' with
    | nil => rfl
    | cons next rest => cases (ended name rfl).symm.trans (linked_cons_cons.mp linked').1
  | cons next rest ih =>
    obtain ⟨entry, further⟩ := linked_cons_cons.mp linked
    cases passed' with
    | nil => cases (ended' name rfl).symm.trans entry
    | cons next' rest' =>
      obtain ⟨entry', further'⟩ := linked_cons_cons.mp linked'
      obtain rfl := Option.some.inj (entry.symm.trans entry')
      have ended : Ended setting ([name] ++ next :: rest) := ended
      have ended' : Ended setting ([name] ++ next :: rest') := ended'
      rw [ih further further' ended.of_append ended'.of_append]

/-- They pass no name twice. -/
theorem Linked.nodup (linked : Linked setting names) (ended : Ended setting names) : names.Nodup := by
  induction names with
  | nil => exact List.nodup_nil
  | cons name rest ih =>
    have ended : Ended setting ([name] ++ rest) := ended
    refine List.nodup_cons.mpr ⟨fun repeated => ?_, ih linked.tail ended.of_append⟩
    obtain ⟨early, late, rfl⟩ := List.append_of_mem repeated
    have whole : Linked setting ((name :: early) ++ name :: late) := linked
    have same := linked.unique whole.right_of_append ended ended.of_append.of_append
    have longer := congrArg List.length same
    simp only [List.length_append, List.length_cons] at longer
    omega

theorem Trail.of_append {early late : List String} (trail : Trail setting (early ++ late)) : Trail setting early :=
  ⟨trail.linked.left_of_append, fun name member => trail.unknown name (List.mem_append_left late member)⟩

/-- A trail that passes no name twice is made of rounds of redirection. -/
theorem Trail.round {previous : String} (trail : Trail setting (current :: previous :: passed).reverse)
    (distinct : (current :: previous :: passed).Nodup) :
    Round setting (previous :: passed) (current :: previous :: passed) := by
  have linked := trail.linked
  rw [List.reverse_cons, List.reverse_cons, List.append_assoc] at linked
  exact .follow (linked_cons_cons.mp linked.right_of_append).1 (List.nodup_cons.mp distinct).1
    (trail.unknown current (List.mem_reverse.mpr List.mem_cons_self))

theorem Trail.chain (trail : Trail setting (current :: passed).reverse) (distinct : (current :: passed).Nodup) :
    Chain setting (current :: passed) := by
  induction passed generalizing current with
  | nil => exact chain_start (trail.unknown current List.mem_cons_self)
  | cons previous passed ih =>
    have shorter := ih (List.reverse_cons ▸ trail).of_append distinct.tail
    exact shorter.round (trail.round distinct)

/-- Redirection passes the names of a trail one after another. -/
theorem followOverrides_trail {start first : String} {bound : Nat} (trail : Trail setting (current :: passed).reverse)
    (distinct : (current :: passed).Nodup) (starts : (current :: passed).getLast? = some first) :
    followOverrides setting start (bound + passed.length) [first] first =
      followOverrides setting start bound (current :: passed) current := by
  induction passed generalizing current bound with
  | nil =>
    obtain rfl := Option.some.inj starts
    rfl
  | cons previous passed ih =>
    rw [List.getLast?_cons_cons] at starts
    rw [List.length_cons, ← Nat.add_assoc, Nat.add_right_comm,
      ih (List.reverse_cons ▸ trail).of_append distinct.tail starts, followOverrides_round (trail.round distinct)]

/-- What redirection comes to is decided at the last name of a trail. -/
theorem redirect_trail {first : String} (trail : Trail setting (current :: passed).reverse)
    (distinct : (current :: passed).Nodup) (starts : (current :: passed).getLast? = some first) :
    ∃ bound, redirect setting first = followOverrides setting first (bound + 1) (current :: passed) current := by
  have fewer : passed.length ≤ setting.configuration.notFoundOverrides.length := (trail.chain distinct).length_le
  refine ⟨setting.configuration.notFoundOverrides.length - passed.length, ?_⟩
  rw [← followOverrides_trail trail distinct starts, redirect]
  congr 1
  omega

/-- The first item of a list that was there before. -/
theorem exists_first_repetition {α : Type} {items : List α} (repeated : ¬ items.Nodup) :
    ∃ early item late, items = early ++ item :: late ∧ early.Nodup ∧ item ∈ early := by
  induction items using List.reverseRecOn with
  | nil => exact absurd List.nodup_nil repeated
  | append_singleton items item ih =>
    by_cases distinct : items.Nodup
    · refine ⟨items, item, [], rfl, distinct, by_contra fun fresh => repeated ?_⟩
      exact List.nodup_append_comm.mpr (List.nodup_cons.mpr ⟨fresh, distinct⟩)
    · obtain ⟨early, other, late, rfl, before, again⟩ := ih distinct
      exact ⟨early, other, late ++ [item], by simp, before, again⟩

/-- A trail that comes back to one of its names is a cycle, and is told up to the first repetition. -/
theorem redirect_cycle (trail : Trail setting (name :: passed)) (repeated : ¬ (name :: passed).Nodup) :
    ∃ early again, redirect setting name = .error (.overrideCycle (early ++ [again])) ∧
      early.head? = some name ∧ Linked setting (early ++ [again]) ∧ early.Nodup ∧ again ∈ early := by
  obtain ⟨early, again, late, split, distinct, member⟩ := exists_first_repetition repeated
  have whole : Trail setting ((early ++ [again]) ++ late) := by
    rwa [List.append_assoc, List.singleton_append, ← split]
  have trail := whole.of_append.of_append
  have linked := whole.of_append.linked
  have starts : early.head? = some name := by
    cases early with
    | nil => cases member
    | cons first rest => rw [List.head?_cons, (List.cons.inj split).1]
  refine ⟨early, again, ?_, starts, linked, distinct, member⟩
  cases back : early.reverse with
  | nil => rw [List.reverse_eq_nil_iff.mp back] at member; cases member
  | cons current earlier =>
    obtain rfl : early = (current :: earlier).reverse := by rw [← back, List.reverse_reverse]
    rw [List.head?_reverse] at starts
    obtain ⟨bound, decided⟩ := redirect_trail trail (List.nodup_reverse.mp distinct) starts
    rw [List.reverse_cons, List.append_assoc] at linked
    have entry := (linked_cons_cons.mp linked.right_of_append).1
    rw [decided, followOverrides, entry]
    have told : (again :: current :: earlier).reverse = (current :: earlier).reverse ++ [again] := List.reverse_cons
    simp only [List.mem_reverse.mp member, if_true, told]

/-- A trail whose last name has no entry dangles there. -/
theorem redirect_dangling (trail : Trail setting (name :: passed ++ [last]))
    (ended : setting.configuration.notFoundOverrides.lookup last = none) :
    redirect setting name = .error (.unknownOverrideTarget name last) := by
  have distinct : (name :: passed ++ [last]).Nodup := trail.linked.nodup fun other found => by
    rw [List.getLast?_concat] at found
    exact Option.some.inj found ▸ ended
  have different : last ≠ name := by
    rintro rfl
    exact (List.nodup_cons.mp distinct).1 (List.mem_append_right passed List.mem_cons_self)
  have back : name :: passed ++ [last] = (last :: (name :: passed).reverse).reverse := by simp
  rw [back] at trail distinct
  have starts : (last :: (name :: passed).reverse).getLast? = some name := by
    rw [List.reverse_cons, ← List.cons_append]
    exact List.getLast?_concat
  obtain ⟨bound, decided⟩ := redirect_trail trail (List.nodup_reverse.mp distinct) starts
  rw [decided, followOverrides, ended]
  simp only [different, if_false]

theorem redirect_unsupported (ended : setting.configuration.notFoundOverrides.lookup name = none) :
    redirect setting name = .error (.unsupportedName name) := by
  rw [redirect, followOverrides, ended]
  simp only [if_true]

/-- The first known name along the overrides is what the names before it stand for. -/
theorem Trail.standsFor (trail : Trail setting (name :: passed))
    (linked : Linked setting (name :: passed ++ [target])) (known : setting.context.isKnown target) :
    StandsFor setting name target := by
  have unknown := trail.unknown name List.mem_cons_self
  induction passed generalizing name with
  | nil => exact .overridden unknown (linked_cons_cons.mp linked).1 (.known known)
  | cons next passed ih =>
    obtain ⟨entry, further⟩ := linked_cons_cons.mp linked
    have rest : Trail setting (next :: passed) :=
      ⟨trail.linked.tail, fun other member => trail.unknown other (List.mem_cons_of_mem name member)⟩
    exact .overridden unknown entry (ih rest further (rest.unknown next List.mem_cons_self))

theorem Linked.concat (linked : Linked setting (names ++ [last]))
    (entry : setting.configuration.notFoundOverrides.lookup last = some next) :
    Linked setting (names ++ [last] ++ [next]) := by
  rw [List.append_assoc]
  exact List.isChain_split.mpr ⟨linked, linked_cons_cons.mpr ⟨entry, List.isChain_singleton next⟩⟩

/-- A trail that passes no name twice is no longer than the table and one. -/
theorem Trail.length_le (trail : Trail setting names) (distinct : names.Nodup) :
    names.length ≤ setting.configuration.notFoundOverrides.length + 1 := by
  cases back : names.reverse with
  | nil => simp [List.reverse_eq_nil_iff.mp back]
  | cons current earlier =>
    obtain rfl : names = (current :: earlier).reverse := by rw [← back, List.reverse_reverse]
    rw [List.length_reverse, List.length_cons]
    exact Nat.succ_le_succ (trail.chain (List.nodup_reverse.mp distinct)).length_le

section

variable (setting name)

def EndsKnown : Prop :=
  ∃ passed target, Trail setting (name :: passed) ∧ Linked setting (name :: passed ++ [target]) ∧
    setting.context.isKnown target

/-- They come back to a name passed before. -/
def EndsInCycle : Prop := ∃ passed, Trail setting (name :: passed) ∧ ¬ (name :: passed).Nodup

/-- They end at another name that is not known and has no entry. -/
def EndsDangling : Prop :=
  ∃ passed last, Trail setting (name :: passed ++ [last]) ∧
    setting.configuration.notFoundOverrides.lookup last = none

end

/-- A trail goes on unless the overrides end. -/
theorem exists_trail (unknown : ¬ setting.context.isKnown name) (endless : ¬ (EndsKnown setting name ∨
    EndsDangling setting name ∨ setting.configuration.notFoundOverrides.lookup name = none)) (count : Nat) :
    ∃ passed, passed.length = count ∧ Trail setting (name :: passed) := by
  induction count with
  | zero =>
    refine ⟨[], rfl, List.isChain_singleton name, fun other member => ?_⟩
    exact List.mem_singleton.mp member ▸ unknown
  | succ count ih =>
    obtain ⟨passed, rfl, trail⟩ := ih
    obtain ⟨early, last, split⟩ : ∃ early last, name :: passed = early ++ [last] :=
      ⟨_, _, (List.dropLast_append_getLast (List.cons_ne_nil name passed)).symm⟩
    cases entry : setting.configuration.notFoundOverrides.lookup last with
    | none =>
      cases early with
      | nil =>
        obtain rfl : name = last := (List.cons.inj split).1
        exact absurd (.inr (.inr entry)) endless
      | cons first early =>
        obtain rfl : name = first := (List.cons.inj split).1
        exact absurd (.inr (.inl ⟨early, last, split ▸ trail, entry⟩)) endless
    | some next =>
      have linked : Linked setting (name :: passed ++ [next]) := by
        rw [split]
        exact (split ▸ trail.linked).concat entry
      by_cases known : setting.context.isKnown next
      · exact absurd (.inl ⟨passed, next, trail, linked, known⟩) endless
      · refine ⟨passed ++ [next], List.length_append, linked, fun other member => ?_⟩
        rcases List.mem_append.mp (List.cons_append .. ▸ member) with former | own
        · exact trail.unknown other former
        · exact List.mem_singleton.mp own ▸ known

/-- Overrides end in one of four ways, since the table is finite. -/
theorem ends_of_unknown (unknown : ¬ setting.context.isKnown name) : EndsKnown setting name ∨
    EndsInCycle setting name ∨ EndsDangling setting name ∨
    setting.configuration.notFoundOverrides.lookup name = none := by
  by_cases ended : EndsKnown setting name ∨ EndsDangling setting name ∨
      setting.configuration.notFoundOverrides.lookup name = none
  · rcases ended with known | dangling | nothing
    · exact .inl known
    · exact .inr (.inr (.inl dangling))
    · exact .inr (.inr (.inr nothing))
  · obtain ⟨passed, long, trail⟩ := exists_trail unknown ended
      (setting.configuration.notFoundOverrides.length + 1)
    refine .inr (.inl ⟨passed, trail, fun distinct => ?_⟩)
    have short := trail.length_le distinct
    rw [List.length_cons, long] at short
    omega

theorem mem_registered_of_emit {before after : Progress} {registration : Registration}
    (gives : Gives (emit setting name) before registration after) : name ∈ after.registered := by
  rcases gives_emit.mp gives with ⟨held, -, rfl⟩ | ⟨-, -, declaration, made, middle, -, replayed, written⟩
  · exact held
  · have marked := (keeps_replay frame_extends extends_note (extends_emit setting) _).of_gives replayed
    exact (extends_write setting _ _).of_gives written (marked List.mem_cons_self)

theorem register_of_known (known : setting.context.isKnown name) : register setting name = emit setting name := by
  rw [register, registerBy, if_pos known]

/-- A name that stands for a known one is registered through it. -/
theorem register_of_standsFor (unknown : ¬ setting.context.isKnown name) (stands : StandsFor setting name target) :
    register setting name = (do
      let _ ← register setting target
      return .redirected target) := by
  rw [register, registerBy, if_neg unknown, (redirect_eq_ok_iff unknown).mpr stands,
    register_of_known stands.isKnown]

/-- A name that stands for nothing changes nothing. -/
theorem fails_register {error : GenerationError} (unknown : ¬ setting.context.isKnown name)
    (failed : redirect setting name = .error error) (before : Progress) :
    Fails (register setting name) before error before := by
  rw [register, registerBy, if_neg unknown, failed]
  exact fails_throw.mpr ⟨rfl, rfl⟩

/-- What becomes of a name that is not known. If the first known name along its overrides is reached, that
one is registered in its place, and the answer is the same ever after; if the overrides come back to one
of their names, end at a name without an entry or never start, registration fails with the trail or the
name in question and does nothing. One of the four is the case. -/
theorem register_of_unknown (unknown : ¬ setting.context.isKnown name) (before : Progress) :
    (∀ passed target, Trail setting (name :: passed) → Linked setting (name :: passed ++ [target]) →
      setting.context.isKnown target →
      register setting name = (do
        let _ ← register setting target
        return .redirected target) ∧
      ∀ registration after, Gives (register setting name) before registration after →
        registration = .redirected target ∧ target ∈ after.registered ∧
        ∀ later, Extends after later → Gives (register setting name) later (.redirected target) later) ∧
    (∀ passed, Trail setting (name :: passed) → ¬ (name :: passed).Nodup →
      ∃ early again, Fails (register setting name) before (.overrideCycle (early ++ [again])) before ∧
        early.head? = some name ∧ Linked setting (early ++ [again]) ∧ early.Nodup ∧ again ∈ early) ∧
    (∀ passed last, Trail setting (name :: passed ++ [last]) →
      setting.configuration.notFoundOverrides.lookup last = none →
      Fails (register setting name) before (.unknownOverrideTarget name last) before) ∧
    (setting.configuration.notFoundOverrides.lookup name = none →
      Fails (register setting name) before (.unsupportedName name) before) ∧
    (EndsKnown setting name ∨ EndsInCycle setting name ∨ EndsDangling setting name ∨
      setting.configuration.notFoundOverrides.lookup name = none) := by
  refine ⟨fun passed target trail linked known => ?_, fun passed trail repeated => ?_,
    fun passed last trail ended => ?_, fun ended => ?_, ends_of_unknown unknown⟩
  · have through := register_of_standsFor unknown (trail.standsFor linked known)
    refine ⟨through, fun registration after gives => ?_⟩
    rw [through, register_of_known known] at gives ⊢
    obtain ⟨_, _, emitted, done⟩ := gives_bind.mp gives
    obtain ⟨rfl, rfl⟩ := gives_pure.mp done
    have held := mem_registered_of_emit emitted
    refine ⟨rfl, held, fun later extended => ?_⟩
    have again : Gives (emit setting target) later (.alreadyEmitted target) later :=
      gives_emit.mpr (.inl ⟨extended held, rfl, rfl⟩)
    exact gives_bind.mpr ⟨_, later, again, gives_pure.mpr ⟨rfl, rfl⟩⟩
  · obtain ⟨early, again, failed, cycle⟩ := redirect_cycle trail repeated
    exact ⟨early, again, fails_register unknown failed before, cycle⟩
  · exact fails_register unknown (redirect_dangling trail ended) before
  · exact fails_register unknown (redirect_unsupported ended) before

/-- A structure that another name leads to, names that lead in a circle, and one that leads nowhere. -/
def handleSetting : Setting where
  configuration := {
    includeDirs := []
    libraries := []
    outputDir := "out"
    namespaceName := "Handles"
    forceClear := false
    forceTypes := []
    notFoundOverrides := [("Alias", "Handle"), ("Far", "Missing"), ("Handle", "Node"), ("Left", "Right"),
      ("Middle", "Right"), ("Right", "Middle")]
    macroSearches := []
    primitiveTypes := none
    typedefStrategies := []
    nameOverrides := []
    anonymousEnumPrefixes := [] }
  context := ⟨[("Node", .struct ⟨"Node", [⟨"next", .pointer (.tag (.named "Node"))⟩], false, false⟩)], [], []⟩
  primitives := []
  constants := []
  sink := .memory none

theorem register_of_unknown_handles :
    (∃ after, Gives (register handleSetting "Alias") .start (.redirected "Node") after ∧
      "Node" ∈ after.registered) ∧
    (∃ early again, Fails (register handleSetting "Left") .start (.overrideCycle (early ++ [again])) .start ∧
      early.head? = some "Left" ∧ again ∈ early) ∧
    Fails (register handleSetting "Far") .start (.unknownOverrideTarget "Far" "Missing") .start ∧
    Fails (register handleSetting "Other") .start (.unsupportedName "Other") .start := by
  have trail (names : List String) (linked : Linked handleSetting names)
      (unknown : names.all (!handleSetting.context.isKnown ·)) : Trail handleSetting names :=
    ⟨linked, fun name member => by simpa using List.all_eq_true.mp unknown name member⟩
  have aliased : Linked handleSetting (["Alias", "Handle"] ++ ["Node"]) :=
    linked_cons_cons.mpr ⟨rfl, linked_cons_cons.mpr ⟨rfl, List.isChain_singleton _⟩⟩
  have circle : Linked handleSetting ["Left", "Right", "Middle", "Right"] :=
    linked_cons_cons.mpr ⟨rfl, linked_cons_cons.mpr ⟨rfl, linked_cons_cons.mpr ⟨rfl, List.isChain_singleton _⟩⟩⟩
  have far : Linked handleSetting ["Far", "Missing"] := linked_cons_cons.mpr ⟨rfl, List.isChain_singleton _⟩
  have reached := (@register_of_unknown handleSetting "Alias" (by decide) .start).1 ["Handle"] "Node"
    (trail _ aliased.left_of_append rfl) aliased rfl
  have cycle := (@register_of_unknown handleSetting "Left" (by decide) .start).2.1 ["Right", "Middle", "Right"]
    (trail _ circle rfl) (by decide)
  have dangling := (@register_of_unknown handleSetting "Far" (by decide) .start).2.2.1 [] "Missing"
    (trail _ far rfl) rfl
  have nothing := (@register_of_unknown handleSetting "Other" (by decide) .start).2.2.2.1 rfl
  obtain ⟨early, again, failed, starts, -, -, member⟩ := cycle
  have registered : ∃ after, Gives (register handleSetting "Alias") .start (.redirected "Node") after := ⟨_, rfl⟩
  obtain ⟨after, gives⟩ := registered
  exact ⟨⟨after, gives, (reached.2 _ after gives).2.1⟩, ⟨early, again, failed, starts, member⟩, dangling, nothing⟩

end Interop.Session
