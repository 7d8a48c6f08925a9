import Interop.Proofs.Grammar

/-! Where failures point. A failure covers the character that was not expected, the end of the text, or a part
of the text that was read and then refused. Every way of putting parsers together keeps this if the parsers
keep their place in the text, and a refusal covers something if the parser before it reads something. -/
namespace Interop.Grammar

variable {α β : Type}

/-- All of the text that the cursor does not count as read is still to come. -/
def Cursor.StandsIn (cursor : Cursor) (input : List Char) : Prop :=
  ∃ read, input = read ++ cursor.rest ∧ read.length = cursor.position

/-- What a failure complains of is where the failure points. -/
def Failure.PointsInto (failure : Failure) (input : List Char) : Prop :=
  match failure.complaint with
  | .unexpected c => failure.stop = failure.start + 1 ∧ input[failure.start]? = some c
  | .endOfInput => failure.start = input.length ∧ failure.stop = input.length
  | .rejected _ => failure.start < failure.stop ∧ failure.stop ≤ input.length

/-- An outcome no earlier in the text than a position, with failures that all point into the text. -/
def Outcome.IsPlaced (input : List Char) (position : Nat) : Outcome α → Prop
  | .accept _ next missed =>
    next.StandsIn input ∧ position ≤ next.position ∧ ∀ failure ∈ missed, failure.PointsInto input
  | .reject failure => failure.PointsInto input

/-- A parser keeps its place in every text, and reads at least so many characters where it accepts. -/
def Tracks (least : Nat) (parser : Parser α) : Prop :=
  ∀ input cursor, cursor.StandsIn input → (parser cursor).IsPlaced input (cursor.position + least)

section Places

variable {input rest : List Char} {position : Nat} {cursor : Cursor} {failure later earlier : Failure} {c : Char}

theorem Cursor.standsIn_start (text : String) : (Cursor.start text).StandsIn text.toList := ⟨[], rfl, rfl⟩

theorem Cursor.StandsIn.position_le (stands : cursor.StandsIn input) : cursor.position ≤ input.length := by
  obtain ⟨read, rfl, length⟩ := stands
  rw [List.length_append]
  omega

theorem Cursor.StandsIn.next (stands : Cursor.StandsIn ⟨position, c :: rest⟩ input) :
    Cursor.StandsIn ⟨position + 1, rest⟩ input := by
  obtain ⟨read, rfl, length⟩ := stands
  refine ⟨read ++ [c], by simp, ?_⟩
  rw [List.length_append, length]
  rfl

theorem Cursor.StandsIn.skipBlank (stands : cursor.StandsIn input) : cursor.skipBlank.StandsIn input := by
  obtain ⟨read, rfl, length⟩ := stands
  refine ⟨read ++ cursor.rest.takeWhile Text.isBlank, ?_, ?_⟩
  · rw [Cursor.skipBlank, List.append_assoc, List.takeWhile_append_dropWhile]
  · rw [List.length_append, length]
    rfl

theorem Cursor.position_le_skipBlank (cursor : Cursor) : cursor.position ≤ cursor.skipBlank.position :=
  Nat.le_add_right _ _

theorem Cursor.StandsIn.pointsInto_failure (stands : cursor.StandsIn input) : cursor.failure.PointsInto input := by
  obtain ⟨position, rest⟩ := cursor
  obtain ⟨read, rfl, rfl⟩ := stands
  cases rest with
  | nil => simp [Cursor.failure, Failure.PointsInto]
  | cons c rest => simp [Cursor.failure, Failure.PointsInto]

theorem Failure.PointsInto.max (points : later.PointsInto input) (points' : earlier.PointsInto input) :
    (later.max earlier).PointsInto input := by
  unfold Failure.max
  split
  · exact points'
  · exact points

theorem Failure.PointsInto.after {missed : Option Failure} (points : later.PointsInto input)
    (points' : ∀ failure ∈ missed, failure.PointsInto input) : (later.after missed).PointsInto input := by
  cases missed with
  | none => exact points
  | some earlier => exact points.max (points' earlier rfl)

theorem pointsInto_furthest {missed missed' : Option Failure} (points : ∀ failure ∈ missed, failure.PointsInto input)
    (points' : ∀ failure ∈ missed', failure.PointsInto input) :
    ∀ failure ∈ furthest missed missed', failure.PointsInto input := by
  cases missed with
  | none => exact points'
  | some later =>
    intro failure member
    obtain rfl := Option.some.inj member
    exact (points later rfl).after points'

/-- A failure covers nothing only at the end of the text, where nothing is left to cover. -/
theorem Failure.PointsInto.bounds (points : failure.PointsInto input) :
    failure.start ≤ failure.stop ∧ failure.stop ≤ input.length ∧
      (failure.start = failure.stop → failure.start = input.length ∧ failure.complaint = .endOfInput) := by
  obtain ⟨reach, start, stop, complaint⟩ := failure
  cases complaint with
  | unexpected c =>
    obtain ⟨rfl, found⟩ : stop = start + 1 ∧ input[start]? = some c := points
    obtain ⟨inside, -⟩ := List.getElem?_eq_some_iff.mp found
    exact ⟨Nat.le_succ start, inside, fun same => absurd same (Nat.succ_ne_self start).symm⟩
  | endOfInput =>
    obtain ⟨rfl, rfl⟩ : start = input.length ∧ stop = input.length := points
    exact ⟨Nat.le_refl _, Nat.le_refl _, fun _ => ⟨rfl, rfl⟩⟩
  | rejected message =>
    obtain ⟨before, inside⟩ : start < stop ∧ stop ≤ input.length := points
    exact ⟨Nat.le_of_lt before, inside, fun same => absurd same (Nat.ne_of_lt before)⟩

end Places

section Parsers

open Grammar.Parser

variable {first second parser item : Parser α} {least early late : Nat}

theorem Tracks.mono (tracks : Tracks least parser) {fewer : Nat} (le : fewer ≤ least) : Tracks fewer parser := by
  intro input cursor stands
  have read := tracks input cursor stands
  cases outcome : parser cursor with
  | reject failure => rwa [outcome] at read
  | accept value next missed =>
    rw [outcome] at read
    obtain ⟨stands', further, points⟩ := read
    exact ⟨stands', by omega, points⟩

theorem Tracks.weaken (tracks : Tracks least parser) : Tracks 0 parser := tracks.mono (Nat.zero_le least)

theorem tracks_pure (value : α) : Tracks 0 (pure value) :=
  fun _ cursor stands => ⟨stands, Nat.le_refl cursor.position, by rintro _ ⟨⟩⟩

theorem tracks_fail : Tracks least (fun cursor => .reject cursor.failure : Parser α) :=
  fun _ _ stands => stands.pointsInto_failure

theorem Tracks.bind {next : α → Parser β} (before : Tracks early first) (after : ∀ value, Tracks late (next value)) :
    Tracks (early + late) (first >>= next) := by
  intro input cursor stands
  have read := before input cursor stands
  change (Parser.bind first next cursor).IsPlaced input _
  unfold Parser.bind
  cases outcome : first cursor with
  | reject failure => rwa [outcome] at read
  | accept value middle missed =>
    rw [outcome] at read
    obtain ⟨stands', further, points⟩ := read
    have read' := after value input middle stands'
    cases outcome' : next value middle with
    | reject failure =>
      rw [outcome'] at read'
      simp only [outcome']
      exact Failure.PointsInto.after read' points
    | accept result last later =>
      rw [outcome'] at read'
      obtain ⟨stands'', further', points'⟩ := read'
      simp only [outcome']
      exact ⟨stands'', by omega, pointsInto_furthest points' points⟩

/-- Parsers in a row, none of which has to read anything. -/
theorem Tracks.followed {next : α → Parser β} (before : Tracks 0 first) (after : ∀ value, Tracks 0 (next value)) :
    Tracks 0 (first >>= next) :=
  before.bind after

theorem Tracks.map (f : α → β) (tracks : Tracks least first) : Tracks least (f <$> first) :=
  tracks.bind fun value => tracks_pure (f value)

theorem tracks_satisfy (test : Char → Bool) : Tracks 1 (satisfy test) := by
  rintro input ⟨position, rest⟩ stands
  cases rest with
  | nil => exact stands.pointsInto_failure
  | cons c rest =>
    unfold satisfy
    dsimp only
    split
    · exact ⟨stands.next, Nat.le_refl _, by rintro _ ⟨⟩⟩
    · exact stands.pointsInto_failure

theorem tracks_char (c : Char) : Tracks 1 (char c) := tracks_satisfy (· == c)

theorem tracks_word (letters : List Char) : Tracks 0 (word letters) := by
  induction letters with
  | nil => exact tracks_pure ()
  | cons c letters ih => exact ((tracks_char c).bind fun _ => ih).weaken

theorem tracks_finish : Tracks 0 finish := by
  rintro input ⟨position, rest⟩ stands
  cases rest with
  | nil => exact ⟨stands, Nat.le_refl _, by rintro _ ⟨⟩⟩
  | cons c rest => exact stands.pointsInto_failure

theorem tracks_notNext (c : Char) : Tracks 0 (notNext c) := by
  intro input cursor stands
  have read := tracks_satisfy (· != c) input cursor stands
  unfold notNext
  cases outcome : satisfy (· != c) cursor with
  | reject failure => rwa [outcome] at read
  | accept => exact ⟨stands, Nat.le_refl _, by rintro _ ⟨⟩⟩

theorem Tracks.orElse (tracks : Tracks least first) (tracks' : Tracks least second) :
    Tracks least (first.orElse second) := by
  intro input cursor stands
  have read := tracks input cursor stands
  have read' := tracks' input cursor stands
  unfold Parser.orElse
  cases outcome : first cursor with
  | accept value next missed => rwa [outcome] at read
  | reject earlier =>
    rw [outcome] at read
    cases outcome' : second cursor with
    | accept value next missed => rwa [outcome'] at read'
    | reject later =>
      rw [outcome'] at read'
      exact Failure.PointsInto.max read' read

theorem tracks_choice {others : List (Parser α)} {last : Parser α} (tracks : ∀ parser ∈ others, Tracks least parser)
    (tracks' : Tracks least last) : Tracks least (choice others last) := by
  induction others with
  | nil => exact tracks'
  | cons first others ih =>
    obtain ⟨own, later⟩ := List.forall_mem_cons.mp tracks
    exact own.orElse (ih later)

theorem Tracks.optional (tracks : Tracks least parser) : Tracks 0 (Parser.optional parser) := by
  intro input cursor stands
  have read := tracks.weaken input cursor stands
  unfold Parser.optional
  cases outcome : parser cursor with
  | accept value next missed => rwa [outcome] at read
  | reject failure =>
    rw [outcome] at read
    refine ⟨stands, Nat.le_refl _, fun missed member => ?_⟩
    obtain rfl := Option.some.inj member
    exact read

theorem Tracks.manyWithin (tracks : Tracks least item) (bound : Nat) : Tracks 0 (item.manyWithin bound) := by
  induction bound with
  | zero => exact fun _ cursor stands => ⟨stands, Nat.le_refl cursor.position, by rintro _ ⟨⟩⟩
  | succ bound ih =>
    intro input cursor stands
    have read := tracks.weaken input cursor stands
    unfold Parser.manyWithin
    cases outcome : item cursor with
    | reject failure =>
      rw [outcome] at read
      refine ⟨stands, Nat.le_refl _, fun missed member => ?_⟩
      obtain rfl := Option.some.inj member
      exact read
    | accept value next missed =>
      rw [outcome] at read
      obtain ⟨stands', further, points⟩ := read
      have read' := ih input next stands'
      cases outcome' : item.manyWithin bound next with
      | reject failure =>
        rw [outcome'] at read'
        simp only [outcome']
        exact read'
      | accept values last later =>
        rw [outcome'] at read'
        obtain ⟨stands'', further', points'⟩ := read'
        simp only [outcome']
        exact ⟨stands'', by omega, pointsInto_furthest points' points⟩

theorem Tracks.many (tracks : Tracks least item) : Tracks 0 (Parser.many item) :=
  fun input cursor stands => tracks.manyWithin _ input cursor stands

theorem Tracks.atLeastOne (tracks : Tracks least item) : Tracks least (Parser.atLeastOne item) :=
  tracks.bind fun first => tracks.many.bind fun others => tracks_pure (first :: others)

theorem Tracks.padded (tracks : Tracks least parser) : Tracks least (Parser.padded parser) := by
  intro input cursor stands
  have skipped := cursor.position_le_skipBlank
  have read := tracks input cursor.skipBlank stands.skipBlank
  unfold Parser.padded
  cases outcome : parser cursor.skipBlank with
  | reject failure => rwa [outcome] at read
  | accept value next missed =>
    rw [outcome] at read
    obtain ⟨stands', further, points⟩ := read
    have skipped' := next.position_le_skipBlank
    exact ⟨stands'.skipBlank, by omega, points⟩

/-- A refusal covers the text that was read, so the parser has to read something. -/
theorem Tracks.checked {check : α → Except String β} (tracks : Tracks (least + 1) parser) :
    Tracks (least + 1) (Parser.checked parser check) := by
  intro input cursor stands
  have read := tracks input cursor stands
  unfold Parser.checked
  cases outcome : parser cursor with
  | reject failure => rwa [outcome] at read
  | accept value next missed =>
    rw [outcome] at read
    cases passed : check value with
    | ok result =>
      simp only [passed]
      exact read
    | error message =>
      obtain ⟨stands', further, -⟩ := read
      have covered : cursor.position < next.position := by omega
      simp only [passed]
      exact ⟨covered, stands'.position_le⟩

theorem Tracks.between {opening closing : Parser β} {before after : Nat} (opens : Tracks before opening)
    (tracks : Tracks least parser) (closes : Tracks after closing) :
    Tracks (before + (least + after)) (Parser.between opening closing parser) :=
  opens.bind fun _ => tracks.bind fun value => closes.bind fun _ => tracks_pure value

end Parsers

end Interop.Grammar
