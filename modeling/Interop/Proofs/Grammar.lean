import Interop.Grammar.Basic

/-! What parsers read. `Accepts` and `Rejects` say what a parser does with the characters that
follow, wherever in a text they stand and whatever failures are noted on the way; there is one
lemma for each way of putting parsers together. `Repeats` lists the items that `many` reads. -/
namespace Interop.Grammar

def skipBlank (input : List Char) : List Char := input.dropWhile Text.isBlank

theorem skipBlank_cons_blank {c : Char} (input : List Char) (blank : Text.isBlank c = true) :
    skipBlank (c :: input) = skipBlank input :=
  List.dropWhile_cons_of_pos blank

theorem skipBlank_cons {c : Char} (input : List Char) (visible : Text.isBlank c = false) :
    skipBlank (c :: input) = c :: input :=
  List.dropWhile_cons_of_neg (by rw [visible]; exact Bool.false_ne_true)

theorem skipBlank_skipBlank (input : List Char) : skipBlank (skipBlank input) = skipBlank input := by
  induction input with
  | nil => rfl
  | cons c input ih =>
    by_cases blank : Text.isBlank c = true
    · rw [skipBlank_cons_blank input blank, ih]
    · rw [skipBlank_cons input (Bool.not_eq_true _ ▸ blank), skipBlank_cons input (Bool.not_eq_true _ ▸ blank)]

theorem takeWhile_skipBlank (input : List Char) : (skipBlank input).takeWhile Text.isBlank = [] := by
  induction input with
  | nil => rfl
  | cons c input ih =>
    by_cases blank : Text.isBlank c = true
    · rw [skipBlank_cons_blank input blank, ih]
    · rw [skipBlank_cons input (Bool.not_eq_true _ ▸ blank), List.takeWhile_cons_of_neg blank]

theorem length_skipBlank_le (input : List Char) : (skipBlank input).length ≤ input.length :=
  (List.dropWhile_sublist Text.isBlank).length_le

def Visible (text : List Char) : Prop := ∃ c others, text = c :: others ∧ Text.isBlank c = false

theorem Visible.append {first : List Char} (visible : Visible first) (rest : List Char) : Visible (first ++ rest) := by
  obtain ⟨c, others, rfl, visible⟩ := visible
  exact ⟨c, others ++ rest, rfl, visible⟩

theorem Visible.skipBlank {text : List Char} (visible : Visible text) : skipBlank text = text := by
  obtain ⟨c, others, rfl, visible⟩ := visible
  exact skipBlank_cons others visible

theorem Visible.skipBlank_space {text : List Char} (visible : Visible text) : Grammar.skipBlank (' ' :: text) = text := by
  rw [skipBlank_cons_blank text (by decide), visible.skipBlank]

/-- What holds of the first character holds of the only one that can come next. -/
theorem forall_head?_cons {p : Char → Prop} {c : Char} {rest : List Char} (holds : p c) :
    ∀ d ∈ (c :: rest).head?, p d := by
  intro d front
  obtain rfl := Option.some.inj front
  exact holds

theorem not_mem_of_class {test : Char → Bool} {c : Char} {marks : List Char} (holds : test c = true)
    (others : marks.any test = false) : c ∉ marks :=
  fun member => List.any_eq_false.mp others c member holds

variable {α β : Type}

/-- The parser reads a value from the front of the input and leaves the rest. -/
def Accepts (parser : Parser α) (input : List Char) (value : α) (rest : List Char) : Prop :=
  ∀ position, ∃ stop missed, parser ⟨position, input⟩ = .accept value ⟨stop, rest⟩ missed

def Rejects (parser : Parser α) (input : List Char) : Prop :=
  ∀ position, ∃ failure, parser ⟨position, input⟩ = .reject failure

section Sequence

variable {first : Parser α} {second : α → Parser β} {input middle rest : List Char} {value : α} {result : β}

theorem accepts_pure (value : α) (input : List Char) : Accepts (pure value) input value input :=
  fun position => ⟨position, none, rfl⟩

theorem Accepts.bind (before : Accepts first input value middle) (after : Accepts (second value) middle result rest) :
    Accepts (first >>= second) input result rest := by
  intro position
  obtain ⟨stop, missed, read⟩ := before position
  obtain ⟨last, later, read'⟩ := after stop
  refine ⟨last, furthest later missed, ?_⟩
  change Parser.bind first second _ = _
  simp only [Parser.bind, read, read']

theorem Accepts.bind_rejects (before : Accepts first input value middle) (after : Rejects (second value) middle) :
    Rejects (first >>= second) input := by
  intro position
  obtain ⟨stop, missed, read⟩ := before position
  obtain ⟨failure, refused⟩ := after stop
  refine ⟨failure.after missed, ?_⟩
  change Parser.bind first second _ = _
  simp only [Parser.bind, read, refused]

theorem Rejects.bind (refused : Rejects first input) : Rejects (first >>= second) input := by
  intro position
  obtain ⟨failure, refused⟩ := refused position
  refine ⟨failure, ?_⟩
  change Parser.bind first second _ = _
  simp only [Parser.bind, refused]

theorem Accepts.map (f : α → β) (accepts : Accepts first input value rest) :
    Accepts (f <$> first) input (f value) rest :=
  accepts.bind (accepts_pure (f value) rest)

theorem Rejects.map (f : α → β) (rejects : Rejects first input) : Rejects (f <$> first) input :=
  rejects.bind

end Sequence

section Characters

open Grammar.Parser

variable {test : Char → Bool} {c : Char}

theorem accepts_satisfy (rest : List Char) (holds : test c = true) : Accepts (satisfy test) (c :: rest) c rest := by
  intro position
  refine ⟨position + 1, none, ?_⟩
  simp only [satisfy, if_pos holds]

theorem rejects_satisfy {input : List Char} (fails : ∀ c ∈ input.head?, test c = false) :
    Rejects (satisfy test) input := by
  intro position
  cases input with
  | nil => exact ⟨_, rfl⟩
  | cons c rest =>
    refine ⟨Cursor.failure ⟨position, c :: rest⟩, ?_⟩
    simp only [satisfy, fails c rfl, Bool.false_eq_true, if_false]

theorem accepts_char (c : Char) (rest : List Char) : Accepts (char c) (c :: rest) c rest :=
  accepts_satisfy rest (beq_self_eq_true c)

theorem rejects_char {input : List Char} (other : ∀ d ∈ input.head?, d ≠ c) : Rejects (char c) input :=
  rejects_satisfy fun d member => beq_eq_false_iff_ne.mpr (other d member)

theorem accepts_finish : Accepts finish [] () [] := fun position => ⟨position, none, rfl⟩

end Characters

section Alternatives

open Grammar.Parser

variable {first second : Parser α} {others : List (Parser α)} {last : Parser α}
  {input rest : List Char} {value : α}

theorem Accepts.orElse (accepts : Accepts first input value rest) :
    Accepts (first.orElse second) input value rest := by
  intro position
  obtain ⟨stop, missed, read⟩ := accepts position
  exact ⟨stop, missed, by simp only [Parser.orElse, read]⟩

theorem Rejects.orElse (refused : Rejects first input) (accepts : Accepts second input value rest) :
    Accepts (first.orElse second) input value rest := by
  intro position
  obtain ⟨failure, refused⟩ := refused position
  obtain ⟨stop, missed, read⟩ := accepts position
  exact ⟨stop, missed, by simp only [Parser.orElse, refused, read]⟩

theorem Rejects.orElse_rejects (refused : Rejects first input) (refused' : Rejects second input) :
    Rejects (first.orElse second) input := by
  intro position
  obtain ⟨failure, refused⟩ := refused position
  obtain ⟨failure', refused'⟩ := refused' position
  exact ⟨failure'.max failure, by simp only [Parser.orElse, refused, refused']⟩

theorem rejects_choice (refused : ∀ parser ∈ others, Rejects parser input) (refused' : Rejects last input) :
    Rejects (choice others last) input := by
  induction others with
  | nil => exact refused'
  | cons first others ih =>
    exact (refused first List.mem_cons_self).orElse_rejects
      (ih fun parser member => refused parser (List.mem_cons_of_mem first member))

theorem Accepts.optional (accepts : Accepts first input value rest) :
    Accepts (Parser.optional first) input (some value) rest := by
  intro position
  obtain ⟨stop, missed, read⟩ := accepts position
  exact ⟨stop, missed, by simp only [Parser.optional, read]⟩

theorem Rejects.optional (refused : Rejects first input) : Accepts (Parser.optional first) input none input := by
  intro position
  obtain ⟨failure, refused⟩ := refused position
  exact ⟨position, some failure, by simp only [Parser.optional, refused]⟩

end Alternatives

section Repetition

open Grammar.Parser

variable {item : Parser α}

/-- The items that follow one another until the parser rejects. -/
inductive Repeats (item : Parser α) : List Char → List α → List Char → Prop where
  | done {input : List Char} (refused : Rejects item input) : Repeats item input [] input
  | next {input middle rest : List Char} {value : α} {values : List α}
      (accepts : Accepts item input value middle) (shorter : middle.length < input.length)
      (others : Repeats item middle values rest) : Repeats item input (value :: values) rest

theorem Repeats.manyWithin {input rest : List Char} {values : List α} (repeats : Repeats item input values rest)
    {bound : Nat} (enough : input.length < bound) : Accepts (item.manyWithin bound) input values rest := by
  induction repeats generalizing bound with
  | done refused =>
    obtain ⟨bound, rfl⟩ := Nat.exists_eq_add_one.mpr (Nat.zero_lt_of_lt enough)
    intro position
    obtain ⟨failure, refused⟩ := refused position
    exact ⟨position, some failure, by simp only [Parser.manyWithin, refused]⟩
  | next accepts shorter _ ih =>
    obtain ⟨bound, rfl⟩ := Nat.exists_eq_add_one.mpr (Nat.zero_lt_of_lt enough)
    intro position
    obtain ⟨stop, missed, read⟩ := accepts position
    obtain ⟨last, later, read'⟩ := ih (by omega : _ < bound) stop
    exact ⟨last, furthest later missed, by simp only [Parser.manyWithin, read, read']⟩

theorem Repeats.many {input rest : List Char} {values : List α} (repeats : Repeats item input values rest) :
    Accepts (Parser.many item) input values rest :=
  repeats.manyWithin (Nat.lt_succ_self input.length)

theorem Repeats.atLeastOne {input rest : List Char} {value : α} {values : List α}
    (repeats : Repeats item input (value :: values) rest) :
    Accepts (Parser.atLeastOne item) input (value :: values) rest := by
  cases repeats with
  | next accepts _ others => exact accepts.bind (others.many.bind (accepts_pure (value :: values) rest))

theorem Rejects.atLeastOne {input : List Char} (refused : Rejects item input) :
    Rejects (Parser.atLeastOne item) input :=
  refused.bind

/-- Characters of one class are read up to the first other one. -/
theorem repeats_satisfy {test : Char → Bool} {letters rest : List Char} (holds : ∀ c ∈ letters, test c = true)
    (fails : ∀ c ∈ rest.head?, test c = false) : Repeats (satisfy test) (letters ++ rest) letters rest := by
  induction letters with
  | nil => exact .done (rejects_satisfy fails)
  | cons c letters ih =>
    refine .next (accepts_satisfy _ (holds c List.mem_cons_self)) ?_ ?_
    · exact Nat.lt_succ_self _
    · exact ih fun d member => holds d (List.mem_cons_of_mem c member)

end Repetition

section Surroundings

open Grammar.Parser

variable {parser : Parser α} {opening closing : Parser β} {input rest : List Char} {value : α}

theorem Accepts.padded (accepts : Accepts parser (skipBlank input) value rest) :
    Accepts (Parser.padded parser) input value (skipBlank rest) := by
  intro position
  obtain ⟨stop, missed, read⟩ := accepts (Cursor.skipBlank ⟨position, input⟩).position
  change parser (Cursor.skipBlank ⟨position, input⟩) = _ at read
  exact ⟨(Cursor.skipBlank ⟨stop, rest⟩).position, missed, by simp only [Parser.padded, read]; rfl⟩

/-- Where no white space comes first, a parser with white space around starts at once. -/
theorem Visible.accepts_padded (visible : Visible input) (accepts : Accepts parser input value rest) :
    Accepts (Parser.padded parser) input value (Grammar.skipBlank rest) :=
  Accepts.padded (by rwa [visible.skipBlank])

theorem Rejects.padded (refused : Rejects parser (skipBlank input)) : Rejects (Parser.padded parser) input := by
  intro position
  obtain ⟨failure, refused⟩ := refused (Cursor.skipBlank ⟨position, input⟩).position
  change parser (Cursor.skipBlank ⟨position, input⟩) = _ at refused
  exact ⟨failure, by simp only [Parser.padded, refused]⟩

theorem Visible.rejects_padded (visible : Visible input) (refused : Rejects parser input) :
    Rejects (Parser.padded parser) input :=
  Rejects.padded (by rwa [visible.skipBlank])

theorem Accepts.checked {check : α → Except String β} {result : β} (accepts : Accepts parser input value rest)
    (passes : check value = .ok result) : Accepts (Parser.checked parser check) input result rest := by
  intro position
  obtain ⟨stop, missed, read⟩ := accepts position
  exact ⟨stop, missed, by simp only [Parser.checked, read, passes]⟩

theorem Rejects.checked {check : α → Except String β} (refused : Rejects parser input) :
    Rejects (Parser.checked parser check) input := by
  intro position
  obtain ⟨failure, refused⟩ := refused position
  exact ⟨failure, by simp only [Parser.checked, refused]⟩

theorem Accepts.between {before after : List Char} {mark mark' : β} (opens : Accepts opening input mark before)
    (accepts : Accepts parser before value after) (closes : Accepts closing after mark' rest) :
    Accepts (Parser.between opening closing parser) input value rest :=
  opens.bind (accepts.bind (closes.bind (accepts_pure value rest)))

end Surroundings

section Blanks

open Grammar.Parser

def IgnoresBlank (parser : Parser α) : Prop := ∀ cursor : Cursor, parser cursor.skipBlank = parser cursor

theorem Cursor.skipBlank_skipBlank (cursor : Cursor) : cursor.skipBlank.skipBlank = cursor.skipBlank := by
  obtain ⟨position, input⟩ := cursor
  have none : (Grammar.skipBlank input).takeWhile Text.isBlank = [] := takeWhile_skipBlank input
  have again : (Grammar.skipBlank input).dropWhile Text.isBlank = Grammar.skipBlank input :=
    Grammar.skipBlank_skipBlank input
  change Cursor.mk (_ + ((Grammar.skipBlank input).takeWhile Text.isBlank).length)
    ((Grammar.skipBlank input).dropWhile Text.isBlank) = _
  rw [none, again]
  rfl

variable {first second : Parser α}

theorem ignoresBlank_padded (parser : Parser α) : IgnoresBlank (padded parser) := by
  intro cursor
  simp only [padded, Cursor.skipBlank_skipBlank]

theorem IgnoresBlank.bind (ignores : IgnoresBlank first) (next : α → Parser β) : IgnoresBlank (first >>= next) := by
  intro cursor
  change Parser.bind first next _ = Parser.bind first next _
  simp only [Parser.bind, ignores cursor]

theorem IgnoresBlank.orElse (ignores : IgnoresBlank first) (ignores' : IgnoresBlank second) :
    IgnoresBlank (first.orElse second) := by
  intro cursor
  simp only [Parser.orElse, ignores cursor, ignores' cursor]

theorem IgnoresBlank.accepts (ignores : IgnoresBlank first) {input rest : List Char} {value : α}
    (accepts : Accepts first (skipBlank input) value rest) : Accepts first input value rest := by
  intro position
  rw [← ignores ⟨position, input⟩]
  exact accepts _

end Blanks

section Invariants

open Grammar.Parser

def Preserves (holds : List Char → Prop) (parser : Parser α) : Prop :=
  ∀ cursor value next missed, holds cursor.rest → parser cursor = .accept value next missed → holds next.rest

variable {holds : List Char → Prop}

theorem preserves_pure (value : α) : Preserves holds (pure value) := by
  intro cursor _ next _ start read
  cases read
  exact start

theorem Preserves.bind {first : Parser α} {second : α → Parser β} (before : Preserves holds first)
    (after : ∀ value, Preserves holds (second value)) : Preserves holds (first >>= second) := by
  intro cursor result last _ start read
  change Parser.bind first second cursor = _ at read
  unfold Parser.bind at read
  split at read
  · cases read
  · rename_i value middle _ read'
    split at read
    · cases read
    · rename_i result' last' _ read''
      cases read
      exact after value _ _ _ _ (before _ _ _ _ start read') read''

theorem preserves_satisfy {test : Char → Bool}
    (kept : ∀ c rest, test c = true → holds (c :: rest) → holds rest) : Preserves holds (satisfy test) := by
  rintro ⟨position, input⟩ _ next _ start read
  cases input with
  | nil => cases read
  | cons c rest =>
    simp only [satisfy] at read
    split at read
    · rename_i passes
      cases read
      exact kept _ rest passes start
    · cases read

theorem Preserves.many {item : Parser α} (kept : Preserves holds item) : Preserves holds (Parser.many item) := by
  have within (bound : Nat) : Preserves holds (item.manyWithin bound) := by
    induction bound with
    | zero =>
      intro cursor _ _ _ start read
      cases read
      exact start
    | succ bound ih =>
      intro cursor _ _ _ start read
      unfold Parser.manyWithin at read
      split at read
      · cases read
        exact start
      · rename_i middle _ read'
        split at read
        · rename_i read''
          cases read
          exact ih _ _ _ _ (kept _ _ _ _ start read') read''
        · cases read
  exact fun cursor => within _ cursor

theorem Preserves.atLeastOne {item : Parser α} (kept : Preserves holds item) :
    Preserves holds (Parser.atLeastOne item) :=
  kept.bind fun value => kept.many.bind fun values => preserves_pure (value :: values)

theorem Preserves.padded {parser : Parser α} (kept : Preserves holds parser)
    (blank : ∀ input, holds input → holds (skipBlank input)) : Preserves holds (Parser.padded parser) := by
  intro cursor _ _ _ start read
  unfold Parser.padded at read
  split at read
  · rename_i read'
    cases read
    exact blank _ (kept _ _ _ _ (blank _ start) read')
  · cases read

/-- What follows is refused if everything that may be left is. -/
theorem Preserves.bind_rejects {first : Parser α} {second : α → Parser β} {input : List Char}
    (kept : Preserves holds first) (start : holds input)
    (refused : ∀ value rest, holds rest → Rejects (second value) rest) :
    Rejects (first >>= second) input := by
  intro position
  change ∃ failure, Parser.bind first second ⟨position, input⟩ = _
  unfold Parser.bind
  cases read : first ⟨position, input⟩ with
  | reject failure => exact ⟨failure, rfl⟩
  | accept value next missed =>
    obtain ⟨failure, refused⟩ := refused value next.rest (kept _ _ _ _ start read) next.position
    exact ⟨failure.after missed, by simp only [refused]⟩

end Invariants

end Interop.Grammar
