import Interop.Proofs.Document.Code

/-! Code read back from its text. A text is cut into lines, a line loses its indentation, braces on lines of
their own open and close blocks, and the line in front of an opening brace is the header of its block. This
gives the code again if none of its lines can be taken for a brace, for indentation, or for two lines. -/
namespace Interop

def Unbroken (text : String) : Prop := '\n' ∉ text.toList

instance (text : String) : Decidable (Unbroken text) := inferInstanceAs (Decidable ('\n' ∉ text.toList))

@[simp] theorem unbroken_append {front rest : String} : Unbroken (front ++ rest) ↔ Unbroken front ∧ Unbroken rest := by
  rw [Unbroken, String.toList_append, List.mem_append, not_or]
  rfl

theorem unbroken_intercalate {separator : String} {items : List String} (between : Unbroken separator)
    (unbroken : ∀ item ∈ items, Unbroken item) : Unbroken (separator.intercalate items) := by
  induction items with
  | nil => rw [String.intercalate_nil]; decide
  | cons first items ih =>
    obtain ⟨own, others⟩ := List.forall_mem_cons.mp unbroken
    cases items with
    | nil => rwa [String.intercalate_singleton]
    | cons second items =>
      rw [String.intercalate_cons_cons, unbroken_append, unbroken_append]
      exact ⟨⟨own, between⟩, ih others⟩

/-- A text that is a line of its own: it begins with something visible that is no brace. -/
structure IsLine (text : String) : Prop where
  begins : ∃ c ∈ text.toList.head?, c ≠ ' ' ∧ c ≠ '\x7b' ∧ c ≠ '\x7d'
  unbroken : Unbroken text

theorem isLine_iff {text : String} : IsLine text ↔
    text.toList.head?.any (fun c => c != ' ' && c != '\x7b' && c != '\x7d') = true ∧ Unbroken text := by
  constructor
  · rintro ⟨⟨c, first, visible, notOpening, notClosing⟩, unbroken⟩
    rw [Option.mem_def.mp first]
    exact ⟨by simp [visible, notOpening, notClosing], unbroken⟩
  · rintro ⟨begins, unbroken⟩
    cases first : text.toList.head? with
    | none => exact absurd begins (by simp [first])
    | some c => exact ⟨⟨c, first, by simpa [first, and_assoc] using begins⟩, unbroken⟩

instance (text : String) : Decidable (IsLine text) := decidable_of_iff' _ isLine_iff

theorem IsLine.append {front rest : String} (line : IsLine front) (unbroken : Unbroken rest) :
    IsLine (front ++ rest) where
  begins := by
    obtain ⟨c, first, visible⟩ := line.begins
    refine ⟨c, ?_, visible⟩
    rw [String.toList_append, List.head?_append, Option.mem_def.mp first]
    rfl
  unbroken := unbroken_append.mpr ⟨line.unbroken, unbroken⟩

theorem IsLine.ne {text : String} (line : IsLine text) : text ≠ "" ∧ text ≠ "\x7b" ∧ text ≠ "\x7d" := by
  obtain ⟨c, first, visible, notOpening, notClosing⟩ := line.begins
  refine ⟨?_, ?_, ?_⟩ <;> rintro rfl
  · cases first
  · exact notOpening (Option.some.inj first).symm
  · exact notClosing (Option.some.inj first).symm

namespace Layout

/-- What a step writes, line by line, but for indentation. -/
def written : WriterStep → List String
  | .line text => [text]
  | .blank => [""]
  | .openBlock header => [header, "\x7b"]
  | .closeBlock => ["\x7d"]

def splitLines : List Char → List (List Char)
  | [] => []
  | c :: rest =>
    if c = '\n' then [] :: splitLines rest
    else
      match splitLines rest with
      | [] => [[c]]
      | line :: lines => (c :: line) :: lines

def unindented (line : List Char) : String := String.ofList (line.dropWhile (· = ' '))

def row (depth : Nat) (text : String) : List Char := List.replicate (4 * depth) ' ' ++ text.toList

def stepOf (line : String) : WriterStep :=
  if line = "" then .blank else if line = "\x7d" then .closeBlock else .line line

def stepsOf : List String → List WriterStep
  | [] => []
  | [line] => [stepOf line]
  | line :: next :: rest =>
    if next = "\x7b" then .openBlock line :: stepsOf rest else stepOf line :: stepsOf (next :: rest)

/-- The code of steps, read from the last one: the code in front of what the steps close, and the code
that follows in each of the blocks around it. -/
def nest : List WriterStep → Option (List Code × List (List Code))
  | [] => some ([], [])
  | .line text :: steps => (nest steps).map fun (code, outer) => (.line text :: code, outer)
  | .blank :: steps => (nest steps).map fun (code, outer) => (.blank :: code, outer)
  | .closeBlock :: steps => (nest steps).map fun (code, outer) => ([], code :: outer)
  | .openBlock header :: steps =>
    match nest steps with
    | some (body, code :: outer) => some (.block header body :: code, outer)
    | _ => none

section

variable {line rest : List Char} {lines : List String} {steps : List WriterStep}

theorem splitLines_append (unbroken : '\n' ∉ line) : splitLines (line ++ '\n' :: rest) = line :: splitLines rest := by
  induction line with
  | nil => rfl
  | cons c line ih =>
    rw [List.mem_cons, not_or] at unbroken
    rw [List.cons_append, splitLines, if_neg (Ne.symm unbroken.1), ih unbroken.2]

theorem splitLines_indented {depth : Nat} {text : String} (unbroken : Unbroken text) :
    splitLines ((WriterStep.indented depth text).toList ++ rest) = row depth text :: splitLines rest := by
  have spelled : (WriterStep.indented depth text).toList ++ rest = row depth text ++ '\n' :: rest := by
    simp [row, WriterStep.indented, WriterStep.indentation]
  rw [spelled, splitLines_append]
  rw [row, List.mem_append, not_or]
  exact ⟨by simp, unbroken⟩

/-- The blanks in front of a text that begins otherwise are its indentation. -/
theorem span_row {depth : Nat} {text : String} (begins : ∀ c ∈ text.toList.head?, c ≠ ' ') :
    (row depth text).takeWhile (· = ' ') = List.replicate (4 * depth) ' ' ∧ unindented (row depth text) = text := by
  have blanks : ∀ c ∈ List.replicate (4 * depth) ' ', decide (c = ' ') = true :=
    fun c member => decide_eq_true (List.eq_of_mem_replicate member)
  rw [unindented, row, List.takeWhile_append_of_pos blanks, List.dropWhile_append_of_pos blanks]
  cases letters : text.toList with
  | nil => exact ⟨List.append_nil _, by rw [List.dropWhile_nil, ← letters, String.ofList_toList]⟩
  | cons c letters' =>
    have visible : c ≠ ' ' := begins c (by simp [letters])
    have whole : String.ofList (c :: letters') = text := by rw [← letters, String.ofList_toList]
    simp [visible, whole]

theorem lines_indented {depth : Nat} {text : String} (unbroken : Unbroken text)
    (begins : ∀ c ∈ text.toList.head?, c ≠ ' ') :
    (splitLines ((WriterStep.indented depth text).toList ++ rest)).map unindented =
      text :: (splitLines rest).map unindented := by
  rw [splitLines_indented unbroken, List.map_cons, (span_row begins).2]

def IsClean (step : WriterStep) : Prop := ∀ text, step.line? = some text → IsLine text

theorem lines_step {step : WriterStep} (clean : IsClean step) (depth : Nat) :
    (splitLines ((step.text depth).toList ++ rest)).map unindented =
      written step ++ (splitLines rest).map unindented := by
  have own {text : String} (line : IsLine text) (rest : List Char) :
      (splitLines ((WriterStep.indented depth text).toList ++ rest)).map unindented =
        text :: (splitLines rest).map unindented := by
    refine lines_indented line.unbroken fun c first => ?_
    obtain ⟨d, first', visible, -⟩ := line.begins
    exact Option.some.inj (first'.symm.trans first) ▸ visible
  cases step with
  | line text => exact own (clean text rfl) rest
  | blank =>
    have feed : ((WriterStep.blank).text depth).toList ++ rest = [] ++ '\n' :: rest := by simp [WriterStep.text]
    rw [feed, splitLines_append (by simp)]
    rfl
  | openBlock header =>
    rw [WriterStep.text, String.toList_append, List.append_assoc, own (clean header rfl),
      lines_indented (by decide) (by simp)]
    rfl
  | closeBlock => exact lines_indented (by decide) (by simp)

theorem lines_writeAll (clean : ∀ step ∈ steps, IsClean step) (depth : Nat) :
    (splitLines (WriterStep.writeAll depth steps).toList).map unindented = steps.flatMap written := by
  induction steps generalizing depth with
  | nil => rfl
  | cons step steps ih =>
    obtain ⟨first, others⟩ := List.forall_mem_cons.mp clean
    rw [WriterStep.writeAll, String.toList_append, lines_step first, ih others, List.flatMap_cons]

/-- An opening brace stands behind a header only. -/
theorem head?_written (clean : ∀ step ∈ steps, IsClean step) : (steps.flatMap written).head? ≠ some "\x7b" := by
  cases steps with
  | nil => rintro ⟨⟩
  | cons step steps =>
    have first := clean step List.mem_cons_self
    cases step with
    | line text | openBlock text => exact fun same => (first text rfl).ne.2.1 (Option.some.inj same)
    | blank | closeBlock => exact fun same => absurd (Option.some.inj same) (by decide)

theorem stepsOf_cons {line : String} (behind : lines.head? ≠ some "\x7b") :
    stepsOf (line :: lines) = stepOf line :: stepsOf lines := by
  cases lines with
  | nil => rfl
  | cons next lines => exact if_neg fun same => behind (congrArg some same)

theorem stepsOf_append {step : WriterStep} (clean : IsClean step) (behind : lines.head? ≠ some "\x7b") :
    stepsOf (written step ++ lines) = step :: stepsOf lines := by
  cases step with
  | line text =>
    obtain ⟨visible, -, notClosing⟩ := (clean text rfl).ne
    have own : stepOf text = .line text := by rw [stepOf, if_neg visible, if_neg notClosing]
    change stepsOf (text :: lines) = _
    rw [stepsOf_cons behind, own]
  | blank | closeBlock => exact stepsOf_cons behind
  | openBlock header => rfl

theorem stepsOf_written (clean : ∀ step ∈ steps, IsClean step) : stepsOf (steps.flatMap written) = steps := by
  induction steps with
  | nil => rfl
  | cons step steps ih =>
    obtain ⟨first, others⟩ := List.forall_mem_cons.mp clean
    rw [List.flatMap_cons, stepsOf_append first (head?_written others), ih others]

end

end Layout

namespace Code

open Layout

mutual

/-- Steps of code are nested again, in front of whatever follows them. -/
theorem nest_steps : (code : Code) → (rest : List WriterStep) →
    nest (code.steps ++ rest) = (nest rest).map fun (later, outer) => (code :: later, outer)
  | .line _, _ | .blank, _ => rfl
  | .block header body, rest => by
    have steps : (Code.block header body).steps ++ rest =
        .openBlock header :: (allSteps body ++ .closeBlock :: rest) := by
      simp [Code.steps]
    have closed := nest_allSteps body (.closeBlock :: rest)
    rw [steps, nest, closed, nest]
    cases nest rest <;> simp

theorem nest_allSteps : (code : List Code) → (rest : List WriterStep) →
    nest (allSteps code ++ rest) = (nest rest).map fun (later, outer) => (code ++ later, outer)
  | [], rest => by
    change nest rest = _
    cases nest rest <;> rfl
  | first :: code, rest => by
    rw [allSteps, List.append_assoc, nest_steps first, nest_allSteps code]
    cases nest rest <;> rfl

end

def ofText? (text : String) : Option (List Code) :=
  match nest (stepsOf ((splitLines text.toList).map unindented)) with
  | some (code, []) => some code
  | _ => none

/-- Code is read back from its text if its lines are lines of their own. -/
theorem ofText?_text {code : List Code} (clean : ∀ line ∈ lines code, IsLine line) :
    ofText? (text code) = some code := by
  have steps : ∀ step ∈ allSteps code, IsClean step := fun step member line found =>
    clean line (List.mem_filterMap.mpr ⟨step, member, found⟩)
  have nested := nest_allSteps code []
  rw [List.append_nil] at nested
  rw [ofText?, text, lines_writeAll steps, stepsOf_written steps, nested]
  simp [nest]

end Code

end Interop
