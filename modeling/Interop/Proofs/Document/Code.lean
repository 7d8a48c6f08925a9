import Interop.Document.Code

/-! Lines of code and its text. The text of code consists of its lines and headers, of blanks in front of
them, of braces and of line feeds: each line stands in the text, and what holds of all these pieces and of
texts put together holds of the text. -/
namespace Interop

/-- What a step writes but for indentation and braces. -/
def WriterStep.line? : WriterStep → Option String
  | .line text | .openBlock text => some text
  | .blank | .closeBlock => none

namespace Code

def lines (code : List Code) : List String := (allSteps code).filterMap WriterStep.line?

theorem allSteps_append (early late : List Code) : allSteps (early ++ late) = allSteps early ++ allSteps late := by
  induction early with
  | nil => rfl
  | cons code early ih => rw [List.cons_append, allSteps, allSteps, ih, List.append_assoc]

@[simp] theorem lines_nil : lines [] = [] := rfl

theorem lines_append (early late : List Code) : lines (early ++ late) = lines early ++ lines late := by
  rw [lines, allSteps_append, List.filterMap_append]
  rfl

@[simp] theorem lines_line (text : String) (rest : List Code) : lines (.line text :: rest) = text :: lines rest := rfl

@[simp] theorem lines_blank (rest : List Code) : lines (.blank :: rest) = lines rest := rfl

@[simp] theorem lines_block (header : String) (body rest : List Code) :
    lines (.block header body :: rest) = header :: lines body ++ lines rest := by
  simp [lines, allSteps, steps, WriterStep.line?, List.filterMap_cons]

theorem lines_flatMap {α : Type} (items : List α) (code : α → List Code) :
    lines (items.flatMap code) = items.flatMap fun item => lines (code item) := by
  induction items with
  | nil => rfl
  | cons item items ih => rw [List.flatMap_cons, lines_append, ih, List.flatMap_cons]

end Code

/-- What holds of the marks between lines, and of a text if it holds of its parts. -/
structure Composes (holds : List Char → Prop) : Prop where
  nil : holds []
  blank : holds [' ']
  feed : holds ['\n']
  opening : holds ['\x7b']
  closing : holds ['\x7d']
  append : ∀ {early late}, holds early → holds late → holds (early ++ late)

namespace WriterStep

variable {holds : List Char → Prop} {depth : Nat} {steps : List WriterStep} {line : String}

theorem infix_indented : line.toList <:+: (indented depth line).toList := by
  rw [indented, String.toList_append, String.toList_append]
  exact (List.suffix_append _ _).isInfix.trans (List.prefix_append _ _).isInfix

theorem infix_text {step : WriterStep} (found : step.line? = some line) :
    line.toList <:+: (step.text depth).toList := by
  cases step with
  | line text =>
    cases found
    exact infix_indented
  | openBlock header =>
    cases found
    rw [text, String.toList_append]
    exact infix_indented.trans (List.prefix_append _ _).isInfix
  | blank | closeBlock => cases found

theorem infix_writeAll {step : WriterStep} (member : step ∈ steps) (found : step.line? = some line) :
    line.toList <:+: (writeAll depth steps).toList := by
  induction steps generalizing depth with
  | nil => cases member
  | cons first steps ih =>
    rw [writeAll, String.toList_append]
    rcases List.mem_cons.mp member with rfl | member
    · exact (infix_text found).trans (List.prefix_append _ _).isInfix
    · exact (ih member).trans (List.suffix_append _ _).isInfix

theorem holds_indented (composes : Composes holds) (inside : holds line.toList) :
    holds (indented depth line).toList := by
  have blanks (n : Nat) : holds (List.replicate n ' ') := by
    induction n with
    | zero => exact composes.nil
    | succ n ih => exact composes.append composes.blank ih
  rw [indented, String.toList_append, String.toList_append, indentation, String.toList_ofList]
  exact composes.append (composes.append (blanks _) inside) composes.feed

theorem holds_writeAll (composes : Composes holds) (inside : ∀ line ∈ steps.filterMap line?, holds line.toList) :
    holds (writeAll depth steps).toList := by
  induction steps generalizing depth with
  | nil => exact composes.nil
  | cons step steps ih =>
    rw [writeAll, String.toList_append]
    refine composes.append ?_ (ih fun line member => inside line ?_)
    · cases step with
      | line text => exact holds_indented composes (inside text List.mem_cons_self)
      | blank => simpa [text] using composes.feed
      | openBlock header =>
        rw [text, String.toList_append]
        exact composes.append (holds_indented composes (inside header List.mem_cons_self))
          (holds_indented composes composes.opening)
      | closeBlock => exact holds_indented composes composes.closing
    · rw [List.filterMap_cons]
      split
      · exact member
      · exact List.mem_cons_of_mem _ member

end WriterStep

namespace Code

variable {code : List Code} {line : String}

theorem infix_text (member : line ∈ lines code) : line.toList <:+: (text code).toList := by
  obtain ⟨step, member, found⟩ := List.mem_filterMap.mp member
  exact WriterStep.infix_writeAll member found

theorem holds_text {holds : List Char → Prop} (composes : Composes holds)
    (inside : ∀ line ∈ lines code, holds line.toList) : holds (text code).toList :=
  WriterStep.holds_writeAll composes inside

end Code

end Interop
