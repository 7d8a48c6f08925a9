import Interop.Proofs.Document.Names

/-! Texts of artifacts are well nested. In the text itself, where a line is all there is between two line
feeds, the braces on lines of their own match, and every line has four blanks for each block around it. This
is so for the text of any code whose lines are lines of their own: the induction is on the code, for the
lines that its steps add in front of others at the same depth. -/
namespace Interop

open Layout

namespace Layout

def isOpening (line : List Char) : Bool := unindented line = "\x7b"

def isClosing (line : List Char) : Bool := unindented line = "\x7d"

def indentationOf (line : List Char) : Nat := (line.takeWhile (· = ' ')).length

/-- Lines in `depth` blocks that are closed with them. A closing brace closes a block that is open,
no block is open at the end, and a line is indented by the blocks that are open before it, a closing
brace by one block less. -/
structure Enclosed (depth : Nat) (lines : List (List Char)) : Prop where
  opened : ∀ early, early <+: lines → early.countP isClosing ≤ depth + early.countP isOpening
  closed : lines.countP isClosing = depth + lines.countP isOpening
  indented : ∀ early line late, lines = early ++ line :: late → line ≠ [] →
    indentationOf line + (if isClosing line then 4 else 0) =
      4 * (depth + early.countP isOpening - early.countP isClosing)

structure IsWellNested (text : String) : Prop where
  enclosed : Enclosed 0 (splitLines text.toList)
  ended : ∃ front, text = front ++ "\n"

section Lines

variable {lines : List (List Char)} {depth next : Nat} {text : String}

theorem enclosed_nil : Enclosed 0 [] where
  opened := by
    intro early front
    rw [List.prefix_nil.mp front]
    exact Nat.le_refl 0
  closed := rfl
  indented := by rintro (_ | _) _ _ ⟨⟩

/-- One line more in front: the blocks that are open behind it are those before it and its own. -/
theorem Enclosed.cons {line : List Char} (later : Enclosed next lines)
    (own : line ≠ [] → indentationOf line + (if isClosing line then 4 else 0) = 4 * depth)
    (step : next + (if isClosing line then 1 else 0) = depth + (if isOpening line then 1 else 0)) :
    Enclosed depth (line :: lines) where
  opened := by
    intro early front
    rcases List.prefix_cons_iff.mp front with rfl | ⟨early, rfl, inside⟩
    · exact Nat.zero_le _
    · have behind := later.opened early inside
      rw [List.countP_cons, List.countP_cons]
      omega
  closed := by
    have behind := later.closed
    rw [List.countP_cons, List.countP_cons]
    omega
  indented := by
    rintro (_ | ⟨first, early⟩) other late same filled
    · obtain ⟨rfl, -⟩ := List.cons.inj same
      exact own filled
    · obtain ⟨rfl, behind⟩ := List.cons.inj same
      rw [later.indented early other late behind filled, List.countP_cons, List.countP_cons]
      congr 1
      omega

theorem Enclosed.blank (later : Enclosed depth lines) : Enclosed depth ([] :: lines) :=
  later.cons (absurd rfl) rfl

theorem row_facts (begins : ∀ c ∈ text.toList.head?, c ≠ ' ') : indentationOf (row depth text) = 4 * depth ∧
    isOpening (row depth text) = decide (text = "\x7b") ∧ isClosing (row depth text) = decide (text = "\x7d") := by
  obtain ⟨blanks, visible⟩ := @span_row depth text begins
  rw [indentationOf, isOpening, isClosing, blanks, visible, List.length_replicate]
  exact ⟨rfl, rfl, rfl⟩

theorem Enclosed.line (later : Enclosed depth lines) (line : IsLine text) :
    Enclosed depth (row depth text :: lines) := by
  obtain ⟨c, first, visible, -⟩ := line.begins
  obtain ⟨indentation, opening, closing⟩ := @row_facts depth text fun d first' =>
    Option.some.inj (first.symm.trans first') ▸ visible
  obtain ⟨-, notOpening, notClosing⟩ := line.ne
  refine later.cons (fun _ => ?_) ?_ <;> simp [indentation, opening, closing, notOpening, notClosing]

theorem Enclosed.opening (later : Enclosed (depth + 1) lines) : Enclosed depth (row depth "\x7b" :: lines) := by
  obtain ⟨indentation, opening, closing⟩ := @row_facts depth "\x7b" (by simp)
  refine later.cons (fun _ => ?_) ?_ <;> simp [indentation, opening, closing]

theorem Enclosed.closing (later : Enclosed depth lines) : Enclosed (depth + 1) (row depth "\x7d" :: lines) := by
  obtain ⟨indentation, opening, closing⟩ := @row_facts depth "\x7d" (by simp)
  refine later.cons (fun _ => ?_) ?_
  · simp only [indentation, closing, decide_true, if_true]
    omega
  · simp [opening, closing]

end Lines

section Steps

open WriterStep

def rows (depth : Nat) (steps : List WriterStep) : List (List Char) := splitLines (writeAll depth steps).toList

variable {depth : Nat} {steps : List WriterStep} {text : String}

theorem rows_line (line : IsLine text) : rows depth (.line text :: steps) = row depth text :: rows depth steps := by
  rw [rows, writeAll, String.toList_append, WriterStep.text, splitLines_indented line.unbroken]
  rfl

theorem rows_blank : rows depth (.blank :: steps) = [] :: rows depth steps := by
  rw [rows, writeAll, String.toList_append, WriterStep.text]
  exact splitLines_append List.not_mem_nil

theorem rows_openBlock (line : IsLine text) : rows depth (.openBlock text :: steps) =
    row depth text :: row depth "\x7b" :: rows (depth + 1) steps := by
  rw [rows, writeAll, String.toList_append, WriterStep.text, String.toList_append, List.append_assoc,
    splitLines_indented line.unbroken, splitLines_indented (by decide)]
  rfl

theorem rows_closeBlock : rows (depth + 1) (.closeBlock :: steps) = row depth "\x7d" :: rows depth steps := by
  rw [rows, writeAll, String.toList_append, WriterStep.text, splitLines_indented (by decide)]
  rfl

end Steps

end Layout

namespace Code

mutual

/-- The lines of code are enclosed where the lines behind them are, whatever these are. -/
theorem enclosed_steps : (code : Code) → (∀ line ∈ lines [code], IsLine line) → (depth : Nat) →
    (rest : List WriterStep) → Enclosed depth (rows depth rest) → Enclosed depth (rows depth (code.steps ++ rest))
  | .line text, clean, depth, rest, later => by
    have line : IsLine text := clean text (by simp)
    rw [steps, List.singleton_append, rows_line line]
    exact later.line line
  | .blank, _, depth, rest, later => by
    rw [steps, List.singleton_append, rows_blank]
    exact later.blank
  | .block header body, clean, depth, rest, later => by
    rw [lines_block, lines_nil, List.append_nil, List.forall_mem_cons] at clean
    have closed : Enclosed (depth + 1) (rows (depth + 1) (.closeBlock :: rest)) := by
      rw [rows_closeBlock]
      exact later.closing
    have inside := enclosed_allSteps body clean.2 (depth + 1) (.closeBlock :: rest) closed
    have spelled : (Code.block header body).steps ++ rest =
        .openBlock header :: (allSteps body ++ .closeBlock :: rest) := by
      simp [steps]
    rw [spelled, rows_openBlock clean.1]
    exact inside.opening.line clean.1

theorem enclosed_allSteps : (code : List Code) → (∀ line ∈ lines code, IsLine line) → (depth : Nat) →
    (rest : List WriterStep) → Enclosed depth (rows depth rest) →
      Enclosed depth (rows depth (allSteps code ++ rest))
  | [], _, _, _, later => later
  | first :: code, clean, depth, rest, later => by
    rw [← List.singleton_append, lines_append, List.forall_mem_append] at clean
    rw [allSteps, List.append_assoc]
    exact enclosed_steps first clean.1 depth _ (enclosed_allSteps code clean.2 depth rest later)

end

/-- What steps write ends with the end of a line. -/
theorem ended_writeAll {steps : List WriterStep} (filled : steps ≠ []) (depth : Nat) :
    ∃ front, WriterStep.writeAll depth steps = front ++ "\n" := by
  induction steps generalizing depth with
  | nil => exact absurd rfl filled
  | cons step steps ih =>
    cases steps with
    | nil =>
      rw [WriterStep.writeAll, WriterStep.writeAll, String.append_empty]
      cases step with
      | line text | closeBlock => exact ⟨_, rfl⟩
      | blank => exact ⟨"", rfl⟩
      | openBlock header => exact ⟨_, (String.append_assoc ..).symm⟩
    | cons next steps =>
      obtain ⟨front, rest⟩ := ih (List.cons_ne_nil next steps) (step.depthAfter depth)
      exact ⟨step.text depth ++ front, by rw [WriterStep.writeAll, rest, String.append_assoc]⟩

/-- The text of code is well nested if its lines are lines of their own. -/
theorem isWellNested_text {code : List Code} (clean : ∀ line ∈ lines code, IsLine line) (filled : code ≠ []) :
    IsWellNested (text code) where
  enclosed := by
    have nested := enclosed_allSteps code clean 0 [] enclosed_nil
    rwa [List.append_nil] at nested
  ended := by
    obtain ⟨first, rest, rfl⟩ := List.exists_cons_of_ne_nil filled
    refine ended_writeAll ?_ 0
    cases first <;> simp [allSteps, steps]

end Code

namespace Surface

theorem isLine_lines_code {declaration : Declaration} (spelled : declaration.isSpelled) :
    ∀ line ∈ Code.lines declaration.code, IsLine line := by
  have block {header : String} {body : List Code} (head : IsLine header)
      (inside : ∀ line ∈ Code.lines body, IsLine line) : ∀ line ∈ Code.lines [.block header body], IsLine line := by
    rw [Code.lines_block, Code.lines_nil, List.append_nil]
    exact List.forall_mem_cons.mpr ⟨head, inside⟩
  cases declaration with
  | «structure» name isUnion fields => exact isLine_lines_structure spelled
  | enumeration name underlying items =>
    obtain ⟨head, elements⟩ := Bool.and_eq_true_iff.mp spelled
    obtain ⟨own, leaves⟩ := Bool.and_eq_true_iff.mp head
    have named : IsLine ("public enum " ++ name) := IsLine.append (by decide) (unbroken_of_isIdentifier own)
    exact block ((named.append (by decide)).append (unbroken_type leaves)) (isLine_lines_items elements)
  | platformEnum => exact block (by decide) (lines_commaLines (by decide))
  | native name binary signatures =>
    obtain ⟨own, spelled⟩ := Bool.and_eq_true_iff.mp spelled
    exact block (IsLine.append (by decide) (unbroken_of_isIdentifier own)) (isLine_lines_entryPoints spelled)
  | wrapper name contract receiver signatures constants =>
    simp only [Declaration.isSpelled, Bool.and_eq_true] at spelled
    obtain ⟨⟨⟨⟨own, contracted⟩, receiver⟩, spelled⟩, named⟩ := spelled
    have head := IsLine.append (by decide : IsLine "internal unsafe class ") (unbroken_of_isIdentifier own)
    exact block ((head.append (by decide)).append (unbroken_of_isIdentifier contracted))
      (isLine_lines_wrapperBody spelled (isWord_names named) receiver)
  | interface name signatures constants =>
    simp only [Declaration.isSpelled, Bool.and_eq_true] at spelled
    obtain ⟨⟨own, spelled⟩, named⟩ := spelled
    exact block (IsLine.append (by decide) (unbroken_of_isIdentifier own))
      (isLine_lines_declarations spelled (isWord_names named))
  | facade name contract platforms defaultPlatform signatures constants =>
    simp only [Declaration.isSpelled, Bool.and_eq_true] at spelled
    obtain ⟨⟨⟨own, contracted⟩, spelled⟩, named⟩ := spelled
    rw [code_facade]
    exact block (IsLine.append (by decide) (unbroken_of_isIdentifier own))
      (isLine_lines_facadeBody platforms defaultPlatform own (unbroken_of_isIdentifier contracted) spelled
        (isWord_names named))

end Surface

namespace Declaration

/-- The text of an artifact is well nested if its names are identifiers, also those in its types. What stands in
the strings of its constants and in the path of its binary makes no difference. -/
theorem isWellNested_document {namespaceName : String} {declaration : Declaration} (unbroken : Unbroken namespaceName)
    (spelled : declaration.isSpelled) : IsWellNested (declaration.text namespaceName) := by
  have clean := Surface.isLine_lines_document unbroken (Surface.isLine_lines_code spelled)
  exact Code.isWellNested_text clean (List.append_ne_nil_of_right_ne_nil _ (List.cons_ne_nil _ _))

def slotsUnion : Declaration := .structure "Node" true [⟨"slots", .array (.pointer (.named "Node")) (some 2)⟩]

def bracedWrapper : Declaration :=
  .wrapper "TreeLinux" "ITree" "TreeLinuxNative" [⟨"grow", [⟨"node", .pointer (.named "Node")⟩], .primitive "void"⟩]
    [⟨"MARK", .string "\n\x7b\n"⟩]

theorem isWellNested_document_braces : Unbroken "Tree.Bindings" ∧
    ∀ declaration ∈ [slotsUnion, bracedWrapper], declaration.isSpelled ∧
      IsWellNested (declaration.text "Tree.Bindings") := by
  have unbroken : Unbroken "Tree.Bindings" := by decide
  refine ⟨unbroken, fun declaration member => ?_⟩
  have spelled : declaration.isSpelled := by
    revert declaration
    decide
  exact ⟨spelled, isWellNested_document unbroken spelled⟩

end Declaration

end Interop
