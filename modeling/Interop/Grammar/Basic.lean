import Interop.Text.Blank

/-! Parsers that commit to the first alternative that accepts and report the failure that
got furthest. An accepting parser also passes on the furthest failure it met on its way,
because what follows may fail earlier in the text. Where two failures reach equally far
the later one counts. -/
namespace Interop.Grammar

/-- A place in a text: how many characters precede it and which follow. -/
structure Cursor where
  position : Nat
  rest : List Char
  deriving DecidableEq, Repr

def Cursor.start (text : String) : Cursor := ⟨0, text.toList⟩

def Cursor.skipBlank (cursor : Cursor) : Cursor :=
  ⟨cursor.position + (cursor.rest.takeWhile Text.isBlank).length,
    cursor.rest.dropWhile Text.isBlank⟩

inductive Complaint where
  | unexpected (c : Char)
  | endOfInput
  | rejected (message : String)
  deriving DecidableEq, Repr

/-- A failure covers the characters from `start` up to `stop`; `reach` is how far the
parser had come and decides which of several failures is reported. -/
structure Failure where
  reach : Nat
  start : Nat
  stop : Nat
  complaint : Complaint
  deriving DecidableEq, Repr

def Cursor.failure (cursor : Cursor) : Failure :=
  match cursor.rest with
  | [] => ⟨cursor.position, cursor.position, cursor.position, .endOfInput⟩
  | c :: _ => ⟨cursor.position, cursor.position, cursor.position + 1, .unexpected c⟩

/-- Of two failures the one that got further; `later` if they got equally far. -/
def Failure.max (later earlier : Failure) : Failure :=
  if later.reach < earlier.reach then earlier else later

/-- A failure after one that may have been met before. -/
def Failure.after (later : Failure) : Option Failure → Failure
  | some earlier => later.max earlier
  | none => later

def furthest : Option Failure → Option Failure → Option Failure
  | some later, earlier => some (later.after earlier)
  | none, earlier => earlier

inductive Outcome (α : Type) where
  | accept (value : α) (next : Cursor) (missed : Option Failure)
  | reject (failure : Failure)
  deriving Repr

def Parser (α : Type) := Cursor → Outcome α

namespace Parser

variable {α β : Type}

protected def pure (value : α) : Parser α := fun cursor => .accept value cursor none

protected def bind (first : Parser α) (second : α → Parser β) : Parser β := fun cursor =>
  match first cursor with
  | .reject failure => .reject failure
  | .accept value next missed =>
    match second value next with
    | .reject failure => .reject (failure.after missed)
    | .accept result last later => .accept result last (furthest later missed)

instance : Monad Parser where
  pure := Parser.pure
  bind := Parser.bind

def satisfy (test : Char → Bool) : Parser Char := fun cursor =>
  match cursor.rest with
  | c :: rest => if test c then .accept c ⟨cursor.position + 1, rest⟩ none else .reject cursor.failure
  | [] => .reject cursor.failure

def char (c : Char) : Parser Char := satisfy (· == c)

def word : List Char → Parser Unit
  | [] => pure ()
  | c :: rest => do
    let _ ← char c
    word rest

def finish : Parser Unit := fun cursor =>
  match cursor.rest with
  | [] => .accept () cursor none
  | _ :: _ => .reject cursor.failure

/-- A character of the text that is not `c`, left unread. -/
def notNext (c : Char) : Parser Unit := fun cursor =>
  match satisfy (· != c) cursor with
  | .accept .. => .accept () cursor none
  | .reject failure => .reject failure

/-- The first alternative that accepts; what the alternatives before it missed is
forgotten. If all fail, the failure that got furthest is reported. -/
def orElse (first second : Parser α) : Parser α := fun cursor =>
  match first cursor with
  | .accept value next missed => .accept value next missed
  | .reject earlier =>
    match second cursor with
    | .accept value next missed => .accept value next missed
    | .reject later => .reject (later.max earlier)

/-- The alternatives in order; the last one stands apart so that there is at least one. -/
def choice : List (Parser α) → Parser α → Parser α
  | [], last => last
  | first :: others, last => first.orElse (choice others last)

def optional (parser : Parser α) : Parser (Option α) := fun cursor =>
  match parser cursor with
  | .accept value next missed => .accept (some value) next missed
  | .reject failure => .accept none cursor (some failure)

/-- At most `bound` items in a row. -/
def manyWithin (item : Parser α) : Nat → Parser (List α)
  | 0 => fun cursor => .accept [] cursor none
  | bound + 1 => fun cursor =>
    match item cursor with
    | .reject failure => .accept [] cursor (some failure)
    | .accept value next missed =>
      match manyWithin item bound next with
      | .accept values last later => .accept (value :: values) last (furthest later missed)
      | .reject failure => .reject failure

/-- As many items as follow one another. An item reads at least one character, so the
bound leaves room for the item that fails. -/
def many (item : Parser α) : Parser (List α) := fun cursor =>
  item.manyWithin (cursor.rest.length + 1) cursor

def atLeastOne (item : Parser α) : Parser (List α) := do
  let first ← item
  let others ← many item
  return first :: others

/-- White space around is skipped and never missed. -/
def padded (parser : Parser α) : Parser α := fun cursor =>
  match parser cursor.skipBlank with
  | .accept value next missed => .accept value next.skipBlank missed
  | .reject failure => .reject failure

/-- Checks what was read. A refusal covers the text read and forgets what was missed. -/
def checked (parser : Parser α) (check : α → Except String β) : Parser β := fun cursor =>
  match parser cursor with
  | .reject failure => .reject failure
  | .accept value next missed =>
    match check value with
    | .ok result => .accept result next missed
    | .error message => .reject ⟨next.position, cursor.position, next.position, .rejected message⟩

def between (opening : Parser β) (closing : Parser β) (parser : Parser α) : Parser α := do
  let _ ← opening
  let value ← parser
  let _ ← closing
  return value

end Parser

end Interop.Grammar
