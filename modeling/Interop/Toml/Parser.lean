import Interop.Toml.Scalar

/-! TOML documents: entries under dotted keys, and sections under headers, one to a line. -/
namespace Interop.Toml

mutual

/-- Reads a value with `level` containers around it. The first argument bounds the number of
nested calls; twice the length of the text is enough. -/
def readValue : Nat → Nat → List Char → Option (Toml × List Char)
  | 0, _, _ => none
  | bound + 1, level, text =>
    match text with
    | '"' :: rest => (readQuoted '"' rest).map fun (value, rest) => (.string value, rest)
    | '\'' :: rest => (readQuoted '\'' rest).map fun (value, rest) => (.string value, rest)
    | '[' :: rest =>
      if level + 1 < nestingBound then
        (readItems bound (level + 1) rest).map fun (items, rest) => (.array items, rest)
      else none
    | '\x7b' :: rest =>
      if level + 1 < nestingBound then do
        let (entries, rest) ← match skipTomlBlank rest with
          | '\x7d' :: rest => some ([], rest)
          | rest => readEntries bound (level + 1) rest
        return (.table .inline (← Members.putAll entries []), rest)
      else none
    | text => readWord? text

/-- The items of an array up to its closing bracket; a comma may follow the last one. -/
def readItems : Nat → Nat → List Char → Option (List Toml × List Char)
  | 0, _, _ => none
  | bound + 1, level, text =>
    match skipFiller false text with
    | ']' :: rest => some ([], rest)
    | text => do
      let (item, rest) ← readValue bound level text
      match skipFiller false rest with
      | ']' :: rest => return ([item], rest)
      | ',' :: rest =>
        let (items, rest) ← readItems bound level rest
        return (item :: items, rest)
      | _ => none

def readEntries : Nat → Nat → List Char → Option (List Entry × List Char)
  | 0, _, _ => none
  | bound + 1, level, text => do
    let (entry, rest) ← readEntry bound level text
    match skipTomlBlank rest with
    | '\x7d' :: rest => return ([entry], rest)
    | ',' :: rest =>
      let (entries, rest) ← readEntries bound level rest
      return (entry :: entries, rest)
    | _ => none

def readEntry : Nat → Nat → List Char → Option (Entry × List Char)
  | 0, _, _ => none
  | bound + 1, level, text => do
    let (path, rest) ← readKey text
    let (value, rest) ← readValue bound level (skipTomlBlank (← after? '=' rest))
    return (⟨path, value⟩, rest)

end

inductive Line where
  | entry (entry : Entry)
  | header (header : Header)
  deriving Repr

def readHeader : List Char → Option (Header × List Char)
  | '[' :: rest => do
    let (path, rest) ← readKey rest
    return (⟨path, true⟩, ← after? ']' (← after? ']' rest))
  | rest => do
    let (path, rest) ← readKey rest
    return (⟨path, false⟩, ← after? ']' rest)

def readLine (text : List Char) : Option (Line × List Char) :=
  match text with
  | '[' :: rest => (readHeader rest).map fun (header, rest) => (.header header, rest)
  | text => (readEntry (2 * text.length + 2) 0 text).map fun (entry, rest) => (.entry entry, rest)

/-- All lines that hold something. The first argument bounds the number of lines. -/
def readLines : Nat → List Char → Option (List Line)
  | 0, _ => none
  | bound + 1, text =>
    match skipTomlBlank text with
    | [] => some []
    | c :: rest =>
      if c ∈ ['#', '\n', '\r'] then do readLines bound (← afterLine? (c :: rest))
      else do
        let (line, rest) ← readLine (c :: rest)
        let lines ← readLines bound (← afterLine? rest)
        return line :: lines

def sections : List Line → List Entry × List Section
  | [] => ([], [])
  | .entry entry :: lines =>
    let (entries, parts) := sections lines
    (entry :: entries, parts)
  | .header header :: lines =>
    let (entries, parts) := sections lines
    ([], ⟨header, entries⟩ :: parts)

/-- The table that a text holds. A byte order mark before it is skipped. -/
def parse (text : String) : Option Toml := do
  let characters := match text.toList with
    | '\uFEFF' :: rest => rest
    | characters => characters
  let (entries, parts) := sections (← readLines (characters.length + 1) characters)
  let members ← Members.putAll entries []
  return .table .header (← Members.attachAll parts members)

end Interop.Toml
