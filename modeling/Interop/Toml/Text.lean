import Interop.Json.Parser

/-! The parts of TOML text that carry no structure of their own: white space, comments, line
ends, strings and keys. -/
namespace Interop.Toml

def isTomlBlank (c : Char) : Bool := c = ' ' || c = '\t'

def skipTomlBlank (text : List Char) : List Char := text.dropWhile isTomlBlank

/-- A character of comments and strings: no control character but the tab. -/
def isPlain (c : Char) : Bool := c = '\t' || (0x20 ≤ c.toNat && c.toNat ≠ 0x7F)

def afterNewline? : List Char → Option (List Char)
  | '\n' :: rest => some rest
  | '\r' :: '\n' :: rest => some rest
  | _ => none

/-- The rest of a line may hold white space and a comment. -/
def afterLine? (text : List Char) : Option (List Char) :=
  let rest := match skipTomlBlank text with
    | '#' :: rest => rest.dropWhile isPlain
    | rest => rest
  if rest.isEmpty then some [] else afterNewline? rest

def skipFiller (inComment : Bool) : List Char → List Char
  | [] => []
  | c :: rest =>
    if c = '\n' ∨ (c = '\r' ∧ rest.head? = some '\n') then skipFiller false rest
    else if inComment then
      if isPlain c then skipFiller true rest else c :: rest
    else if isTomlBlank c then skipFiller false rest
    else if c = '#' then skipFiller true rest
    else c :: rest

def hexValue? (digits : List Char) : Option Nat :=
  digits.foldlM (fun value c => (Json.hexDigit? c).map (16 * value + ·)) 0

def readCodePoint (count : Nat) (text : List Char) : Option (Char × List Char) := do
  let digits := text.take count
  if digits.length ≠ count then none
  let value ← hexValue? digits
  if value.isValidChar then some (Char.ofNat value, text.drop count) else none

def readEscape : List Char → Option (Char × List Char)
  | 'u' :: rest => readCodePoint 4 rest
  | 'U' :: rest => readCodePoint 8 rest
  | c :: rest => if c = '/' then none else (Json.simpleEscape? c).map fun c => (c, rest)
  | [] => none

def hasEscapes (quote : Char) : Bool := quote = '"'

/-- The content of a string on one line up to its closing quote, and what follows. The first
argument bounds the number of characters. -/
def readShort (quote : Char) : Nat → List Char → Option (List Char × List Char)
  | 0, _ => none
  | _, [] => none
  | bound + 1, c :: rest => do
    if c = quote then return ([], rest)
    let (c, rest) ←
      if c = '\\' ∧ hasEscapes quote then readEscape rest
      else if isPlain c then some (c, rest)
      else none
    let (content, rest) ← readShort quote bound rest
    return (c :: content, rest)

/-- After a backslash at the end of a line, the text from the next visible character on. -/
def afterContinuation? (text : List Char) : Option (List Char) :=
  (afterNewline? (skipTomlBlank text)).map trim
where
  trim : List Char → List Char
  | [] => []
  | c :: rest =>
    if isTomlBlank c || c = '\n' || (c = '\r' && rest.head? = some '\n') then trim rest
    else c :: rest

/-- The content of a string over several lines. It ends with three quotes; up to two more
of them directly before these belong to it. -/
def readLong (quote : Char) : Nat → List Char → Option (List Char × List Char)
  | 0, _ => none
  | _, [] => none
  | bound + 1, c :: rest =>
    let quotes := (rest.takeWhile (· = quote)).length + 1
    if c = quote ∧ 3 ≤ quotes then
      let kept := min (quotes - 3) 2
      some (List.replicate kept quote, rest.drop (kept + 2))
    else do
      let (content, rest) ←
        if c = '\\' ∧ hasEscapes quote then
          match afterContinuation? rest with
          | some rest => some ([], rest)
          | none => (readEscape rest).map fun (c, rest) => ([c], rest)
        else match afterNewline? (c :: rest) with
          | some rest => some (['\n'], rest)
          | none => if isPlain c then some ([c], rest) else none
      let (others, rest) ← readLong quote bound rest
      return (content ++ others, rest)

/-- A string after its first quote. A line end directly after three opening quotes is not
part of it. -/
def readQuoted (quote : Char) (text : List Char) : Option (String × List Char) :=
  let content := match text with
    | second :: third :: rest =>
      if second = quote ∧ third = quote then
        readLong quote (rest.length + 1) ((afterNewline? rest).getD rest)
      else readShort quote (text.length + 1) text
    | _ => readShort quote (text.length + 1) text
  content.map fun (content, rest) => (String.ofList content, rest)

def isBareKey (c : Char) : Bool := c.isAlphanum || c = '_' || c = '-'

def readKeyPart : List Char → Option (String × List Char)
  | [] => none
  | c :: rest =>
    if c = '"' ∨ c = '\'' then
      (readShort c (rest.length + 1) rest).map fun (content, rest) => (String.ofList content, rest)
    else
      let (part, rest) := (c :: rest).span isBareKey
      if part.isEmpty then none else some (String.ofList part, rest)

/-- The parts of a key with the white space around it. The first argument bounds their
number. -/
def readKeyParts : Nat → List Char → Option (List String × List Char)
  | 0, _ => none
  | bound + 1, text => do
    let (part, rest) ← readKeyPart (skipTomlBlank text)
    match skipTomlBlank rest with
    | '.' :: rest =>
      let (parts, rest) ← readKeyParts bound rest
      return (part :: parts, rest)
    | rest => return ([part], rest)

/-- Keys have fewer parts than this, and values fewer containers around them. -/
def nestingBound : Nat := 80

def readKey (text : List Char) : Option (List String × List Char) := readKeyParts (nestingBound - 1) text

end Interop.Toml
