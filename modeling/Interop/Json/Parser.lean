import Interop.Floating.Decimal
import Interop.Json.Basic

/-! JSON text read strictly: one value between white space, no trailing commas and no
comments, no leading zeros, no raw control characters in strings. Integers of at most 64
bits are told apart from other numbers by how they are written. -/
namespace Interop.Json

def isJsonBlank (c : Char) : Bool := c = ' ' || c = '\t' || c = '\n' || c = '\r'

def skipBlank (text : List Char) : List Char := text.dropWhile isJsonBlank

def nestingLimit : Nat := 127

/-- A piece of a string: a character, or the number that a `\u` escape gives. -/
inductive Piece where
  | char (c : Char)
  | unit (value : Nat)
  deriving DecidableEq, Repr

def hexDigit? (c : Char) : Option Nat :=
  if c.isDigit then some (c.toNat - 48)
  else if 'a' ≤ c ∧ c ≤ 'f' then some (c.toNat - 87)
  else if 'A' ≤ c ∧ c ≤ 'F' then some (c.toNat - 55)
  else none

def unit? (a b c d : Char) : Option Nat := do
  let a ← hexDigit? a
  let b ← hexDigit? b
  let c ← hexDigit? c
  let d ← hexDigit? d
  return ((a * 16 + b) * 16 + c) * 16 + d

def simpleEscape? : Char → Option Char
  | '"' => some '"'
  | '\\' => some '\\'
  | '/' => some '/'
  | 'b' => some '\x08'
  | 'f' => some '\x0c'
  | 'n' => some '\n'
  | 'r' => some '\r'
  | 't' => some '\t'
  | _ => none

def readPieces : List Char → Option (List Piece × List Char)
  | [] => none
  | '"' :: rest => some ([], rest)
  | '\\' :: 'u' :: a :: b :: c :: d :: rest => do
    let unit ← unit? a b c d
    let (pieces, rest) ← readPieces rest
    return (.unit unit :: pieces, rest)
  | '\\' :: c :: rest => do
    let c ← simpleEscape? c
    let (pieces, rest) ← readPieces rest
    return (.char c :: pieces, rest)
  | c :: rest =>
    if c.toNat < 0x20 then none
    else do
      let (pieces, rest) ← readPieces rest
      return (.char c :: pieces, rest)

def isLead (unit : Nat) : Bool := 0xD800 ≤ unit && unit < 0xDC00
def isTrail (unit : Nat) : Bool := 0xDC00 ≤ unit && unit < 0xE000

/-- Joins surrogate pairs; nothing where one stands alone. -/
def joinPieces : List Piece → Option (List Char)
  | [] => some []
  | .char c :: rest => (joinPieces rest).map (c :: ·)
  | .unit lead :: .unit trail :: rest =>
    if isLead lead then
      if isTrail trail then
        (joinPieces rest).map
          (Char.ofNat (0x10000 + (lead - 0xD800) * 0x400 + (trail - 0xDC00)) :: ·)
      else none
    else if isTrail lead then none
    else (joinPieces (.unit trail :: rest)).map (Char.ofNat lead :: ·)
  | .unit unit :: rest =>
    if isLead unit || isTrail unit then none
    else (joinPieces rest).map (Char.ofNat unit :: ·)

/-- A string after its opening quote; the text itself may be unreadable. -/
def readString (text : List Char) : Option (Option String × List Char) :=
  (readPieces text).map fun (pieces, rest) => ((joinPieces pieces).map String.ofList, rest)

/-- An integer part has no leading zero, except alone. -/
def readWhole : List Char → Option (List Char × List Char)
  | '0' :: rest => some (['0'], rest)
  | text =>
    let (digits, rest) := text.span Char.isDigit
    if digits.isEmpty then none else some (digits, rest)

def readFraction : List Char → Option (List Char × List Char)
  | '.' :: rest =>
    let (digits, rest) := rest.span Char.isDigit
    if digits.isEmpty then none else some (digits, rest)
  | rest => some ([], rest)

def readScale : List Char → Option (Option Int × List Char)
  | [] => some (none, [])
  | c :: rest =>
    if c = 'e' ∨ c = 'E' then
      let (negative, rest) := Floating.splitSign rest
      let (digits, rest) := rest.span Char.isDigit
      if digits.isEmpty then none
      else
        let magnitude : Int := Floating.digitsValue digits
        some (some (if negative then -magnitude else magnitude), rest)
    else some (none, c :: rest)

/-- Adds digits to a value as long as 64 bits hold it, and counts those left over. -/
def leadingDigits (value : Nat) : List Char → Nat × Nat
  | [] => (value, 0)
  | c :: rest =>
    let next := 10 * value + Floating.digitsValue [c]
    if next < Nat.pow 2 64 then leadingDigits next rest else (value, rest.length + 1)

/-- The size of a number is taken from its leading digits: these are rounded to a double, so
is the power of ten that they count, and so is the product of both. A number a little below
the greatest double may therefore be beyond it. -/
def isBeyondDoubles (digits : List Char) (scale : Int) : Bool :=
  let (leading, others) := leadingDigits 0 digits
  let double := Floating.Format.double
  leading ≠ 0 && double.product (double.nearest leading 1) (double.ofDecimal 1 (scale + others))
    = double.infinityWord

/-- A number beyond the doubles stands for nothing. -/
def ofDecimal (negative : Bool) (digits : List Char) (scale : Int) : Json :=
  if isBeyondDoubles digits scale then .unreadable
  else .decimal negative (Floating.digitsValue digits) scale

/-- Plain digits are an integer if 64 bits hold it; a negative zero is none. -/
def ofDigits (negative : Bool) (digits : List Char) : Json :=
  let value := Floating.digitsValue digits
  if negative then
    if 0 < value ∧ value ≤ Nat.pow 2 63 then .integer (-value) else ofDecimal negative digits 0
  else if value < Nat.pow 2 64 then .integer value
  else ofDecimal negative digits 0

def readNumber (negative : Bool) (text : List Char) : Option (Json × List Char) := do
  let (whole, rest) ← readWhole text
  let (fraction, rest) ← readFraction rest
  let (scale, rest) ← readScale rest
  let digits := whole ++ fraction
  let number := match fraction, scale with
    | [], none => ofDigits negative digits
    | _, _ => ofDecimal negative digits (scale.getD 0 - fraction.length)
  return (number, rest)

def readWord (word : String) (value : Json) (text : List Char) : Option (Json × List Char) :=
  if word.toList.isPrefixOf text then some (value, text.drop word.length) else none

def contained (level : Nat) (value : Json) : Json :=
  if level < nestingLimit then value else .unreadable

/-- An object with an unreadable name is unreadable as a whole. -/
def ofMembers (members : List (Option String × Json)) : Json :=
  match members.mapM fun (name, value) => name.map fun name => (name, value) with
  | some members => .object members
  | none => .unreadable

mutual

/-- Reads a value with `level` containers around it. The first argument bounds the number
of nested calls; twice the length of the text is enough. -/
def readValue : Nat → Nat → List Char → Option (Json × List Char)
  | 0, _, _ => none
  | bound + 1, level, text =>
    match skipBlank text with
    | '"' :: rest =>
      (readString rest).map fun (value, rest) => ((value.map .string).getD .unreadable, rest)
    | '[' :: rest =>
      match skipBlank rest with
      | ']' :: rest => some (contained level (.array []), rest)
      | rest => (readItems bound (level + 1) rest).map fun (items, rest) =>
        (contained level (.array items), rest)
    | '\x7b' :: rest =>
      match skipBlank rest with
      | '\x7d' :: rest => some (contained level (.object []), rest)
      | rest => (readMembers bound (level + 1) rest).map fun (members, rest) =>
        (contained level (ofMembers members), rest)
    | '-' :: rest => readNumber true rest
    | 't' :: rest => readWord "rue" (.bool true) rest
    | 'f' :: rest => readWord "alse" (.bool false) rest
    | 'n' :: rest => readWord "ull" .null rest
    | rest => readNumber false rest

def readItems : Nat → Nat → List Char → Option (List Json × List Char)
  | 0, _, _ => none
  | bound + 1, level, text => do
    let (item, rest) ← readValue bound level text
    match skipBlank rest with
    | ']' :: rest => return ([item], rest)
    | ',' :: rest =>
      let (items, rest) ← readItems bound level rest
      return (item :: items, rest)
    | _ => none

def readMembers : Nat → Nat → List Char → Option (List (Option String × Json) × List Char)
  | 0, _, _ => none
  | bound + 1, level, text =>
    match skipBlank text with
    | '"' :: rest => do
      let (name, rest) ← readString rest
      match skipBlank rest with
      | ':' :: rest =>
        let (value, rest) ← readValue bound level rest
        match skipBlank rest with
        | '\x7d' :: rest => return ([(name, value)], rest)
        | ',' :: rest =>
          let (members, rest) ← readMembers bound level rest
          return ((name, value) :: members, rest)
        | _ => none
      | _ => none
    | _ => none

end

def parse (text : String) : Option Json :=
  let characters := text.toList
  match readValue (2 * characters.length + 2) 0 characters with
  | some (value, rest) => if (skipBlank rest).isEmpty then some value else none
  | none => none

end Interop.Json
