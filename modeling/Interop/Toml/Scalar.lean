import Interop.Floating.Decimal
import Interop.Toml.Basic
import Interop.Toml.Text

/-! Values written as one word: truth values, integers, other numbers, dates and times. -/
namespace Interop.Toml

/-- Digits with single underscores between them. -/
def groupedDigits? (isDigit : Char → Bool) : List Char → Option (List Char)
  | [] => none
  | [c] => if isDigit c then some [c] else none
  | c :: '_' :: rest => if isDigit c then (groupedDigits? isDigit rest).map (c :: ·) else none
  | c :: rest => if isDigit c then (groupedDigits? isDigit rest).map (c :: ·) else none

/-- Decimal digits that begin with a zero only if it stands alone. -/
def wholeDigits? (text : List Char) : Option (List Char) :=
  match groupedDigits? Char.isDigit text with
  | some ('0' :: _ :: _) => none
  | digits => digits

/-- Integers have 64 bits. -/
def integer? (negative : Bool) (magnitude : Nat) : Option Toml :=
  if negative then if magnitude ≤ Nat.pow 2 63 then some (.integer (-magnitude)) else none
  else if magnitude < Nat.pow 2 63 then some (.integer magnitude) else none

def decimalInteger? (word : List Char) : Option Toml := do
  let (negative, digits) := Floating.splitSign word
  integer? negative (Floating.digitsValue (← wholeDigits? digits))

def basedInteger? (base : Nat) (digits : List Char) : Option Toml := do
  let isDigit (c : Char) : Bool := (Json.hexDigit? c).any (· < base)
  let digits ← groupedDigits? isDigit digits
  integer? false (digits.foldl (fun value c => base * value + (Json.hexDigit? c).getD 0) 0)

def readInteger? : List Char → Option Toml
  | '0' :: 'x' :: digits => basedInteger? 16 digits
  | '0' :: 'o' :: digits => basedInteger? 8 digits
  | '0' :: 'b' :: digits => basedInteger? 2 digits
  | word => decimalInteger? word

def isDigitOrGap (c : Char) : Bool := c.isDigit || c = '_'

def exponent? : List Char → Option Int
  | [] => some 0
  | c :: rest => do
    if c ≠ 'e' ∧ c ≠ 'E' then none
    let (negative, digits) := Floating.splitSign rest
    let magnitude : Int := Floating.digitsValue (← groupedDigits? Char.isDigit digits)
    return if negative then -magnitude else magnitude

def fraction? : List Char → Option (List Char × List Char)
  | '.' :: rest =>
    let (digits, rest) := rest.span isDigitOrGap
    (groupedDigits? Char.isDigit digits).map fun digits => (digits, rest)
  | rest => some ([], rest)

def floatParts? (body : List Char) : Option (Nat × Int) := do
  let (whole, ending) := body.span isDigitOrGap
  if ending.isEmpty then none
  let (fraction, rest) ← fraction? ending
  let digits := Floating.digitsValue ((← wholeDigits? whole) ++ fraction)
  return (digits, (← exponent? rest) - fraction.length)

/-- A number with a fraction or an exponent may be too great only below zero. -/
def isFloat (word : List Char) : Bool :=
  let (negative, body) := Floating.splitSign word
  (floatParts? body).any fun (digits, scale) => negative ||
    Floating.Format.double.ofDecimal digits scale ≠ Floating.Format.double.infinityWord

def isSpecial (word : List Char) : Bool :=
  let (_, name) := Floating.splitSign word
  name = ['i', 'n', 'f'] || name = ['n', 'a', 'n']

def ofWord? (word : List Char) : Option Toml :=
  if word = "true".toList then some (.bool true)
  else if word = "false".toList then some (.bool false)
  else match Moment.ofWord? word with
    | some value => some (.moment value)
    | none => (readInteger? word).or (if isFloat word || isSpecial word then some .float else none)

def isWordChar (c : Char) : Bool := c.isAlphanum || c ∈ ['_', '+', '-', '.', ':']

/-- A value of one word. A date may be parted from its time by a blank. -/
def readWord? (text : List Char) : Option (Toml × List Char) :=
  let (word, rest) := text.span isWordChar
  match readDate word, rest with
  | some (date, []), ' ' :: c :: time =>
    if c.isDigit then
      let (time, rest) := (c :: time).span isWordChar
      (Moment.onDate? date time).map fun value => (.moment value, rest)
    else some (.moment (.date date), rest)
  | _, _ => (ofWord? word).map fun value => (value, rest)

end Interop.Toml
