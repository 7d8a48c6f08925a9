import Interop.Floating.Format

/-! Decimal numerals read as floating-point words. A numeral is an optional sign and
either digits with at most one point and an optional exponent, or the name of an infinity
or of no number, in any case. The word is the nearest one, whatever the exponent. -/
namespace Interop.Floating

def digitsValue (digits : List Char) : Nat :=
  digits.foldl (fun value c => 10 * value + (c.toNat - 48)) 0

def decimalLength (n : Nat) : Nat := (Nat.toDigits 10 n).length

/-- The magnitude of the word nearest to `digits · 10 ^ scale`. Exponents beyond the
format's reach are settled before any power is computed. -/
def Format.ofDecimal (f : Format) (digits : Nat) (scale : Int) : Nat :=
  let reach : Int := Nat.pow 2 (f.exponentBits - 1) + f.fractionBits
  let magnitude : Int := decimalLength digits + scale
  if digits = 0 ∨ magnitude < -reach then 0
  else if reach < magnitude then f.infinityWord
  else if 0 ≤ scale then f.nearest (digits * Nat.pow 10 scale.toNat) 1
  else f.nearest digits (Nat.pow 10 (-scale).toNat)

def splitSign : List Char → Bool × List Char
  | '+' :: rest => (false, rest)
  | '-' :: rest => (true, rest)
  | text => (false, text)

/-- An exponent is an optional sign and at least one digit. -/
def readExponent (text : List Char) : Option Int :=
  let (negative, digits) := splitSign text
  if digits.isEmpty ∨ ¬ digits.all Char.isDigit then none
  else some (if negative then -(digitsValue digits : Int) else digitsValue digits)

def readUnsigned (text : List Char) : Option (Nat × Int) :=
  let (whole, rest) := text.span Char.isDigit
  let (fraction, rest) := match rest with
    | '.' :: rest => rest.span Char.isDigit
    | _ => ([], rest)
  if whole.isEmpty ∧ fraction.isEmpty then none
  else
    let exponent := match rest with
      | [] => some 0
      | c :: rest => if c = 'e' ∨ c = 'E' then readExponent rest else none
    exponent.map fun exponent => (digitsValue (whole ++ fraction), exponent - fraction.length)

def Format.read (f : Format) (text : List Char) : Option Nat :=
  let (negative, body) := splitSign text
  let name := body.map Char.toLower
  if name = "inf".toList ∨ name = "infinity".toList then some (f.withSign negative f.infinityWord)
  else if name = "nan".toList then some (f.withSign negative f.nanWord)
  else (readUnsigned body).map fun (digits, scale) =>
    f.withSign negative (f.ofDecimal digits scale)

end Interop.Floating
