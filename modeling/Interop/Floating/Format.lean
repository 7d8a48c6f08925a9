/-! Binary floating-point formats. A word of a format is decoded to an exact value, and
the word nearest to a positive ratio is found by integer arithmetic alone: ties go to the
even significand, small values lose digits gradually and large ones become infinite. -/
namespace Interop.Floating

/-- A format has a sign bit, a biased exponent field and a field for the fraction. -/
structure Format where
  fractionBits : Nat
  exponentBits : Nat
  deriving DecidableEq, Repr

def Format.single : Format := ⟨23, 8⟩
def Format.double : Format := ⟨52, 11⟩

/-- What a word stands for: a finite one is `± significand · 2 ^ exponent`. -/
inductive Datum where
  | nan
  | infinite (negative : Bool)
  | finite (negative : Bool) (significand : Nat) (exponent : Int)
  deriving DecidableEq, Repr

namespace Format

def signUnit (f : Format) : Nat := Nat.pow 2 (f.exponentBits + f.fractionBits)

/-- The magnitude of the infinite words: an exponent field of ones and no fraction. -/
def infinityWord (f : Format) : Nat := (Nat.pow 2 f.exponentBits - 1) * Nat.pow 2 f.fractionBits

def nanWord (f : Format) : Nat := f.infinityWord + Nat.pow 2 (f.fractionBits - 1)

def lowestExponent (f : Format) : Int := 2 - Nat.pow 2 (f.exponentBits - 1) - f.fractionBits

/-- The smallest significand of a number that has all its digits. -/
def hiddenUnit (f : Format) : Nat := Nat.pow 2 f.fractionBits

def withSign (f : Format) (negative : Bool) (magnitude : Nat) : Nat :=
  if negative then f.signUnit + magnitude else magnitude

def decode (f : Format) (word : Nat) : Datum :=
  let negative := word / f.signUnit % 2 == 1
  let field := word / f.hiddenUnit % Nat.pow 2 f.exponentBits
  let fraction := word % f.hiddenUnit
  if field = Nat.pow 2 f.exponentBits - 1 then
    if fraction = 0 then .infinite negative else .nan
  else if field = 0 then .finite negative fraction f.lowestExponent
  else .finite negative (f.hiddenUnit + fraction) (f.lowestExponent + (field - 1 : Nat))

end Format

/-- The integer nearest to a ratio; a half goes to the even neighbour. -/
def halfEven (numerator denominator : Nat) : Nat :=
  let quotient := numerator / denominator
  let twice := 2 * (numerator % denominator)
  if twice < denominator then quotient
  else if denominator < twice then quotient + 1
  else quotient + quotient % 2

/-- The exponent of the greatest power of two that is at most a positive ratio. -/
def binaryExponent (numerator denominator : Nat) : Int :=
  let estimate : Int := numerator.log2 - denominator.log2
  let fits := if 0 ≤ estimate then denominator * Nat.pow 2 estimate.toNat ≤ numerator
    else denominator ≤ numerator * Nat.pow 2 (-estimate).toNat
  if fits then estimate else estimate - 1

namespace Format

/-- The magnitude of the word nearest to a ratio. A carry out of the significand moves
into the exponent field, so one sum covers it. -/
def nearest (f : Format) (numerator denominator : Nat) : Nat :=
  if numerator = 0 then 0
  else
    let exponent := max (binaryExponent numerator denominator - f.fractionBits) f.lowestExponent
    let significand :=
      if 0 ≤ exponent then halfEven numerator (denominator * Nat.pow 2 exponent.toNat)
      else halfEven (numerator * Nat.pow 2 (-exponent).toNat) denominator
    min ((exponent - f.lowestExponent).toNat * f.hiddenUnit + significand) f.infinityWord

def ofBinary (f : Format) (significand : Nat) (exponent : Int) : Nat :=
  if 0 ≤ exponent then f.nearest (significand * Nat.pow 2 exponent.toNat) 1
  else f.nearest significand (Nat.pow 2 (-exponent).toNat)

/-- The magnitude of the word nearest to the product of two words. Only finite words have
a finite product. -/
def product (f : Format) (first second : Nat) : Nat :=
  match f.decode first, f.decode second with
  | .finite _ m p, .finite _ n q => f.ofBinary (m * n) (p + q)
  | _, _ => f.infinityWord

end Format

end Interop.Floating
