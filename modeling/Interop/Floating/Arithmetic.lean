import Interop.Floating.Format

/-! Exact operations on doubles: the double nearest to an integer, truncation to an
integer and the remainder of truncating division. -/
namespace Interop.Floating

def decodeDouble (x : Float) : Datum := Format.double.decode x.toBits.toNat

def ofInteger (n : Int) : Float :=
  Float.ofBits (UInt64.ofNat (Format.double.withSign (n < 0) (Format.double.nearest n.natAbs 1)))

def signed (negative : Bool) (n : Nat) : Int := if negative then -n else n

/-- An integer of `bits` bits at most, in two's complement. -/
def clamp (bits : Nat) (n : Int) : Int := max (-(Nat.pow 2 (bits - 1))) (min n (Nat.pow 2 (bits - 1) - 1))

/-- The integer part of a value, clamped to `bits` bits; what is no number gives zero. -/
def Datum.truncate (bits : Nat) : Datum → Int
  | .nan => 0
  | .infinite negative => clamp bits (signed negative (Nat.pow 2 bits))
  | .finite negative significand exponent =>
    clamp bits (signed negative (if 0 ≤ exponent then significand * Nat.pow 2 exponent.toNat
      else significand / Nat.pow 2 (-exponent).toNat))

/-- The remainder has the sign of the dividend and is exact; dividing by an infinity
leaves the dividend. A zero divisor has no remainder. -/
def remainder (x y : Float) : Float :=
  match decodeDouble x, decodeDouble y with
  | .finite negative a p, .finite _ b q =>
    if b = 0 then 0.0 / 0.0
    else
      let least := min p q
      let rest := (a * Nat.pow 2 (p - least).toNat) % (b * Nat.pow 2 (q - least).toNat)
      Float.ofBits (UInt64.ofNat (Format.double.withSign negative (Format.double.ofBinary rest least)))
  | .finite .., .infinite _ => x
  | _, _ => 0.0 / 0.0

end Interop.Floating
