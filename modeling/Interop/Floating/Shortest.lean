import Interop.Floating.Format

/-! The shortest decimal of a floating-point number: of the decimals that round to the
number, those with the fewest digits, and of these the nearest. All is exact integer
arithmetic on the interval of values that round to the number. -/
namespace Interop.Floating

/-- The values that round to a number, in units of `2 ^ unit`; the ends belong to the
interval exactly where the significand is even. -/
structure Interval where
  low : Nat
  middle : Nat
  high : Nat
  unit : Int
  closed : Bool
  deriving DecidableEq, Repr

/-- Below the smallest significand of a binade the neighbour is only half as far. -/
def Format.interval (f : Format) (significand : Nat) (exponent : Int) : Interval :=
  let reach := if significand = f.hiddenUnit ∧ f.lowestExponent < exponent then 1 else 2
  ⟨4 * significand - reach, 4 * significand, 4 * significand + 2, exponent - 2,
    significand % 2 == 0⟩

/-- The decimal grid of step `10 ^ scale` and the interval brought to one integer scale:
a point `k` of the grid is `k * step` there, and a bound `x` of the interval `x * unit`. -/
structure Grid where
  step : Nat
  unit : Nat
  deriving DecidableEq, Repr

def Interval.grid (interval : Interval) (scale : Int) : Grid :=
  ⟨Nat.pow 10 scale.toNat * Nat.pow 2 (-interval.unit).toNat,
    Nat.pow 2 interval.unit.toNat * Nat.pow 10 (-scale).toNat⟩

def Interval.holds (interval : Interval) (grid : Grid) (point : Nat) : Bool :=
  let value := point * grid.step
  let low := interval.low * grid.unit
  let high := interval.high * grid.unit
  if interval.closed then low ≤ value && value ≤ high else low < value && value < high

/-- The point of a grid inside the interval that is nearest to its middle, if there is
one; a tie goes to the greater point. -/
def Interval.pointOn (interval : Interval) (scale : Int) : Option Nat :=
  let grid := interval.grid scale
  let middle := interval.middle * grid.unit
  let below := middle / grid.step
  let above := below + 1
  match interval.holds grid below, interval.holds grid above with
  | true, true =>
    if middle - below * grid.step < above * grid.step - middle then some below else some above
  | true, false => some below
  | false, true => some above
  | false, false => none

/-- Refines the grid until a point of it lies in the interval. -/
def Interval.search (interval : Interval) : Nat → Int → Nat × Int
  | 0, scale => (interval.middle, scale)
  | steps + 1, scale =>
    match interval.pointOn scale with
    | some point => (point, scale)
    | none => interval.search steps (scale - 1)

/-- A scale that is above the first digit of a number whose leading bit has the given
exponent; `30103 / 100000` is just above the common logarithm of two. -/
def startingScale (binaryExponent : Int) : Int := binaryExponent * 30103 / 100000 + 2

def Format.shortest (f : Format) (significand : Nat) (exponent : Int) : Nat × Int :=
  (f.interval significand exponent).search (f.fractionBits + 4)
    (startingScale (significand.log2 + exponent))

end Interop.Floating
