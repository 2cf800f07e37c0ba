import Pseudocode.Number.Double
import Pseudocode.Text.Basic

/-! # Decimal notation of doubles

A positive double is written with the fewest digits that read back as the same double, or with
a fixed number of places; never with an exponent.

* `Decimal.shortest`  the coarsest decimal grid with a point in the rounding interval
* `Decimal.positional`  digits and a power of ten, written out with zeros
* `Decimal.fixed`  a number of places, a tie to the even digit
* `Decimal.nearest`  the double nearest to a decimal
-/

namespace Pseudocode.Decimal

/-- A positive decimal: `digits · 10 ^ exponent`. -/
structure Scientific where
  digits : Nat
  exponent : Int
  deriving DecidableEq, Repr

/-- The reals that round to a positive double `significand · 2 ^ exponent`, and the double
    itself, as multiples of `2 ^ (exponent - 2)`. Below a power of two the doubles lie closer. The
    ends belong to the interval when the significand is even. -/
structure Interval where
  low : Nat
  middle : Nat
  high : Nat
  closed : Bool
  exponent : Int

/-- The rounding interval of a positive double. -/
def Interval.of (significand : Nat) (exponent : Int) : Interval :=
  { low := 4 * significand - if significand = 2 ^ 52 then 1 else 2
    middle := 4 * significand
    high := 4 * significand + 2
    closed := significand % 2 = 0
    exponent := exponent - 2 }

/-- Whether a point lies in the interval; all are given in the same unit. -/
def inside (closed : Bool) (low high point : Nat) : Bool :=
  if closed then low ≤ point && point ≤ high else low < point && point < high

/-- The point of the grid `10 ^ k` that stands for the interval: of the two neighbours of the
    middle the one inside, the nearer one if both are, the upper one on a tie. -/
def Interval.onGrid? (i : Interval) (k : Int) : Option Nat :=
  let up := 2 ^ i.exponent.toNat * 10 ^ (-k).toNat
  let unit := 2 ^ (-i.exponent).toNat * 10 ^ k.toNat
  let low := i.low * up
  let middle := i.middle * up
  let high := i.high * up
  let below := middle / unit
  let hasBelow := inside i.closed low high (below * unit)
  let hasAbove := inside i.closed low high ((below + 1) * unit)
  if hasBelow && hasAbove then
    if 2 * (middle - below * unit) < unit then some below else some (below + 1)
  else if hasBelow then some below
  else if hasAbove then some (below + 1)
  else none

/-- Tries the grid `10 ^ k` and then `steps` finer ones. -/
def Interval.search (i : Interval) : (steps : Nat) → (k : Int) → Option Scientific
  | 0, k => (i.onGrid? k).map (⟨·, k⟩)
  | steps + 1, k =>
    match i.onGrid? k with
    | some digits => some ⟨digits, k⟩
    | none => i.search steps (k - 1)

/-- The decimal with the fewest digits among those that round to the double. The search starts at
    a power of ten above the double and needs at most the grid of its seventeenth digit. -/
def shortest (significand : Nat) (exponent : Int) : Scientific :=
  let magnitude := (exponent + significand.log2) * 30103 / 100000 + 2
  ((Interval.of significand exponent).search 24 magnitude).getD ⟨0, 0⟩

/-- A decimal written out in full. -/
def positional (d : Scientific) : Text :=
  let digits := Text.ofNat d.digits
  if 0 ≤ d.exponent then digits ++ List.replicate d.exponent.toNat '0'
  else
    let places := (-d.exponent).toNat
    if places < digits.length then
      digits.take (digits.length - places) ++ '.' :: digits.drop (digits.length - places)
    else '0' :: '.' :: List.replicate (places - digits.length) '0' ++ digits

/-- `significand · 2 ^ exponent` with `places` digits after the point. -/
def fixedMagnitude (places significand : Nat) (exponent : Int) : Text :=
  let (num, den) := Double.atScale (significand * 10 ^ places) 1 (-exponent)
  let digits := Text.ofNat (Double.roundQuotient num den)
  let digits := List.replicate (places + 1 - digits.length) '0' ++ digits
  if places = 0 then digits
  else digits.take (digits.length - places) ++ '.' :: digits.drop (digits.length - places)

/-- A finite number with `places` digits after the point; a set sign bit is shown. -/
def fixed (places : Nat) (negative : Bool) (significand : Nat) (exponent : Int) : Text :=
  (if negative then ['-'] else []) ++ fixedMagnitude places significand exponent

/-- The bit pattern of the double nearest to `digits · 10 ^ exponent`. Exponents far outside the
    range of doubles are decided without computing the power: a number below `2 ^ (3 · k)` is below
    `10 ^ k`. -/
def nearestBits (digits : Nat) (exponent : Int) : Nat :=
  if digits = 0 || digits.log2 < 3 * (-400 - exponent) then 0
  else if 400 < exponent then Double.infinityBits
  else Double.magnitudeBits (digits * 10 ^ exponent.toNat) (10 ^ (-exponent).toNat)

/-- The double nearest to `± digits · 10 ^ exponent`. -/
def nearest (negative : Bool) (digits : Nat) (exponent : Int) : Float :=
  Float.ofBits (UInt64.ofNat (nearestBits digits exponent + Double.signBit negative))

end Pseudocode.Decimal
