/-! # Doubles as binary fractions

A finite double is `± significand · 2 ^ exponent`. `Double.decode` reads the three fields of the
bit pattern, `Double.encode` rounds a fraction of natural numbers to the nearest double, and the
operations that a double lacks (truncation, remainder, conversion to whole numbers) are exact
arithmetic on those fields.
-/

namespace Pseudocode

-- Powers of natural numbers are the core's own, whatever other powers are in scope.
attribute [instance (high), default_instance 20000] instPowNat

/-- What a double stands for. -/
inductive Double where
  | nan
  | infinite (negative : Bool)
  | finite (negative : Bool) (significand : Nat) (exponent : Int)
  deriving DecidableEq, Repr

namespace Double

/-- The double with a bit pattern. Subnormal numbers share the least exponent, and every other
    significand carries its implicit leading bit. -/
def ofBits (bits : Nat) : Double :=
  let negative := decide (2 ^ 63 ≤ bits)
  let field : Nat := bits / 2 ^ 52 % 2 ^ 11
  let fraction := bits % 2 ^ 52
  if field = 2047 then if fraction = 0 then .infinite negative else .nan
  else if field = 0 then .finite negative fraction (-1074)
  else .finite negative (fraction + 2 ^ 52) ((field : Int) - 1075)

/-- What a double stands for. -/
def decode (x : Float) : Double := ofBits x.toBits.toNat

/-- Whether a number is less than zero. A zero is not, whatever its sign. -/
def isBelowZero : Double → Bool
  | .nan => false
  | .infinite negative => negative
  | .finite negative significand _ => negative && significand ≠ 0

/-- The number with the other sign. -/
def negate : Double → Double
  | .nan => .nan
  | .infinite negative => .infinite !negative
  | .finite negative significand exponent => .finite (!negative) significand exponent

/-- A quotient rounded to the nearest whole number, a tie to the even one. -/
def roundQuotient (num den : Nat) : Nat :=
  let quotient := num / den
  let rest := num % den
  if 2 * rest < den then quotient
  else if den < 2 * rest then quotient + 1
  else quotient + quotient % 2

/-- A fraction brought to the scale `2 ^ q`, as numerator and denominator. -/
def atScale (num den : Nat) (q : Int) : Nat × Nat :=
  (num * 2 ^ (-q).toNat, den * 2 ^ q.toNat)

/-- The bit pattern of the positive infinity. -/
def infinityBits : Nat := 2047 * 2 ^ 52

/-- The bit pattern of a value that is not a number. -/
def nanBits : Nat := 2047 * 2 ^ 52 + 2 ^ 51

/-- The sign bit. -/
def signBit (negative : Bool) : Nat := if negative then 2 ^ 63 else 0

/-- The bit pattern of the double nearest to `num / den`, a tie to the even significand. The
    exponent is chosen so that the significand has 53 bits, but never below the subnormal one; a
    significand that rounds up to 54 bits carries into the exponent field by itself. -/
def magnitudeBits (num den : Nat) : Nat :=
  if num = 0 then 0
  else
    let guess : Int := num.log2 - den.log2
    let (low, unit) := atScale num den guess
    let log := if low < unit then guess - 1 else guess
    let q := max (log - 52) (-1074)
    let (scaled, unit) := atScale num den q
    min ((q + 1074).toNat * 2 ^ 52 + roundQuotient scaled unit) infinityBits

/-- The double nearest to `± num / den`. -/
def encode (negative : Bool) (num den : Nat) : Float :=
  Float.ofBits (UInt64.ofNat (magnitudeBits num den + signBit negative))

/-- The double nearest to a natural number. -/
def ofNat (n : Nat) : Float := encode false n 1

/-- The double nearest to an integer. -/
def ofInt (n : Int) : Float := encode (decide (n < 0)) n.natAbs 1

/-- Whether the sign bit of a double that is a number is set. -/
def isNegative (x : Float) : Bool :=
  match decode x with
  | .nan => false
  | .infinite negative => negative
  | .finite negative _ _ => negative

/-- Neither an infinity nor a NaN. -/
def isFinite (x : Float) : Bool :=
  match decode x with
  | .finite .. => true
  | _ => false

/-- The whole part of `significand · 2 ^ exponent`. -/
def wholePart (significand : Nat) (exponent : Int) : Nat :=
  significand * 2 ^ exponent.toNat / 2 ^ (-exponent).toNat

/-- A finite number without a fractional part. -/
def isWhole (x : Float) : Bool :=
  match decode x with
  | .finite _ m q => m * 2 ^ q.toNat % 2 ^ (-q).toNat = 0
  | _ => false

/-- The double without its fractional bits; the sign stays, also that of a zero. -/
def trunc (x : Float) : Float :=
  let field := x.toBits >>> 52 &&& 0x7FF
  if 1075 ≤ field then x
  else if field < 1023 then Float.ofBits (x.toBits &&& 0x8000000000000000)
  else Float.ofBits (x.toBits &&& (0xFFFFFFFFFFFFFFFF <<< (1075 - field)))

/-- The greatest whole number that is not above `x`. -/
def floor (x : Float) : Float :=
  let t := trunc x
  if x < t then t - 1 else t

/-- The least whole number that is not below `x`. -/
def ceil (x : Float) : Float :=
  let t := trunc x
  if t < x then t + 1 else t

/-- The whole part of a number as an index of at most `limit`; a negative number and NaN give 0. -/
def toIndex (limit : Nat) (x : Float) : Nat :=
  match decode x with
  | .nan => 0
  | .infinite negative => if negative then 0 else limit
  | .finite negative m q => if negative then 0 else min (wholePart m q) limit

/-- The remainder of a division that truncates, with the sign of the dividend. It is exact: both
    operands are whole multiples of the smaller unit. -/
def remainder (x y : Float) : Float :=
  match decode x, decode y with
  | .finite negative m q, .finite _ n p =>
    if n = 0 then 0.0 / 0.0
    else
      let unit := min q p
      let rest := m * 2 ^ (q - unit).toNat % (n * 2 ^ (p - unit).toNat)
      encode negative (rest * 2 ^ unit.toNat) (2 ^ (-unit).toNat)
  | .finite .., .infinite _ => x
  | _, _ => 0.0 / 0.0

end Double

end Pseudocode
