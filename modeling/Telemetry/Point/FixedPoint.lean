import Telemetry.Binary.Binary64

/-!
# Fixed-point ranges

A measurement with known bounds and a fixed number of decimals travels as the number of steps above
its lower bound, in just as many bits as its range needs (`FixedPoint.width`). Values outside the
range go to its ends.
-/

namespace Telemetry

/-- The values from `low` to `high` in steps of `10^-decimals`. -/
structure FixedPoint where
  low : Binary64
  high : Binary64
  decimals : UInt8
deriving DecidableEq, Repr

/-- The greatest natural that a count of bits or steps reaches. -/
def maxWord : Nat := 0xFFFFFFFFFFFFFFFF

/--
The binary logarithm of a number above one, rounded to 53 bits and then up to a whole number.

With `2^k` the greatest power of two that is not above the number and `2^e` the greatest not above
`k`, the logarithm rounds down to `k` itself where the number exceeds `2^k` by at most `2^(e-1) ln 2`
units of its last place, that is, by `2^(e-53) ln 2` of `2^k`. Sixteen places of `ln 2` decide this,
since no exponent in reach brings the bound that near to a whole number.
-/
def ceilLog2 (num den : Nat) : Nat :=
  let k := (floorLog2 num den).toNat
  let base := den * Nat.pow 2 k
  let excess := num - base
  if excess * Nat.pow 2 53 * 10000000000000000 ≤ base * Nat.pow 2 k.log2 * 6931471805599453 then k
  else k + 1

namespace FixedPoint

/-- The number of steps in one unit. -/
def scale (r : FixedPoint) : Binary64 :=
  Binary64.powTen r.decimals

/-- The number of steps from the lower bound to the upper one. -/
def span (r : FixedPoint) : Binary64 :=
  (r.high - r.low) * r.scale

/-- How many bits the steps of a range take. -/
def width (r : FixedPoint) : Nat :=
  if r.span.le (Binary64.ofNat 1) then 0
  else
    match r.span.datum with
    | .nan => 0
    | .infinity _ => maxWord
    | .finite .. => ceilLog2 r.span.toRat.num.natAbs r.span.toRat.den

/-- The greatest number of steps that so many bits hold. -/
def limit (bits : Nat) : Nat :=
  if 64 ≤ bits then maxWord else Nat.pow 2 bits - 1

/-- The steps from the lower bound to a value, in so many bits. -/
def quantize (r : FixedPoint) (bits : Nat) (value : Binary64) : Nat :=
  let inside := if value.isNaN then r.low else value.clamp r.low r.high
  ((inside - r.low) * r.scale).roundHalfAway.toNatClamped (limit bits)

/-- The value so many steps above the lower bound, rounded to the decimals of the range. -/
def dequantize (r : FixedPoint) (steps : Nat) : Binary64 :=
  ((Binary64.ofNat steps / r.scale + r.low) * r.scale).roundHalfAway / r.scale

end FixedPoint

end Telemetry
