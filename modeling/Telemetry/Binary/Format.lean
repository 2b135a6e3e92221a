/-!
# Binary floating-point formats

A pattern of bits denotes infinity, no number at all, or the exact number `significand * 2^exponent`
with a sign (`BinaryFormat.decode`). In the other direction an exact rational is rounded once, to
the nearest number that the format holds, a tie going to the even significand
(`BinaryFormat.nearest`). Each arithmetic operation of a format is then the exact operation on
rationals followed by that one rounding.
-/

namespace Telemetry

/-- What a pattern of bits denotes. -/
inductive Datum where
  | nan
  | infinity (negative : Bool)
  /-- The number `significand * 2^exponent`, negated if so marked; zero keeps its sign. -/
  | finite (negative : Bool) (significand : Nat) (exponent : Int)
deriving DecidableEq, Repr

namespace Datum

/-- The magnitude `significand * 2^exponent`. -/
def magnitude (significand : Nat) (exponent : Int) : Rat :=
  mkRat (significand * Nat.pow 2 exponent.toNat) (Nat.pow 2 (-exponent).toNat)

/-- The number denoted; zero where there is none. -/
def toRat : Datum → Rat
  | .finite negative significand exponent =>
    if negative then -magnitude significand exponent else magnitude significand exponent
  | _ => 0

end Datum

/-- The quotient of two naturals rounded to the nearest one, a half going to the even neighbour. -/
def nearestEven (num den : Nat) : Nat :=
  let below := num / den
  let rest := num % den
  if 2 * rest < den then below
  else if den < 2 * rest then below + 1
  else if below % 2 = 0 then below
  else below + 1

/-- The greatest `e` with `2^e * den ≤ num`, for positive `num` and `den`. -/
def floorLog2 (num den : Nat) : Int :=
  let guess : Int := (num.log2 : Int) - (den.log2 : Int)
  if den * Nat.pow 2 guess.toNat ≤ num * Nat.pow 2 (-guess).toNat then guess else guess - 1

/-- How many bits of a pattern hold the fraction and how many the exponent; one more holds the sign. -/
structure BinaryFormat where
  fractionBits : Nat
  exponentBits : Nat

namespace BinaryFormat

def double : BinaryFormat := ⟨52, 11⟩

def single : BinaryFormat := ⟨23, 8⟩

/-- The exponent of the least positive number. -/
def leastExponent (f : BinaryFormat) : Int :=
  2 - (Nat.pow 2 (f.exponentBits - 1) : Nat) - (f.fractionBits : Int)

/-- The pattern of positive infinity. -/
def infinityBits (f : BinaryFormat) : Nat :=
  (Nat.pow 2 f.exponentBits - 1) * Nat.pow 2 f.fractionBits

/-- The pattern in which only the sign is set. -/
def signBit (f : BinaryFormat) : Nat :=
  Nat.pow 2 (f.fractionBits + f.exponentBits)

def decode (f : BinaryFormat) (bits : Nat) : Datum :=
  let negative := decide (f.signBit ≤ bits)
  let magnitude := bits % f.signBit
  let biased := magnitude / Nat.pow 2 f.fractionBits
  let fraction := magnitude % Nat.pow 2 f.fractionBits
  if f.infinityBits < magnitude then .nan
  else if magnitude = f.infinityBits then .infinity negative
  else if biased = 0 then .finite negative fraction f.leastExponent
  else .finite negative (Nat.pow 2 f.fractionBits + fraction) (f.leastExponent + (biased - 1 : Nat))

/--
The pattern of the non-negative number nearest to `num / den`. The significand is a whole number of
steps of size `2^exponent`; one that rounds up to the next power of two carries into the exponent
field by itself, and what is too large for the format becomes infinity.
-/
def nearest (f : BinaryFormat) (num den : Nat) : Nat :=
  if num = 0 then 0
  else
    let exponent := max (floorLog2 num den - (f.fractionBits : Int)) f.leastExponent
    let significand := nearestEven (num * Nat.pow 2 (-exponent).toNat) (den * Nat.pow 2 exponent.toNat)
    min f.infinityBits
      ((exponent - f.leastExponent).toNat * Nat.pow 2 f.fractionBits + significand)

/-- The pattern of the number nearest to a rational; a zero result takes the given sign. -/
def ofRat (f : BinaryFormat) (negative : Bool) (x : Rat) : Nat :=
  (if negative then f.signBit else 0) + f.nearest x.num.natAbs x.den

end BinaryFormat

end Telemetry
