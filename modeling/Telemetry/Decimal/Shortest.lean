import Telemetry.Binary.Binary64

/-!
# Shortest decimals

The decimal with the fewest digits that still rounds to a given number. The reals that round to
`significand * 2^exponent` form an interval that ends halfway to the neighbouring numbers and holds
its ends exactly if the significand is even (`Interval`). For one digit, two digits and so on, the
two points of that decimal grid which enclose the number are tried; the first grid with a point in
the interval wins, and of two such points the nearer.
-/

namespace Telemetry

/-- The number `digits * 10^exponent`. -/
structure Decimal where
  /-- The digits, read as one natural. -/
  digits : Nat
  /-- The power of ten they count. -/
  exponent : Int
deriving DecidableEq, Repr

/-- Where two shortest decimals are equally near, which one is written. -/
inductive Tie where
  | toEven
  | up
deriving DecidableEq, Repr

/-- The reals that round to one number. -/
structure Interval where
  /-- The least of them, or their bound from below. -/
  low : Rat
  /-- The greatest of them, or their bound from above. -/
  high : Rat
  /-- The bounds belong to the interval. -/
  closed : Bool

namespace Interval

/-- The point lies in the interval. -/
def contains (i : Interval) (x : Rat) : Bool :=
  if i.closed then i.low ≤ x && x ≤ i.high else i.low < x && x < i.high

/--
The reals that round to `significand * 2^exponent`. The neighbour below the least significand of
its exponent is half as far away as the neighbour above.
-/
def around (significand : Nat) (exponent : Int) : Interval :=
  let narrow := significand = Nat.pow 2 BinaryFormat.double.fractionBits ∧
    BinaryFormat.double.leastExponent < exponent
  { low := Datum.magnitude (4 * significand - (if narrow then 1 else 2)) (exponent - 2)
    high := Datum.magnitude (4 * significand + 2) (exponent - 2)
    closed := significand % 2 = 0 }

end Interval

namespace Decimal

def powTen (exponent : Int) : Rat :=
  mkRat (Nat.pow 10 exponent.toNat) (Nat.pow 10 (-exponent).toNat)

def toRat (d : Decimal) : Rat :=
  (d.digits : Rat) * powTen d.exponent

/-- The least `k` with `x < 10^k`, for positive `x`. -/
def scale (x : Rat) : Int :=
  let guess := floorLog2 x.num.natAbs x.den * 30103 / 100000
  if x < powTen guess then guess
  else if x < powTen (guess + 1) then guess + 1
  else guess + 2

/-- Of the two points of a grid around `x`, the one to write, if any lies in the interval. -/
def onGrid? (tie : Tie) (interval : Interval) (x : Rat) (exponent : Int) : Option Decimal :=
  let below := (x / powTen exponent).floor.toNat
  let lower : Decimal := ⟨below, exponent⟩
  let upper : Decimal := ⟨below + 1, exponent⟩
  match interval.contains lower.toRat, interval.contains upper.toRat with
  | false, false => none
  | true, false => some lower
  | false, true => some upper
  | true, true =>
    let twice := lower.toRat + upper.toRat
    if 2 * x < twice then some lower
    else if twice < 2 * x then some upper
    else match tie with
      | .up => some upper
      | .toEven => some (if below % 2 = 0 then lower else upper)

/-- Move trailing zeros of the digits into the exponent, at most `steps` of them. -/
def dropZeros : (steps : Nat) → Decimal → Decimal
  | 0, d => d
  | steps + 1, d =>
    if d.digits ≠ 0 ∧ d.digits % 10 = 0 then dropZeros steps ⟨d.digits / 10, d.exponent + 1⟩ else d

/--
The shortest decimal that rounds to `significand * 2^exponent`, for a positive significand.
Seventeen digits always suffice; were they not to, the exact value is written.
-/
def shortest (tie : Tie) (significand : Nat) (exponent : Int) : Decimal :=
  let x := Datum.magnitude significand exponent
  let interval := Interval.around significand exponent
  let top := scale x
  let found := (List.range 17).findSome? fun n => onGrid? tie interval x (top - (n + 1 : Nat))
  let exact : Decimal :=
    ⟨significand * Nat.pow 2 exponent.toNat * Nat.pow 5 (-exponent).toNat, min exponent 0⟩
  let d := found.getD exact
  dropZeros d.digits.log2 d

end Decimal

end Telemetry
