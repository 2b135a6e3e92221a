import Telemetry.Binary.Format

/-!
# Numbers of 64 bits

`Binary64` is a number in the 64-bit binary format, kept as its pattern of bits. Arithmetic is
defined by what the format prescribes: special operands first, otherwise the exact result rounded
once. Comparison treats both zeros as equal and a pattern that is no number as unordered.
-/

namespace Telemetry

/-- A number in the 64-bit binary format. -/
structure Binary64 where
  /-- Its pattern: sign, exponent, fraction. -/
  bits : UInt64
deriving DecidableEq, Repr

namespace Binary64

def datum (x : Binary64) : Datum :=
  BinaryFormat.double.decode x.bits.toNat

/-- The number denoted; zero for infinities and for what is no number. -/
def toRat (x : Binary64) : Rat :=
  x.datum.toRat

def isNegative (x : Binary64) : Bool :=
  BinaryFormat.double.signBit ≤ x.bits.toNat

def isNaN (x : Binary64) : Bool :=
  match x.datum with
  | .nan => true
  | _ => false

/-- The pattern denotes a number other than an infinity. -/
def isFinite (x : Binary64) : Bool :=
  match x.datum with
  | .finite _ _ _ => true
  | _ => false

/-! ## Constants and conversions -/

def nan : Binary64 := ⟨0x7FF8000000000000⟩

def infinity (negative : Bool) : Binary64 :=
  if negative then ⟨0xFFF0000000000000⟩ else ⟨0x7FF0000000000000⟩

def zero (negative : Bool) : Binary64 :=
  if negative then ⟨0x8000000000000000⟩ else ⟨0⟩

/-- The number nearest to a rational; a zero result takes the given sign. -/
def round (negative : Bool) (x : Rat) : Binary64 :=
  ⟨UInt64.ofNat (BinaryFormat.double.ofRat negative x)⟩

/-- The number nearest to a rational. -/
def ofRat (x : Rat) : Binary64 :=
  round (decide (x < 0)) x

def ofInt (n : Int) : Binary64 :=
  ofRat n

def ofNat (n : Nat) : Binary64 :=
  ofRat n

/--
The whole part of a number as a natural of at most `limit`: negative numbers give zero, too large
ones and infinity give `limit`, and what is no number gives zero.
-/
def toNatClamped (x : Binary64) (limit : Nat) : Nat :=
  match x.datum with
  | .nan => 0
  | .infinity negative => if negative then 0 else limit
  | .finite .. => min limit x.toRat.floor.toNat

/-! ## Arithmetic -/

def neg (x : Binary64) : Binary64 :=
  ⟨x.bits ^^^ 0x8000000000000000⟩

instance : Neg Binary64 := ⟨neg⟩

/-- The sum. An exact zero is negative only if both terms are. -/
def add (x y : Binary64) : Binary64 :=
  match x.datum, y.datum with
  | .nan, _ => nan
  | _, .nan => nan
  | .infinity a, .infinity b => if a = b then x else nan
  | .infinity _, _ => x
  | _, .infinity _ => y
  | .finite a _ _, .finite b _ _ =>
    let sum := x.toRat + y.toRat
    if sum = 0 then zero (a && b) else ofRat sum

instance : Add Binary64 := ⟨add⟩

def sub (x y : Binary64) : Binary64 :=
  x + -y

instance : Sub Binary64 := ⟨sub⟩

/-- The product, negative if one factor is. -/
def mul (x y : Binary64) : Binary64 :=
  let negative := x.isNegative != y.isNegative
  match x.datum, y.datum with
  | .nan, _ => nan
  | _, .nan => nan
  | .infinity _, .infinity _ => infinity negative
  | .infinity _, .finite _ m _ => if m = 0 then nan else infinity negative
  | .finite _ m _, .infinity _ => if m = 0 then nan else infinity negative
  | .finite .., .finite .. => round negative (x.toRat * y.toRat)

instance : Mul Binary64 := ⟨mul⟩

/-- The quotient, negative if one operand is. -/
def div (x y : Binary64) : Binary64 :=
  let negative := x.isNegative != y.isNegative
  match x.datum, y.datum with
  | .nan, _ => nan
  | _, .nan => nan
  | .infinity _, .infinity _ => nan
  | .infinity _, _ => infinity negative
  | _, .infinity _ => zero negative
  | .finite _ m _, .finite _ n _ =>
    if n = 0 then if m = 0 then nan else infinity negative
    else round negative (x.toRat / y.toRat)

instance : Div Binary64 := ⟨div⟩

/-- The nearest integer, a half going away from zero. -/
def roundHalfAway (x : Binary64) : Binary64 :=
  match x.datum with
  | .finite negative significand exponent =>
    let whole := (Datum.magnitude significand exponent + 1 / 2).floor
    round negative whole
  | _ => x

/--
`base` to the power `exponent`, by squaring: each bit of the exponent, from the lowest, multiplies
the current square into `product`, and every product is rounded. As many bits are looked at as
`steps` says.
-/
def powerLoop : (steps : Nat) → (product base : Binary64) → (exponent : Nat) → Binary64
  | 0, product, _, _ => product
  | steps + 1, product, base, exponent =>
    let product := if exponent % 2 = 1 then product * base else product
    if exponent / 2 = 0 then product
    else powerLoop steps product (base * base) (exponent / 2)

/-- Ten to the given power, by repeated squaring. -/
def powTen (exponent : UInt8) : Binary64 :=
  powerLoop 8 (ofNat 1) (ofNat 10) exponent.toNat

/-! ## Order -/

def lt (x y : Binary64) : Bool :=
  match x.datum, y.datum with
  | .nan, _ => false
  | _, .nan => false
  | .infinity a, .infinity b => a && !b
  | .infinity a, .finite .. => a
  | .finite .., .infinity b => !b
  | .finite .., .finite .. => x.toRat < y.toRat

def le (x y : Binary64) : Bool :=
  !x.isNaN && !y.isNaN && !y.lt x

/-- The nearest number within the bounds, for a number that is one. -/
def clamp (x low high : Binary64) : Binary64 :=
  if x.lt low then low else if high.lt x then high else x

end Binary64

end Telemetry
