/-!
# The field of 256 elements

Bytes as polynomials over two elements, modulo `x^8 + x^4 + x^3 + x + 1`. Addition is exclusive or.
-/

namespace Telemetry.Aes

/-- Multiplication by the polynomial `x`. -/
def timesX (a : UInt8) : UInt8 :=
  (a <<< 1) ^^^ (if a &&& 0x80 = 0 then 0 else 0x1B)

/-- The product with the lowest `steps` bits of the second factor. -/
def mulLow : (steps : Nat) → UInt8 → UInt8 → UInt8
  | 0, _, _ => 0
  | steps + 1, a, b => (if b &&& 1 = 0 then 0 else a) ^^^ mulLow steps (timesX a) (b >>> 1)

/-- The product of two elements. -/
def mul (a b : UInt8) : UInt8 :=
  mulLow 8 a b

/-- The multiplicative inverse, as the power 254; zero is sent to zero. -/
def inverse (a : UInt8) : UInt8 :=
  let a2 := mul a a
  let a4 := mul a2 a2
  let a8 := mul a4 a4
  let a16 := mul a8 a8
  let a32 := mul a16 a16
  let a64 := mul a32 a32
  let a128 := mul a64 a64
  mul (mul (mul a2 a4) (mul a8 a16)) (mul (mul a32 a64) a128)

/-- Rotation to the left by `count` bits, for `count` from 1 to 7. -/
def rotateLeft (a count : UInt8) : UInt8 :=
  (a <<< count) ||| (a >>> (8 - count))

/-- The substitution of a byte: its inverse under a fixed affine map. -/
def subByte (a : UInt8) : UInt8 :=
  let b := inverse a
  b ^^^ rotateLeft b 1 ^^^ rotateLeft b 2 ^^^ rotateLeft b 3 ^^^ rotateLeft b 4 ^^^ 0x63

/-- The byte that `subByte` sends here. -/
def unsubByte (a : UInt8) : UInt8 :=
  inverse (rotateLeft a 1 ^^^ rotateLeft a 3 ^^^ rotateLeft a 6 ^^^ 0x05)

end Telemetry.Aes
