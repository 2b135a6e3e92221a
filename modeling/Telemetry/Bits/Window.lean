/-!
# Numbers inside a run of bytes

A number of up to 64 bits may start and end in the middle of a byte. This module says which whole
bytes cover it (`bytesCovering`), how its value is read out of those bytes (`extract`), and how a
value is laid out from the top bit of a fresh byte (`leftAligned`). Everything is most significant
bit first. Bytes that are missing at the end of a run count as zero.
-/

namespace Telemetry.Bits

/-- The widest value a single read or write carries. -/
def maxValueBits : Nat := 64

/-- How many whole bytes are spanned by `count` bits that start `shift` bits into the first one. -/
def bytesCovering (shift count : Nat) : Nat :=
  if count = 0 then 0 else (shift + count + 7) / 8

/-- The number that a run of bytes spells out, most significant byte first. -/
def bigEndian (bytes : List UInt8) : Nat :=
  bytes.foldl (fun value byte => value * 256 + byte.toNat) 0

/-- The last `size` base-256 digits of `value`, most significant first. -/
def bigEndianBytes : (size value : Nat) → List UInt8
  | 0, _ => []
  | size + 1, value => bigEndianBytes size (value / 256) ++ [UInt8.ofNat value]

/-- The first `size` bytes of a run, zeros standing in for those it lacks. -/
def window : (size : Nat) → List UInt8 → List UInt8
  | 0, _ => []
  | size + 1, [] => 0 :: window size []
  | size + 1, byte :: rest => byte :: window size rest

/-- The value of the lowest `count` bits of `value`, of which at most 64 count. -/
def lowBits (value count : Nat) : Nat :=
  value % Nat.pow 2 (min count maxValueBits)

/--
The value of `count` bits that start `shift` bits into a run of bytes, looking at its first
`available` bytes, of which at most sixteen count. Where the looked-at bytes end before the bits do,
the value is taken from their last `count` bits instead.
-/
def extract (bytes : List UInt8) (count shift available : Nat) : Nat :=
  if count = 0 ∨ available = 0 then 0
  else
    let size := min available 16
    let below := size * 8 - (shift + count)
    lowBits (bigEndian (window size bytes) / Nat.pow 2 below) count

/-- The lowest `count` bits of `value`, laid out from the top bit of the first byte. -/
def leftAligned (value count : Nat) : List UInt8 :=
  let size := (count + 7) / 8
  bigEndianBytes size (lowBits value count * Nat.pow 2 (size * 8 - count))

/-- The eight bits of a byte, most significant first. -/
def ofByte (byte : UInt8) : List Bool :=
  [7, 6, 5, 4, 3, 2, 1, 0].map byte.toNat.testBit

/-- The bits of a run of bytes in the order they travel. -/
def ofBytes (bytes : List UInt8) : List Bool :=
  bytes.flatMap ofByte

end Telemetry.Bits
