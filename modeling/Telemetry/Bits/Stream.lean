import Telemetry.Bits.Merge

/-!
# Bit streams

A `BitStream` is a buffer that grows bit by bit at its end and is read, from its start, by a cursor of
its own. Bits are written from the top of a byte down; the free bits of the last byte are zeros, so
the buffer is always the written bits filled up with zeros to whole bytes.

Reading never fails: bits beyond the end are zeros, and the cursor moves on by the number of bits
asked for. Whether that happened is seen afterwards (`overran`).
-/

namespace Telemetry

/-- A growing run of bits with a read cursor. -/
structure BitStream where
  bytes : List UInt8
  /-- How many bits of the last byte are taken; zero if no byte is begun. -/
  used : Nat
  /-- How many bits have been read. -/
  cursor : Nat
  used_lt : used < 8 := by decide
  clear : Bits.Clear bytes used

namespace BitStream

/-- A stream that holds the given bytes, unread. -/
def ofBytes (bytes : List UInt8) : BitStream where
  bytes := bytes
  used := 0
  cursor := 0
  clear := Bits.clear_zero bytes

/-- The stream nothing has been written to. -/
def empty : BitStream := ofBytes []

/-- The length of the buffer in bits, filling included. -/
def size (s : BitStream) : Nat :=
  8 * s.bytes.length

def isEmpty (s : BitStream) : Bool :=
  s.bytes.isEmpty

/-- The bits between the cursor and the end of the buffer. -/
def remaining (s : BitStream) : Nat :=
  s.size - s.cursor

/-- A read has run past the end of the buffer. -/
def overran (s : BitStream) : Bool :=
  s.size < s.cursor

/--
More than `header` bits lie ahead of the cursor. That many bits or fewer are filling, since not even
the header of another field fits them.
-/
def canContinue (s : BitStream) (header : Nat) : Bool :=
  s.cursor < s.size - header

/-! ## Writing -/

/-- Append the first `count` bits of a byte. -/
def writeByte (s : BitStream) (byte : UInt8) (count : Nat) (pos : 0 < count) (le : count ≤ 8) :
    BitStream where
  bytes := Bits.mergeByte s.bytes s.used byte count
  used := (s.used + count) % 8
  cursor := s.cursor
  used_lt := Nat.mod_lt _ (by decide)
  clear := Bits.clear_mergeByte s.clear s.used_lt byte pos le

/-- Append the first `count` bits of a run of bytes, zeros standing in for those it lacks. -/
def writeBits (s : BitStream) (bytes : List UInt8) (count : Nat) : BitStream :=
  if done : count = 0 then s
  else
    let chunk := min count 8
    (s.writeByte (bytes.headD 0) chunk (by omega) (by omega)).writeBits bytes.tail (count - chunk)
termination_by count
decreasing_by omega

/-- Append the lowest `count` bits of a value, most significant first. -/
def writeUInt (s : BitStream) (value count : Nat) : BitStream :=
  s.writeBits (Bits.leftAligned value count) count

/-! ## Reading -/

/-- Move the cursor on without looking at the bits. -/
def skip (s : BitStream) (count : Nat) : BitStream :=
  { s with cursor := s.cursor + count }

/-- The whole bytes that cover the next `count` bits. -/
def readBits (s : BitStream) (count : Nat) : List UInt8 × BitStream :=
  let covering := Bits.bytesCovering (s.cursor % 8) count
  (Bits.window covering (s.bytes.drop (s.cursor / 8)), s.skip count)

/-- The next `count` bits as a number. -/
def readUInt (s : BitStream) (count : Nat) : Nat × BitStream :=
  let (covering, rest) := s.readBits count
  (Bits.extract covering count (s.cursor % 8) covering.length, rest)

@[simp] theorem bytes_skip (s : BitStream) (count : Nat) : (s.skip count).bytes = s.bytes := rfl

@[simp] theorem cursor_skip (s : BitStream) (count : Nat) :
    (s.skip count).cursor = s.cursor + count := rfl

@[simp] theorem readBits_snd (s : BitStream) (count : Nat) :
    (s.readBits count).2 = s.skip count := rfl

@[simp] theorem readUInt_snd (s : BitStream) (count : Nat) :
    (s.readUInt count).2 = s.skip count := rfl

end BitStream

end Telemetry
