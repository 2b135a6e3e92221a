import Telemetry.Binary.Binary32

/-!
# Scalars

The values that a raw field carries bit for bit: integers of four widths with and without sign,
numbers of two formats, truth values and characters. `Scalar.toBits` and `Scalar.ofBits` are the wire
form; `Scalar.ofBinary64?` accepts a number only where the kind holds it, rounding for 32-bit numbers
alone.
-/

namespace Telemetry

/-- The kinds of scalar. -/
inductive ScalarKind where
  | int8
  | uint8
  | int16
  | uint16
  | int32
  | uint32
  | int64
  | uint64
  | binary32
  | binary64
  | bool
  | char
deriving DecidableEq, Repr

namespace ScalarKind

/-- The kind in words. -/
def label : ScalarKind → String
  | .int8 => "I8"
  | .uint8 => "U8"
  | .int16 => "I16"
  | .uint16 => "U16"
  | .int32 => "I32"
  | .uint32 => "U32"
  | .int64 => "I64"
  | .uint64 => "U64"
  | .binary32 => "F32"
  | .binary64 => "F64"
  | .bool => "Bool"
  | .char => "Char"

/-- How many bytes a scalar of this kind takes on the wire. -/
def byteWidth : ScalarKind → Nat
  | .int8 | .uint8 | .bool | .char => 1
  | .int16 | .uint16 => 2
  | .int32 | .uint32 | .binary32 => 4
  | .int64 | .uint64 | .binary64 => 8

/-- How many bits a scalar of this kind takes on the wire. -/
def bitWidth (kind : ScalarKind) : Nat :=
  8 * kind.byteWidth

end ScalarKind

/-- A value of one of the kinds. -/
inductive Scalar where
  | int8 (value : Int8)
  | uint8 (value : UInt8)
  | int16 (value : Int16)
  | uint16 (value : UInt16)
  | int32 (value : Int32)
  | uint32 (value : UInt32)
  | int64 (value : Int64)
  | uint64 (value : UInt64)
  | binary32 (value : Binary32)
  | binary64 (value : Binary64)
  | bool (value : Bool)
  | char (value : Char)
deriving DecidableEq, Repr

namespace Scalar

/-- The kind of a scalar. -/
def kind : Scalar → ScalarKind
  | .int8 _ => .int8
  | .uint8 _ => .uint8
  | .int16 _ => .int16
  | .uint16 _ => .uint16
  | .int32 _ => .int32
  | .uint32 _ => .uint32
  | .int64 _ => .int64
  | .uint64 _ => .uint64
  | .binary32 _ => .binary32
  | .binary64 _ => .binary64
  | .bool _ => .bool
  | .char _ => .char

/-- The character is one of the 256 that a byte holds. -/
def isLatin1 (c : Char) : Bool :=
  c.toNat < 256

/--
How many bytes a scalar needs. A character beyond the 256 that one byte holds needs four, which no
character field offers.
-/
def byteWidth : Scalar → Nat
  | .char c => if isLatin1 c then 1 else 4
  | scalar => scalar.kind.byteWidth

/-- The scalar of a kind with the given wire bits; bits beyond the kind's width are ignored. -/
def ofBits (kind : ScalarKind) (bits : Nat) : Scalar :=
  match kind with
  | .int8 => .int8 (UInt8.ofNat bits).toInt8
  | .uint8 => .uint8 (UInt8.ofNat bits)
  | .int16 => .int16 (UInt16.ofNat bits).toInt16
  | .uint16 => .uint16 (UInt16.ofNat bits)
  | .int32 => .int32 (UInt32.ofNat bits).toInt32
  | .uint32 => .uint32 (UInt32.ofNat bits)
  | .int64 => .int64 (UInt64.ofNat bits).toInt64
  | .uint64 => .uint64 (UInt64.ofNat bits)
  | .binary32 => .binary32 ⟨UInt32.ofNat bits⟩
  | .binary64 => .binary64 ⟨UInt64.ofNat bits⟩
  | .bool => .bool (bits % 256 != 0)
  | .char => .char (Char.ofNat (bits % 256))

/-- The wire bits of a scalar; of a character those of its lowest byte. -/
def toBits : Scalar → Nat
  | .int8 value => value.toUInt8.toNat
  | .uint8 value => value.toNat
  | .int16 value => value.toUInt16.toNat
  | .uint16 value => value.toNat
  | .int32 value => value.toUInt32.toNat
  | .uint32 value => value.toNat
  | .int64 value => value.toUInt64.toNat
  | .uint64 value => value.toNat
  | .binary32 value => value.bits.toNat
  | .binary64 value => value.bits.toNat
  | .bool value => value.toNat
  | .char value => value.toNat % 256

/-- The number a scalar stands for, rounded where 64-bit integers have too many digits. -/
def toBinary64 : Scalar → Binary64
  | .int8 value => Binary64.ofInt value.toInt
  | .uint8 value => Binary64.ofNat value.toNat
  | .int16 value => Binary64.ofInt value.toInt
  | .uint16 value => Binary64.ofNat value.toNat
  | .int32 value => Binary64.ofInt value.toInt
  | .uint32 value => Binary64.ofNat value.toNat
  | .int64 value => Binary64.ofInt value.toInt
  | .uint64 value => Binary64.ofNat value.toNat
  | .binary32 value => value.toBinary64
  | .binary64 value => value
  | .bool value => Binary64.ofNat value.toNat
  | .char value => Binary64.ofNat value.toNat

/-- The integers that a kind holds, as a half-open interval; none for the kinds that hold fractions. -/
def integerRange? : ScalarKind → Option (Int × Int)
  | .int8 => some (-0x80, 0x80)
  | .uint8 => some (0, 0x100)
  | .int16 => some (-0x8000, 0x8000)
  | .uint16 => some (0, 0x10000)
  | .int32 => some (-0x80000000, 0x80000000)
  | .uint32 => some (0, 0x100000000)
  | .int64 => some (-0x8000000000000000, 0x8000000000000000)
  | .uint64 => some (0, 0x10000000000000000)
  | .bool => some (0, 2)
  | .char => some (0, 0x100)
  | .binary32 | .binary64 => none

/-- The scalar of an integer kind with the given value, for values that the kind holds. -/
def ofInteger (kind : ScalarKind) (value : Int) : Scalar :=
  ofBits kind (value % 0x10000000000000000).toNat

/--
The scalar of a kind that stands for a number. Infinities and what is no number are refused, and so
is a number that an integer kind does not hold exactly or whose magnitude a 32-bit number does not
reach.
-/
def ofBinary64? (kind : ScalarKind) (x : Binary64) : Option Scalar :=
  if !x.isFinite then none
  else
    match kind with
    | .binary64 => some (.binary64 x)
    | .binary32 =>
      let bound := Binary32.greatest.toBinary64.toRat
      if -bound ≤ x.toRat ∧ x.toRat ≤ bound then some (.binary32 (Binary32.ofBinary64 x)) else none
    | kind =>
      match integerRange? kind with
      | none => none
      | some (least, bound) =>
        let value := x.toRat
        if value.den = 1 ∧ least ≤ value.num ∧ value.num < bound then some (ofInteger kind value.num)
        else none

end Scalar

end Telemetry
