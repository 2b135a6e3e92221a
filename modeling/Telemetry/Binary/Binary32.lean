import Telemetry.Binary.Binary64

/-!
# Numbers of 32 bits

`Binary32` is a number in the 32-bit binary format, kept as its pattern of bits. Every such number
is also one of 64 bits (`toBinary64`); the way back rounds (`ofBinary64`).
-/

namespace Telemetry

/-- A number in the 32-bit binary format. -/
structure Binary32 where
  /-- Its pattern: sign, exponent, fraction. -/
  bits : UInt32
deriving DecidableEq, Repr

namespace Binary32

def datum (x : Binary32) : Datum :=
  BinaryFormat.single.decode x.bits.toNat

/-- The greatest finite number. -/
def greatest : Binary32 := ⟨0x7F7FFFFF⟩

/-- The same number in the wider format. -/
def toBinary64 (x : Binary32) : Binary64 :=
  match x.datum with
  | .nan => Binary64.nan
  | .infinity negative => Binary64.infinity negative
  | .finite negative significand exponent =>
    Binary64.round negative (Datum.magnitude significand exponent)

/-- The nearest number to a finite one of the wider format. -/
def ofBinary64 (x : Binary64) : Binary32 :=
  ⟨UInt32.ofNat (BinaryFormat.single.ofRat x.isNegative x.toRat)⟩

end Binary32

end Telemetry
