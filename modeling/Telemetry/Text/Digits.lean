/-!
# Digits

The decimal and hexadecimal digits of ASCII as characters, their values, and numbers written with
them.
-/

namespace Telemetry.Text

/-- The value of a hexadecimal digit of either case. -/
def hexDigit? (c : Char) : Option Nat :=
  if '0' ≤ c ∧ c ≤ '9' then some (c.toNat - '0'.toNat)
  else if 'a' ≤ c ∧ c ≤ 'f' then some (c.toNat - 'a'.toNat + 10)
  else if 'A' ≤ c ∧ c ≤ 'F' then some (c.toNat - 'A'.toNat + 10)
  else none

/-- The value of a decimal digit. -/
def digit? (c : Char) : Option Nat :=
  if '0' ≤ c ∧ c ≤ '9' then some (c.toNat - '0'.toNat) else none

/-- The lower-case digit of a value below sixteen. -/
def lowerDigit (value : Nat) : Char :=
  Char.ofNat (if value < 10 then '0'.toNat + value else 'a'.toNat + (value - 10))

/-- The upper-case digit of a value below sixteen. -/
def upperDigit (value : Nat) : Char :=
  Char.ofNat (if value < 10 then '0'.toNat + value else 'A'.toNat + (value - 10))

/-- The number that a run of decimal digits spells out, or nothing where one is no digit. -/
def decimalValue? (digits : List Char) : Option Nat :=
  digits.foldl (fun value? c => value?.bind fun value => (digit? c).map (10 * value + ·)) (some 0)

/-- The two upper-case hexadecimal digits of a byte. -/
def upperByte (byte : UInt8) : List Char :=
  [upperDigit (byte.toNat / 16), upperDigit (byte.toNat % 16)]

/-- The two lower-case hexadecimal digits of a byte. -/
def lowerByte (byte : UInt8) : List Char :=
  [lowerDigit (byte.toNat / 16), lowerDigit (byte.toNat % 16)]

end Telemetry.Text
