import Telemetry.Text.Blank
import Telemetry.Text.Digits
import Telemetry.Text.Quoted

/-!
# Hexadecimal text

Keys, addresses and frames are handed around as hexadecimal text. Strict reading (`Hex.decode`)
ignores white space and refuses anything else that is no digit; lenient reading
(`Hex.decodeLenient`) ignores every character that is no digit. Both need a positive even number of
digits and take either letter case. Lengths and positions are counted in UTF-8 bytes of the text
without its white space.
-/

namespace Telemetry

/-- Why a text is no hexadecimal run of bytes. -/
inductive HexError where
  /-- The text holds an odd number of bytes besides white space. -/
  | oddLength (length : Nat)
  /-- The text holds nothing. -/
  | empty
  /-- The text holds another number of bytes than asked for. -/
  | wrongLength (expected actual : Nat)
  /-- The byte at this position is no digit. -/
  | invalidDigit (byte : UInt8) (position : Nat)
deriving DecidableEq, Repr

/-- The reason in words. -/
def HexError.message : HexError → String
  | .oddLength length => s!"Odd number of hex characters: {length}"
  | .empty => "Empty hex string"
  | .wrongLength expected actual => s!"Expected {expected} bytes, got {actual}"
  | .invalidDigit byte position =>
    "Hex decoding error: Invalid character " ++ Text.quotedChar (Char.ofNat byte.toNat) ++
      s!" at position {position}"

namespace Hex

/-- Bytes as upper-case digits. -/
def encodeUpper (bytes : List UInt8) : String :=
  String.ofList (bytes.flatMap Text.upperByte)

/-- Bytes as lower-case digits, a space between two bytes. -/
def encodeSpaced (bytes : List UInt8) : String :=
  String.ofList ((bytes.map Text.lowerByte).intersperse [' ']).flatten

/-- The bytes that pairs of digits stand for; the first byte that is no digit is the error. -/
def decodePairs : (position : Nat) → List UInt8 → Except HexError (List UInt8)
  | position, high :: low :: rest =>
    match Text.hexDigit? (Char.ofNat high.toNat) with
    | none => .error (.invalidDigit high position)
    | some highDigit =>
      match Text.hexDigit? (Char.ofNat low.toNat) with
      | none => .error (.invalidDigit low (position + 1))
      | some lowDigit =>
        (decodePairs (position + 2) rest).map (UInt8.ofNat (16 * highDigit + lowDigit) :: ·)
  | _, _ => .ok []

/-- Read text that holds digits only: not empty, of even length, every byte a digit. -/
def decodeDigits (text : List Char) : Except HexError (List UInt8) :=
  let bytes := text.flatMap String.utf8EncodeChar
  if bytes.isEmpty then .error .empty
  else if bytes.length % 2 = 1 then .error (.oddLength bytes.length)
  else decodePairs 0 bytes

/-- Read hexadecimal text in which white space may stand anywhere. -/
def decode (text : String) : Except HexError (List UInt8) :=
  decodeDigits (text.toList.filter fun c => !Text.isBlank c)

/-- Read the digits of a text, whatever stands between them. -/
def decodeLenient (text : String) : Except HexError (List UInt8) :=
  decode (String.ofList (text.toList.filter fun c => (Text.hexDigit? c).isSome))

/-- Read hexadecimal text that must hold exactly `size` bytes. -/
def decodeExactly (size : Nat) (text : String) : Except HexError (Vector UInt8 size) :=
  match decode text with
  | .error error => .error error
  | .ok bytes =>
    if fits : bytes.length = size then .ok ⟨bytes.toArray, by simpa using fits⟩
    else .error (.wrongLength size bytes.length)

end Hex

end Telemetry
