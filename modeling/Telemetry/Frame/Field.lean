import Telemetry.Bits.Stream
import Telemetry.Decimal.Style
import Telemetry.Point.Registry
import Telemetry.Point.Value
import Telemetry.Text.Quoted

/-!
# Fields on the wire

A field is an optional position of 8 bits, a key of 6 bits, and a body whose form its point decides:
the steps of a fixed-point range, the bits of a scalar, or an 8-bit length with that many 8-bit
characters. Writing checks the whole field first, so a refused field leaves the stream as it was.
Reading a body never fails for lack of bits; it fails for a key without a point and where the device
reports a fault of its own.
-/

namespace Telemetry

/-- Why a field cannot be written or read. -/
inductive FieldError where
  | invalidKey (key : UInt8)
  /-- The point is not read as this kind. -/
  | unsupportedTarget (label : String) (target : ScalarKind)
  /-- The device reports a fault with this code. -/
  | deviceFault (code : UInt8)
  /-- The scalar needs another number of bytes than the point offers. -/
  | widthMismatch (label : String) (expected actual : Nat)
  | wrongSort (label supplied : String)
  /-- The text has more characters than its length byte counts. -/
  | textTooLong (label : String) (length : Nat)
  /-- The text has a character that no byte holds. -/
  | notLatin1 (c : Char)
  | outOfRange (label : String) (value : Binary64)
deriving DecidableEq, Repr

def FieldError.message : FieldError → String
  | .invalidKey key => s!"Invalid field key: {key}"
  | .unsupportedTarget label target =>
    "Unsupported decode target " ++ target.label ++ s!" for field '{label}'"
  | .deviceFault code => s!"Device reported fault code {code}"
  | .widthMismatch label expected actual =>
    s!"Width mismatch for field '{label}': expected {expected} bytes, got {actual}"
  | .wrongSort label supplied => s!"Field '{label}' cannot carry a {supplied} value"
  | .textTooLong label length => s!"Text too long for field '{label}': {length} bytes (max 255)"
  | .notLatin1 c => "Character " ++ Text.quotedChar c ++ " is outside Latin-1"
  | .outOfRange label value =>
    "Value " ++ NumberStyle.prose.render value ++ s!" does not fit field '{label}'"

namespace Field

def keyBits : Nat := 6

def positionBits : Nat := 8

def lengthBits : Nat := 8

/-- The bits in front of a body. -/
def headerBits (positional : Bool) : Nat :=
  keyBits + (if positional then positionBits else 0)

/-! ## Writing -/

/-- A body as numbers, each with its count of bits. -/
abbrev Body := List (Nat × Nat)

def textBody (label text : String) : Except FieldError Body :=
  match text.toList.find? fun c => !Scalar.isLatin1 c with
  | some c => .error (.notLatin1 c)
  | none =>
    if 255 < text.length then .error (.textTooLong label text.length)
    else .ok ((text.length, lengthBits) :: text.toList.map fun c => (c.toNat, 8))

/-- The body that carries a value for a point. -/
def body (point : Descriptor) (value : Value) : Except FieldError Body :=
  match point.encoding, value with
  | .unassigned, _ => .error (.invalidKey point.key)
  | .fixedPoint range, .number x => .ok [(range.quantize range.width x, range.width)]
  | .fixedPoint range, .scalar s => .ok [(range.quantize range.width s.toBinary64, range.width)]
  | .raw kind, .scalar s =>
    if s.byteWidth = kind.byteWidth then .ok [(s.toBits, kind.bitWidth)]
    else .error (.widthMismatch point.label kind.byteWidth s.byteWidth)
  | .raw kind, .number x =>
    match Scalar.ofBinary64? kind x with
    | some s => .ok [(s.toBits, kind.bitWidth)]
    | none => .error (.outOfRange point.label x)
  | .text, .text t => textBody point.label t
  | _, value => .error (.wrongSort point.label value.sort)

/-- What stands in front of a body, in a stream of its own: a position if there is one, and a key. -/
def headerStream (key : UInt8) (position : Option UInt8) : BitStream :=
  let positioned := match position with
    | some position => BitStream.empty.writeUInt position.toNat positionBits
    | none => .empty
  positioned.writeUInt key.toNat keyBits

/-- Append what stands in front of a body as one run of bits. -/
def writeHeader (s : BitStream) (key : UInt8) (position : Option UInt8) : BitStream :=
  s.writeBits (headerStream key position).bytes (headerBits position.isSome)

def writeBody (s : BitStream) (body : Body) : BitStream :=
  body.foldl (fun s (value, count) => s.writeUInt value count) s

/-- Append a field, with its position if it has one. -/
def write (s : BitStream) (value : Value) (key : UInt8) (position : Option UInt8) :
    Except FieldError BitStream :=
  (body (Registry.lookup key) value).map (writeBody (writeHeader s key position))

/-! ## Reading -/

/-- Read so many characters of a byte each. -/
def readChars : (count : Nat) → BitStream → List Char × BitStream
  | 0, s => ([], s)
  | count + 1, s =>
    let (byte, s) := s.readUInt 8
    let (rest, s) := readChars count s
    (Char.ofNat byte :: rest, s)

/-- Read the body of a point with the given encoding; nothing is read for a key without one. -/
def readValue? (s : BitStream) : Encoding → Option (Value × BitStream)
  | .unassigned => none
  | .fixedPoint range =>
    let (steps, s) := s.readUInt range.width
    some (.number (range.dequantize steps), s)
  | .raw kind =>
    let (bits, s) := s.readUInt kind.bitWidth
    some (.scalar (Scalar.ofBits kind bits), s)
  | .text =>
    let (length, s) := s.readUInt lengthBits
    let (chars, s) := readChars length s
    some (.text (String.ofList chars), s)

/-- The fault code that a value reports under the key for faults. -/
def faultCode? (key : UInt8) : Value → Option UInt8
  | .scalar (.uint8 code) => if key = Registry.faultKey ∧ code ≠ 0 then some code else none
  | _ => none

/-- Read the body of a field whose key has been read. -/
def read (s : BitStream) (key : UInt8) : Except FieldError Value × BitStream :=
  match readValue? s (Registry.lookup key).encoding with
  | none => (.error (.invalidKey key), s)
  | some (value, s) =>
    match faultCode? key value with
    | some code => (.error (.deviceFault code), s)
    | none => (.ok value, s)

/-- A point with this encoding is read as this kind: fixed points as numbers, scalars as they are. -/
def supports : Encoding → ScalarKind → Bool
  | .fixedPoint _, target => target = .binary32 || target = .binary64
  | .raw kind, target => kind = target
  | _, _ => false

/-- Read the body of a field as a scalar of a chosen kind; nothing is read if the point refuses it. -/
def readAs (s : BitStream) (key : UInt8) (target : ScalarKind) : Except FieldError Scalar × BitStream :=
  let point := Registry.lookup key
  if !point.isAssigned then (.error (.invalidKey key), s)
  else if !supports point.encoding target then (.error (.unsupportedTarget point.label target), s)
  else
    match read s key with
    | (.error error, s) => (.error error, s)
    | (.ok (.number x), s) =>
      match Scalar.ofBinary64? target x with
      | some scalar => (.ok scalar, s)
      | none => (.error (.outOfRange point.label x), s)
    | (.ok (.scalar scalar), s) => (.ok scalar, s)
    | (.ok (.text _), s) => (.error (.unsupportedTarget point.label target), s)

/-! ## The cursor -/

theorem le_cursor_readChars (count : Nat) (s : BitStream) :
    s.cursor ≤ (readChars count s).2.cursor := by
  induction count generalizing s with
  | zero => exact Nat.le_refl _
  | succ count ih => exact Nat.le_trans (Nat.le_add_right _ _) (ih (s.readUInt 8).2)

theorem bytes_readChars (count : Nat) (s : BitStream) :
    (readChars count s).2.bytes = s.bytes := by
  induction count generalizing s with
  | zero => rfl
  | succ count ih => exact (ih (s.readUInt 8).2).trans rfl

theorem readValue?_rest {s rest : BitStream} {encoding : Encoding} {value : Value}
    (h : readValue? s encoding = some (value, rest)) :
    s.cursor ≤ rest.cursor ∧ rest.bytes = s.bytes := by
  cases encoding with
  | unassigned => cases h
  | fixedPoint range => cases h; exact ⟨Nat.le_add_right _ _, rfl⟩
  | raw kind => cases h; exact ⟨Nat.le_add_right _ _, rfl⟩
  | text =>
    cases h
    exact ⟨Nat.le_trans (Nat.le_add_right _ _) (le_cursor_readChars _ (s.readUInt lengthBits).2),
      (bytes_readChars _ (s.readUInt lengthBits).2).trans rfl⟩

/-- Reading a body moves the cursor forward, if at all, and leaves the buffer alone. -/
theorem read_rest (s : BitStream) (key : UInt8) :
    s.cursor ≤ (read s key).2.cursor ∧ (read s key).2.bytes = s.bytes := by
  unfold read
  split
  · exact ⟨Nat.le_refl _, rfl⟩
  · rename_i value rest h
    split <;> exact readValue?_rest h

end Field

end Telemetry
