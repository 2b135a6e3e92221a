import Telemetry.Aes.Mac
import Telemetry.Hex

/-!
# Keys, addresses and what can be wrong with an envelope
-/

namespace Telemetry

/-- Why a key is refused. -/
inductive KeyFault where
  /-- Another number of bytes than a key has. -/
  | length (actual : Nat)
  | hex (error : HexError)
deriving DecidableEq, Repr

def KeyFault.message : KeyFault → String
  | .length actual => s!"expected 16 bytes, got {actual}"
  | .hex error => error.message

/-- Why an envelope cannot be sealed or opened. -/
inductive EnvelopeError where
  | invalidKey (fault : KeyFault)
  | invalidAddress (error : HexError)
  /-- The tag does not belong to the envelope under this key. -/
  | authentication
  /-- No envelope has so many bytes. -/
  | invalidLength (actual : Nat)
  /-- The length byte does not count so many payload bytes. -/
  | payloadTooLong (length : Nat)
  /-- The length byte declares more payload bytes than there are. -/
  | lengthMismatch (declared available : Nat)
deriving DecidableEq, Repr

def EnvelopeError.message : EnvelopeError → String
  | .invalidKey fault => "Invalid AES key: " ++ fault.message
  | .invalidAddress error => "Invalid device address: " ++ error.message
  | .authentication => "incorrect CMAC or Key"
  | .invalidLength actual => s!"Invalid envelope length: {actual} bytes"
  | .payloadTooLong length => s!"Payload too long: {length} bytes, at most 255 fit the length byte"
  | .lengthMismatch declared available =>
    s!"Length byte declares {declared} payload bytes, only {available} decrypted"

/-- The four bytes that name a device. -/
abbrev Address := Vector UInt8 4

/-- Four bytes that authenticate an envelope. -/
abbrev Tag := Vector UInt8 4

namespace Address

def parse (text : String) : Except EnvelopeError Address :=
  (Hex.decodeExactly 4 text).mapError .invalidAddress

def render (address : Address) : String :=
  Hex.encodeUpper address.toList

end Address

/-- The key that a device shares with its gateway. -/
structure EnvelopeKey where
  block : Aes.Block
deriving DecidableEq

namespace EnvelopeKey

/-- A key of exactly sixteen bytes. -/
def ofBytes (bytes : List UInt8) : Except EnvelopeError EnvelopeKey :=
  if bytes.length = 16 then .ok ⟨Aes.Block.ofBytes bytes⟩
  else .error (.invalidKey (.length bytes.length))

def parse (text : String) : Except EnvelopeError EnvelopeKey :=
  match Hex.decodeExactly 16 text with
  | .ok block => .ok ⟨block⟩
  | .error error => .error (.invalidKey (.hex error))

def bytes (key : EnvelopeKey) : List UInt8 :=
  key.block.toList

/-- What is shown of a key: nothing. -/
def masked : EnvelopeKey → String := fun _ => "EnvelopeKey(..)"

def cipher (key : EnvelopeKey) : Aes.Cipher :=
  .ofKey key.block

end EnvelopeKey

end Telemetry
