import Telemetry.Aes.Chaining
import Telemetry.Envelope.Key
import Telemetry.Journal

/-!
# Envelopes

A payload travels as an address in the clear, a ciphertext and a tag. The ciphertext holds an options
byte, a nonce, the length of the payload and the payload, filled up with zeros to whole blocks. The
tag covers the address and the ciphertext, the bytes from the fourth to the sixteenth twice
(`Envelope.macInput`). Opening authenticates before it decrypts.
-/

namespace Telemetry

namespace Envelope

/-- What the tag of an envelope is computed from. -/
def macInput (body : List UInt8) : List UInt8 :=
  body.take 16 ++ body.drop 4

/-- The tag of the part of an envelope before its tag. -/
def tag (key : EnvelopeKey) (body : List UInt8) : Tag :=
  (key.cipher.mac (macInput body)).take 4

/-- What is encrypted: options, nonce, length and payload. -/
def content (options nonce : UInt8) (payload : List UInt8) : List UInt8 :=
  options :: nonce :: UInt8.ofNat payload.length :: payload

/-- The envelope with a given nonce. The length byte has to count the payload. -/
def sealWith (key : EnvelopeKey) (address : Address) (options nonce : UInt8) (payload : List UInt8) :
    List UInt8 :=
  let body := address.toList ++ key.cipher.encryptBytes (content options nonce payload)
  body ++ (tag key body).toList

/-- An envelope may have so many bytes: address, tag and at least one block. -/
def isLength (length : Nat) : Bool :=
  24 ≤ length && (length - 8) % 16 = 0

/-- The address, the decrypted blocks and the tag of an envelope whose tag is right. -/
def decryptWith (key : EnvelopeKey) (envelope : List UInt8) : Except EnvelopeError (List UInt8) :=
  if !isLength envelope.length then .error (.invalidLength envelope.length)
  else
    let body := envelope.take (envelope.length - 4)
    let received := envelope.drop (envelope.length - 4)
    if (tag key body).toList ≠ received then .error .authentication
    else .ok (body.take 4 ++ key.cipher.decryptBytes (body.drop 4) ++ received)

/-- The same for a key that may have the wrong length. -/
def decrypt (key envelope : List UInt8) : Except EnvelopeError (List UInt8) :=
  match EnvelopeKey.ofBytes key with
  | .error error => .error error
  | .ok key => decryptWith key envelope

end Envelope

/-- The parts of an envelope that has been decrypted. -/
structure OpenedEnvelope where
  address : Address
  options : UInt8
  nonce : UInt8
  payload : List UInt8
  tag : Tag
deriving DecidableEq

namespace OpenedEnvelope

/-- The four bytes of a run from a position on. -/
def four (bytes : List UInt8) (start : Nat) : Vector UInt8 4 :=
  Vector.ofFn fun i => bytes.getD (start + i.val) 0

def parse (bytes : List UInt8) : Except EnvelopeError OpenedEnvelope :=
  if bytes.length < 11 then .error (.invalidLength bytes.length)
  else
    let declared := (bytes.getD 6 0).toNat
    let available := bytes.length - 11
    if available < declared then .error (.lengthMismatch declared available)
    else
      .ok
        { address := four bytes 0
          options := bytes.getD 4 0
          nonce := bytes.getD 5 0
          payload := (bytes.drop 7).take declared
          tag := four bytes (bytes.length - 4) }

end OpenedEnvelope

namespace Envelope

/-- Authenticate, decrypt and take apart an envelope. -/
def revealWith (key : EnvelopeKey) (envelope : List UInt8) : Except EnvelopeError OpenedEnvelope :=
  match decryptWith key envelope with
  | .error error => .error error
  | .ok bytes => OpenedEnvelope.parse bytes

/-- The same for a key that may have the wrong length. -/
def reveal (key envelope : List UInt8) : Except EnvelopeError OpenedEnvelope :=
  match decrypt key envelope with
  | .error error => .error error
  | .ok bytes => OpenedEnvelope.parse bytes

/-! ## What is told of envelopes -/

def decryptJournal (key : EnvelopeKey) (envelope : List UInt8) : Journal :=
  .frameDump "Received envelope" envelope ::
    match decryptWith key envelope with
    | .error .authentication =>
      [⟨.warn, "CMAC mismatch for envelope from " ++ Hex.encodeUpper (envelope.take 4)⟩]
    | _ => []

/-- The same for a key that may have the wrong length, of which nothing is told. -/
def decryptJournalOf (key envelope : List UInt8) : Journal :=
  match EnvelopeKey.ofBytes key with
  | .ok key => decryptJournal key envelope
  | .error _ => []

def sealJournal (options nonce : UInt8) (payload envelope : List UInt8) : Journal :=
  [⟨.debug,
    "Sealed envelope for " ++ Hex.encodeUpper (envelope.take 4) ++ " (opts=0x" ++
      String.ofList (Text.upperByte options) ++ s!", nonce={nonce}, {payload.length} payload bytes)"⟩,
   .frameDump "Sealed envelope" envelope]

end Envelope

end Telemetry
