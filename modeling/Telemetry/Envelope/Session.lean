import Telemetry.Envelope.Basic

/-!
# Sessions

A session numbers the envelopes it seals with a nonce that counts up and wraps around after 255. Only
an envelope that is sealed uses up a nonce; a refused one leaves the session as it was.
-/

namespace Telemetry

/-- The sealing side of a link. -/
structure Session where
  /-- The nonce of the next envelope. -/
  nextNonce : UInt8
deriving DecidableEq, Repr

namespace Session

/-- A session that starts from zero. -/
def fresh : Session := ⟨0⟩

/-- Seal a payload for an address. -/
def sealTo (session : Session) (key : EnvelopeKey) (address : Address) (options : UInt8)
    (payload : List UInt8) : Except EnvelopeError (List UInt8) × Session :=
  if 255 < payload.length then (.error (.payloadTooLong payload.length), session)
  else
    (.ok (Envelope.sealWith key address options session.nextNonce payload),
      ⟨session.nextNonce + 1⟩)

/-- Seal a payload with a key and an address that have yet to be checked, the key first. -/
def encrypt (session : Session) (key : List UInt8) (address : String) (options : UInt8)
    (payload : List UInt8) : Except EnvelopeError (List UInt8) × Session :=
  match EnvelopeKey.ofBytes key with
  | .error error => (.error error, session)
  | .ok key =>
    match Address.parse address with
    | .error error => (.error error, session)
    | .ok address => session.sealTo key address options payload

/-- The events of a payload having been sealed in this session; of a refused one nothing is told. -/
def journal (session : Session) (options : UInt8) (payload : List UInt8) :
    Except EnvelopeError (List UInt8) → Journal
  | .ok envelope => Envelope.sealJournal options session.nextNonce payload envelope
  | .error _ => []

end Session

end Telemetry
