import Telemetry.Config
import Telemetry.Frame.Draft

/-!
# Faults

The errors of all layers as one type, and the two operations that cross layers: writing a frame and
sealing it, and opening an envelope and reading the frame inside.
-/

namespace Telemetry

/-- An error of one of the layers. -/
inductive Fault where
  | field (error : FieldError)
  | envelope (error : EnvelopeError)
  | droplet (error : DropletError)
  | config (error : ConfigError)
  | hex (error : HexError)
deriving DecidableEq, Repr

namespace Fault

def message : Fault → String
  | .field error => "Codec error: " ++ error.message
  | .envelope error => "Envelope error: " ++ error.message
  | .droplet error => "Legacy frame error: " ++ error.message
  | .config error => "Configuration error: " ++ error.message
  | .hex error => "Hex error: " ++ error.message

/-- The tag of an envelope was wrong, so that nothing of it may be used. -/
def isAuthenticationFailure : Fault → Bool
  | .envelope .authentication => true
  | _ => false

end Fault

/-- Write a frame and seal it; the frame is checked before the key and the address. -/
def Session.encodeAndSeal (session : Session) (key : List UInt8) (address : String) (options : UInt8)
    (header : FrameHeader) (fields : List FieldWrite) : Except Fault (List UInt8) × Session :=
  match encodeFrame header fields with
  | .error error => (.error (.field error), session)
  | .ok payload =>
    let (result, session) := session.encrypt key address options payload
    (result.mapError .envelope, session)

/-- The events of a frame having been written and sealed. -/
def Session.encodeAndSealJournal (session : Session) (key : List UInt8) (address : String)
    (options : UInt8) (header : FrameHeader) (fields : List FieldWrite) : Journal :=
  match encodeFrame header fields with
  | .ok payload => session.journal options payload (session.encrypt key address options payload).1
  | .error _ => []

/-- Open an envelope and read the frame inside. -/
def openAndDecode (key envelope : List UInt8) : Except Fault FrameReading :=
  match Envelope.reveal key envelope with
  | .ok opened => .ok (decodeFrame .fromFlags opened.payload)
  | .error error => .error (.envelope error)

/-- The events of an envelope being opened and the frame inside being read. -/
def openAndDecodeJournal (key envelope : List UInt8) : Journal :=
  Envelope.decryptJournalOf key envelope ++
    match openAndDecode key envelope with
    | .ok frame => frame.journal
    | .error _ => []

end Telemetry
