import Telemetry.Envelope.Basic
import Telemetry.Frame.Reading

/-!
# Uplinks

What a gateway hands on: an envelope, and behind it, where the receiver measures, two bytes about the
radio signal. An uplink is read by opening the envelope and reading the frame inside; a sink hears
nothing of an uplink whose envelope is refused.
-/

namespace Telemetry

/-- What the receiver measured. -/
structure RadioMetrics where
  /-- The signal strength in decibels relative to one milliwatt. -/
  rssi : Int
  /-- The ratio of signal to noise in quarters of a decibel. -/
  snrQuarters : Int
deriving DecidableEq, Repr

namespace RadioMetrics

/-- The metrics of the two bytes: a strength without its minus sign, and a signed ratio. -/
def ofBytes (rssi snr : UInt8) : RadioMetrics where
  rssi := -(rssi.toNat : Int)
  snrQuarters := snr.toInt8.toInt

/-- The ratio of signal to noise in decibels. -/
def snr (metrics : RadioMetrics) : Binary64 :=
  Binary64.ofInt metrics.snrQuarters / Binary64.ofInt 4

def describe (metrics : RadioMetrics) : String :=
  s!"RadioMetrics \x7b rssi: {metrics.rssi}, snr: " ++ NumberStyle.exchange.render metrics.snr ++ " \x7d"

/-- Take the metrics off the end of what was received. -/
def split? (raw : List UInt8) : Option (List UInt8 × RadioMetrics) :=
  if raw.length < 2 then none
  else
    let size := raw.length - 2
    some (raw.take size, ofBytes (raw.getD size 0) (raw.getD (size + 1) 0))

end RadioMetrics

/-- How the uplinks of a device are read. -/
structure UplinkReader where
  key : EnvelopeKey
  framing : Framing
  radioMetrics : Bool

/-- An uplink that has been read. -/
structure Uplink where
  opened : OpenedEnvelope
  radio : Option RadioMetrics
  frame : FrameReading

namespace UplinkReader

/-- The envelope and the radio metrics of what was received. -/
def split (reader : UplinkReader) (raw : List UInt8) :
    Except EnvelopeError (List UInt8 × Option RadioMetrics) :=
  if reader.radioMetrics then
    match RadioMetrics.split? raw with
    | some (envelope, radio) => .ok (envelope, some radio)
    | none => .error (.invalidLength raw.length)
  else .ok (raw, none)

/-- Read an uplink into a sink. -/
def read (reader : UplinkReader) (sink : Sink) (raw : List UInt8) : Except EnvelopeError Uplink :=
  match reader.split raw with
  | .error error => .error error
  | .ok (envelope, radio) =>
    match Envelope.revealWith reader.key envelope with
    | .error error => .error error
    | .ok opened =>
      .ok { opened := opened, radio := radio, frame := Frame.read reader.framing sink opened.payload }

def journal (reader : UplinkReader) (sink : Sink) (raw : List UInt8) : Journal :=
  match reader.split raw with
  | .error _ => []
  | .ok (envelope, radio) =>
    Envelope.decryptJournal reader.key envelope ++
    match reader.read sink raw with
    | .error _ => []
    | .ok uplink =>
      let signal := match radio with
        | none => "None"
        | some radio => "Some(" ++ radio.describe ++ ")"
      [⟨.debug,
        "Uplink from " ++ Address.render uplink.opened.address ++
          s!" (nonce={uplink.opened.nonce}, {uplink.opened.payload.length} payload bytes, radio {signal})"⟩] ++
      uplink.frame.journal

end UplinkReader

end Telemetry
