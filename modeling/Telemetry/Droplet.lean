import Telemetry.Uplink

/-!
# Droplet sensors

Older sensors send their measurements in the clear, at fixed places of a frame. Three models differ
in what they measure. Anything between the last measurement and the radio metrics, which are the last
two bytes, is ignored.
-/

namespace Telemetry

/-- The models of sensor. -/
inductive DropletModel where
  /-- Temperature, humidity and pressure. -/
  | th
  /-- Light as well. -/
  | thl
  /-- Light and motion as well. -/
  | thlm
deriving DecidableEq, Repr

/-- Why a frame of a sensor cannot be read. -/
inductive DropletError where
  | invalidHex (error : HexError)
  | tooShort (expected actual : Nat)
  | unknownModel (name : String)
deriving DecidableEq, Repr

def DropletError.message : DropletError → String
  | .invalidHex error => "Invalid hex payload: " ++ error.message
  | .tooShort expected actual => s!"Frame too short: need {expected} bytes, got {actual}"
  | .unknownModel name => "Unknown device model: " ++ name

namespace DropletModel

def name : DropletModel → String
  | .th => "TH"
  | .thl => "THL"
  | .thlm => "THLM"

def ofName? : String → Option DropletModel
  | "TH" => some .th
  | "THL" => some .thl
  | "THLM" => some .thlm
  | _ => none

/-- The model with this name in any case of its ASCII letters. -/
def parse (text : String) : Except DropletError DropletModel :=
  match ofName? (String.ofList (text.toList.map Char.toUpper)) with
  | some model => .ok model
  | none => .error (.unknownModel text)

def hasLight : DropletModel → Bool
  | .th => false
  | .thl | .thlm => true

def hasMotion : DropletModel → Bool
  | .th | .thl => false
  | .thlm => true

end DropletModel

/-- A measurement with its name. -/
structure Measurement where
  label : String
  value : Binary64
deriving DecidableEq, Repr

/-- What a sensor sent. -/
structure DropletFrame where
  address : Address
  measurements : List Measurement
  radio : RadioMetrics
deriving DecidableEq

namespace DropletFrame

/-- The bytes of a frame that are measurements or name the sensor. -/
def bodyLength : Nat := 13

/-- The least number of bytes of a frame: the body and the radio metrics. -/
def minLength : Nat := bodyLength + 2

/-- The quotient by a whole number, rounded to two decimals. -/
def hundredths (value divisor : Int) : Binary64 :=
  (Binary64.ofInt value / Binary64.ofInt divisor * Binary64.ofNat 100).roundHalfAway / Binary64.ofNat 100

/-- The number in the two bytes from a position on, the less significant first. -/
def word (bytes : List UInt8) (start : Nat) : Nat :=
  (bytes.getD start 0).toNat + 256 * (bytes.getD (start + 1) 0).toNat

/-- The measurements of a model, in the order in which they are reported. -/
def measure (model : DropletModel) (bytes : List UInt8) : List Measurement :=
  [⟨"temperature", hundredths (Int.bmod (word bytes 4) 65536) 100⟩,
   ⟨"humidity", Binary64.ofNat ((bytes.getD 8 0).toNat % 128)⟩,
   ⟨"pressure", hundredths (word bytes 6) 10⟩,
   ⟨"voltage", hundredths (bytes.getD 11 0).toNat 50⟩] ++
  (if model.hasLight then [⟨"light", Binary64.ofNat (word bytes 9)⟩] else []) ++
  (if model.hasMotion then [⟨"motion", Binary64.ofNat (if bytes.getD 12 0 = 0 then 0 else 1)⟩] else [])

/-- Read the frame of a model. -/
def decode (model : DropletModel) (bytes : List UInt8) : Except DropletError DropletFrame :=
  if bytes.length < minLength then .error (.tooShort minLength bytes.length)
  else
    .ok
      { address := OpenedEnvelope.four bytes 0
        measurements := measure model bytes
        radio := .ofBytes (bytes.getD (bytes.length - 2) 0) (bytes.getD (bytes.length - 1) 0) }

/-- Read the frame of a model from hexadecimal text with anything between the digits. -/
def parse (model : DropletModel) (text : String) : Except DropletError DropletFrame :=
  match Hex.decodeLenient text with
  | .error error => .error (.invalidHex error)
  | .ok bytes => decode model bytes

def get? (frame : DropletFrame) (label : String) : Option Binary64 :=
  (frame.measurements.find? fun m => m.label = label).map Measurement.value

def journal (model : DropletModel) (bytes : List UInt8) : Journal :=
  match decode model bytes with
  | .error _ => []
  | .ok frame =>
    (if bytes.length = minLength then []
     else [⟨.trace, s!"Droplet frame carries {bytes.length - minLength} unused bytes"⟩]) ++
    [⟨.debug,
      "Droplet " ++ model.name ++ " frame from " ++ Address.render frame.address ++
        s!": {frame.measurements.length} readings"⟩]

end DropletFrame

end Telemetry
