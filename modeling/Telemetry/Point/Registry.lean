import Telemetry.Point.FixedPoint
import Telemetry.Point.Scalar

/-!
# The registry of points

Every field of a frame names its point by a key. The registry says for each assigned key what the
point is called and how its value is written. Key 0 marks the end of a frame, and the keys above the
last entry are unassigned; all of these resolve to one blank descriptor.
-/

namespace Telemetry

/-- How the value of a point is written. -/
inductive Encoding where
  | unassigned
  /-- As steps of a fixed-point range. -/
  | fixedPoint (range : FixedPoint)
  | raw (kind : ScalarKind)
  /-- As a length and that many characters. -/
  | text
deriving DecidableEq, Repr

/-- A point: its key, its label and how its value is written. -/
structure Descriptor where
  key : UInt8
  label : String
  encoding : Encoding
deriving DecidableEq, Repr

namespace Descriptor

/-- What every unassigned key resolves to. -/
def blank : Descriptor := ⟨0, "", .unassigned⟩

def isAssigned (d : Descriptor) : Bool :=
  d.encoding ≠ .unassigned

/-- How many bits a value takes, unless that depends on the value. -/
def bitCount? (d : Descriptor) : Option Nat :=
  match d.encoding with
  | .unassigned => some 0
  | .fixedPoint range => some range.width
  | .raw kind => some kind.bitWidth
  | .text => none

/-- A point with a fixed-point range between whole bounds. -/
def fixed (key : UInt8) (label : String) (low high : Int) (decimals : UInt8) : Descriptor :=
  ⟨key, label, .fixedPoint ⟨Binary64.ofInt low, Binary64.ofInt high, decimals⟩⟩

/-- A point whose scalar is written bit for bit. -/
def raw (key : UInt8) (label : String) (kind : ScalarKind) : Descriptor :=
  ⟨key, label, .raw kind⟩

end Descriptor

namespace Registry

def endKey : UInt8 := 0

/-- The key under which a device reports a fault of its own. -/
def faultKey : UInt8 := 43

/-- The assigned points in the order of their keys. -/
def points : List Descriptor :=
  [.fixed 1 "temp" (-45) 120 2,
   .fixed 2 "rh" 0 100 2,
   .fixed 3 "lux" 0 65535 0,
   .raw 4 "movement" .bool,
   .raw 5 "counter" .uint32,
   .raw 6 "digital" .bool,
   .fixed 7 "voltage_0_10" 0 10 3,
   .fixed 8 "current_4_20" 4 20 3,
   .fixed 9 "ohm" 0 1000000 0,
   .fixed 10 "co2" 0 5000 0,
   .fixed 11 "battery_voltage" 0 5 2,
   .raw 12 "push_frequency" .uint16,
   .fixed 13 "raw" 0 1023 0,
   .fixed 14 "uo" 0 100 1,
   .fixed 15 "ui" 0 100 1,
   .raw 16 "do" .bool,
   .raw 17 "di" .bool,
   .raw 18 "firmware_version" .uint8,
   .raw 19 "hardware_version" .uint8,
   .raw 20 "int8" .int8,
   .raw 21 "uint8" .uint8,
   .raw 22 "int16" .int16,
   .raw 23 "uint16" .uint16,
   .raw 24 "int32" .int32,
   .raw 25 "uint32" .uint32,
   .raw 26 "int64" .int64,
   .raw 27 "uint64" .uint64,
   .raw 28 "bool" .bool,
   .raw 29 "char" .char,
   .raw 30 "float" .binary32,
   .raw 31 "double" .binary64,
   ⟨32, "string", .text⟩,
   .fixed 33 "pressure" 300 1100 1,
   .fixed 34 "voltage" 0 50 2,
   .fixed 35 "current" 0 100 3,
   .fixed 36 "power" 0 100000 1,
   .raw 37 "energy" .uint32,
   .fixed 38 "flow" 0 1000 2,
   .fixed 39 "percentage" 0 100 1,
   .fixed 40 "sound_level" 0 150 1,
   .fixed 41 "voc" 0 60000 0,
   .fixed 42 "rssi" (-150) 0 0,
   .raw 43 "error" .uint8]

/-- The point of a key, blank for a key without one. -/
def lookup (key : UInt8) : Descriptor :=
  (points.find? fun d => d.key = key).getD .blank

def lookupLabel? (label : String) : Option Descriptor :=
  points.find? fun d => d.label = label

end Registry

end Telemetry
