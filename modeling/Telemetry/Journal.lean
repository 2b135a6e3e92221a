import Telemetry.Hex

/-!
# Journal

What happened along the way is told by events with a severity. Operations do not write events; a
journal is computed from what an operation was given and what it answered. `Throttle` limits how
often a repeated event is told within a window of time.
-/

namespace Telemetry

/-- How severe an event is, the most severe first. -/
inductive Severity where
  | error
  | warn
  | info
  | debug
  | trace
deriving DecidableEq, Repr

namespace Severity

def rank : Severity → Nat
  | .error => 0
  | .warn => 1
  | .info => 2
  | .debug => 3
  | .trace => 4

def label : Severity → String
  | .error => "ERROR"
  | .warn => "WARN"
  | .info => "INFO"
  | .debug => "DEBUG"
  | .trace => "TRACE"

end Severity

/-- Something worth telling. -/
structure Event where
  severity : Severity
  message : String
deriving DecidableEq, Repr

/-- Events in the order they happened. -/
abbrev Journal := List Event

namespace Journal

/-- The events at least as severe as a threshold; without one, none. -/
def upTo (threshold : Option Severity) (journal : Journal) : Journal :=
  match threshold with
  | none => []
  | some least => journal.filter fun event => event.severity.rank ≤ least.rank

end Journal

namespace Event

/-- At most this many bytes of a frame are shown. -/
def shownBytes : Nat := 64

/-- A frame in hexadecimal behind a heading, cut where it grows long. -/
def frameDump (heading : String) (bytes : List UInt8) : Event where
  severity := .debug
  message :=
    heading ++ ": " ++ Hex.encodeSpaced (bytes.take shownBytes) ++
      (if shownBytes < bytes.length then s!" ... ({bytes.length} bytes total)" else "")

end Event

/-- A limit on how many events are told in each window of time. -/
structure Throttle where
  /-- The length of a window in milliseconds. -/
  window : Nat
  /-- How many events a window may tell. -/
  cap : Nat
  /-- How many events this window has seen. -/
  count : Nat
  /-- When this window began, in milliseconds. -/
  start : Nat

namespace Throttle

/-- A throttle whose first window begins now. -/
def opening (window cap now : Nat) : Throttle where
  window := window
  cap := cap
  count := 0
  start := now

/-- The greatest number of events that is counted. -/
def maxCount : Nat := 4294967295

/-- Whether an event at this time is told. Once a window has passed, another begins. -/
def allow (t : Throttle) (now : Nat) : Bool × Throttle :=
  let current := if t.window < now - t.start then { t with count := 0, start := now } else t
  let count := min (current.count + 1) maxCount
  (count ≤ t.cap, { current with count := count })

end Throttle

end Telemetry
