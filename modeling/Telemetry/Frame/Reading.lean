import Telemetry.Frame.Field
import Telemetry.Frame.Header
import Telemetry.Journal

/-!
# Reading a frame

The fields of a frame are read one after the other and delivered as readings, each under the label
of its point and an index: the explicit position where fields carry one, and otherwise the count of
that point so far. A sink looks at everything delivered so far and may stop the reading after any
field. How a reading of a frame ended is always told (`FrameEnd`): a frame that is cut off in the
middle of a field still delivers that field, with zeros for the missing bits.
-/

namespace Telemetry

/-- A field as it is delivered. -/
structure Reading where
  /-- The label of the point and the index. -/
  name : String
  key : UInt8
  index : Nat
  /-- The value as a number; zero if there is an error. -/
  value : Binary64
  text : Option String
  error : Option FieldError
deriving DecidableEq, Repr

namespace Reading

def isOk (reading : Reading) : Bool :=
  reading.error.isNone

/-- The reading that comes of a field. -/
def ofResult (label : String) (key : UInt8) (index : Nat) (result : Except FieldError Value) : Reading where
  name := s!"{label}_{index}"
  key := key
  index := index
  value := match result with
    | .ok value => value.toBinary64
    | .error _ => Binary64.zero false
  text := match result with
    | .ok (.text text) => some text
    | _ => none
  error := match result with
    | .ok _ => none
    | .error error => some error

end Reading

inductive FrameEnd where
  /-- Too few bits are left for the header of another field. -/
  | exhausted (trailing : Nat)
  | endMarker
  | unknownKey (key : UInt8)
  | aborted
  /-- A read ran past the end of the frame, by so many bits. -/
  | truncated (missing : Nat)
deriving DecidableEq, Repr

namespace FrameEnd

def describe : FrameEnd → String
  | .exhausted trailing => s!"Exhausted \x7b trailing_bits: {trailing} \x7d"
  | .endMarker => "EndMarker"
  | .unknownKey key => s!"UnknownKey({key})"
  | .aborted => "Aborted"
  | .truncated missing => s!"Truncated \x7b missing_bits: {missing} \x7d"

/-- The frame ended on a boundary. -/
def isBoundary : FrameEnd → Bool
  | .exhausted _ | .endMarker => true
  | _ => false

end FrameEnd

/-- What a sink is handed. -/
inductive Delivery where
  /-- The header of a frame that carries a message identifier, before all fields. -/
  | messageId (header : FrameHeader)
  | field (reading : Reading)
deriving DecidableEq, Repr

namespace Delivery

/-- The field delivered, if it is one. -/
def reading? : Delivery → Option Reading
  | .messageId _ => none
  | .field reading => some reading

def readings (deliveries : List Delivery) : List Reading :=
  deliveries.filterMap reading?

end Delivery

/-- Whether reading goes on after a field. -/
inductive Verdict where
  | continue
  | stop
deriving DecidableEq, Repr

/-- A receiver of fields: after each one it judges by everything delivered so far. -/
abbrev Sink := List Delivery → Verdict

/-- The sink that never stops. -/
def Sink.collect : Sink := fun _ => .continue

/-- What is known of a frame once it has been read. -/
structure FrameSummary where
  header : FrameHeader
  fields : Nat
  errors : Nat
  ending : FrameEnd
deriving DecidableEq, Repr

namespace FrameSummary

/-- The frame ended on a boundary and no field has an error. -/
def isClean (summary : FrameSummary) : Bool :=
  summary.errors = 0 && summary.ending.isBoundary

end FrameSummary

/-- A frame that has been read: what was delivered, and how it went. -/
structure FrameReading where
  deliveries : List Delivery
  summary : FrameSummary
deriving DecidableEq, Repr

namespace FrameReading

def readings (r : FrameReading) : List Reading :=
  Delivery.readings r.deliveries

def header (r : FrameReading) : FrameHeader :=
  r.summary.header

def ending (r : FrameReading) : FrameEnd :=
  r.summary.ending

end FrameReading

namespace Frame

/-- How far the reading of a frame has come. -/
structure Progress where
  deliveries : List Delivery
  /-- How many fields of each key had no position. -/
  counts : Vector Nat 64
  fields : Nat
  errors : Nat

namespace Progress

/-- No field has been read. -/
def start (announced : List Delivery) : Progress where
  deliveries := announced
  counts := Vector.replicate 64 0
  fields := 0
  errors := 0

/-- How many fields of a key had no position. -/
def count (p : Progress) (key : UInt8) : Nat :=
  p.counts[key.toNat]?.getD 0

/-- The index of a field: its position, and without one its place among the fields of its key. -/
def index (p : Progress) (key : UInt8) : (position : Option Nat) → Nat × Progress
  | some position => (position, p)
  | none =>
    let next := p.count key + 1
    (next, { p with counts := p.counts.setIfInBounds key.toNat next })

def deliver (p : Progress) (reading : Reading) : Progress :=
  { p with
    deliveries := p.deliveries ++ [.field reading]
    fields := p.fields + 1
    errors := if reading.isOk then p.errors else p.errors + 1 }

end Progress

/-- The bits a stream has been read past its end. -/
def missing (s : BitStream) : Nat :=
  s.cursor - s.size

/-- Read the header of a field: its position, if fields carry one, and its key. -/
def readFieldHeader (positional : Bool) (s : BitStream) : Option Nat × UInt8 × BitStream :=
  if positional then
    let (position, s) := s.readUInt Field.positionBits
    let (key, s) := s.readUInt Field.keyBits
    (some position, UInt8.ofNat key, s)
  else
    let (key, s) := s.readUInt Field.keyBits
    (none, UInt8.ofNat key, s)

theorem readFieldHeader_rest (positional : Bool) (s : BitStream) :
    (readFieldHeader positional s).2.2 = s.skip (Field.headerBits positional) := by
  cases positional with
  | false => rfl
  | true =>
    show (s.skip 8).skip 6 = s.skip 14
    simp [BitStream.skip, Nat.add_assoc]

/-- Deliver the next field and go on behind it, or tell how the frame ends. -/
def nextField (positional : Bool) (p : Progress) (s : BitStream) :
    Except FrameEnd (Progress × BitStream) :=
  if s.canContinue (Field.headerBits positional) then
    let (position, key, body) := readFieldHeader positional s
    let point := Registry.lookup key
    if !point.isAssigned then
      .error (if key = Registry.endKey then .endMarker else .unknownKey key)
    else
      let (index, p) := p.index key position
      let (result, rest) := Field.read body key
      .ok (p.deliver (.ofResult point.label key index result), rest)
  else .error (.exhausted s.remaining)

/-- A field that was read lies ahead of the cursor, and nothing changes the buffer. -/
theorem nextField_rest {positional : Bool} {p q : Progress} {s rest : BitStream}
    (h : nextField positional p s = .ok (q, rest)) :
    s.canContinue (Field.headerBits positional) ∧
      s.cursor + Field.headerBits positional ≤ rest.cursor ∧ rest.bytes = s.bytes := by
  unfold nextField at h
  split at h
  · rename_i ahead
    dsimp only at h
    split at h
    · cases h
    · have moved := Field.read_rest (readFieldHeader positional s).2.2 (readFieldHeader positional s).2.1
      cases h
      rw [readFieldHeader_rest] at moved ⊢
      exact ⟨ahead, moved⟩
  · cases h

theorem nextField_closer {positional : Bool} {p q : Progress} {s rest : BitStream}
    (h : nextField positional p s = .ok (q, rest)) :
    rest.size - rest.cursor < s.size - s.cursor := by
  obtain ⟨ahead, moved, same⟩ := nextField_rest h
  have wide : 0 < Field.headerBits positional := by cases positional <;> decide
  have inside : s.cursor < s.size - Field.headerBits positional := by
    simpa [BitStream.canContinue] using ahead
  have : rest.size = s.size := by unfold BitStream.size; rw [same]
  omega

/-- Read fields and deliver them until the frame ends or the sink stops the reading. -/
def readFields (positional : Bool) (sink : Sink) (s : BitStream) (p : Progress) :
    Progress × FrameEnd :=
  match step : nextField positional p s with
  | .error ending => (p, ending)
  | .ok (p, rest) =>
    have := nextField_closer step
    if rest.overran then (p, .truncated (missing rest))
    else
      match sink p.deliveries with
      | .stop => (p, .aborted)
      | .continue => readFields positional sink rest p
termination_by s.size - s.cursor

theorem readFields_of_error {positional : Bool} {sink : Sink} {s : BitStream} {p : Progress}
    {ending : FrameEnd} (h : nextField positional p s = .error ending) :
    readFields positional sink s p = (p, ending) := by
  rw [readFields]
  split
  · rename_i other step
    cases h.symm.trans step
    rfl
  · rename_i q rest step
    cases h.symm.trans step

theorem readFields_of_ok {positional : Bool} {sink : Sink} {s rest : BitStream} {p q : Progress}
    (h : nextField positional p s = .ok (q, rest)) :
    readFields positional sink s p =
      if rest.overran then (q, .truncated (missing rest))
      else
        match sink q.deliveries with
        | .stop => (q, .aborted)
        | .continue => readFields positional sink rest q := by
  rw [readFields]
  split
  · rename_i other step
    cases h.symm.trans step
  · rename_i q' rest' step
    cases h.symm.trans step
    rfl

/-- Read a frame into a sink. -/
def read (framing : Framing) (sink : Sink) (payload : List UInt8) : FrameReading :=
  let (header, s) := FrameHeader.read framing (.ofBytes payload)
  let start := Progress.start (if header.messageId.isSome then [.messageId header] else [])
  let (p, ending) :=
    if s.overran then (start, .truncated (missing s))
    else readFields header.flags.isPositional sink s start
  { deliveries := p.deliveries
    summary := { header := header, fields := p.fields, errors := p.errors, ending := ending } }

end Frame

def decodeFrame (framing : Framing) (payload : List UInt8) : FrameReading :=
  Frame.read framing Sink.collect payload

/-! ## What is told of a reading -/

namespace Reading

def describeError (reading : Reading) : String :=
  match reading.error with
  | none => "None"
  | some (.deviceFault code) => s!"Some(DeviceReportedFault({code}))"
  | some error => "Some(" ++ error.message ++ ")"

def traceEvent (reading : Reading) : Event where
  severity := .trace
  message :=
    s!"Decoded field {reading.name} = " ++ NumberStyle.prose.render reading.value ++
      " (" ++ reading.describeError ++ ")"

/-- The event that shows a field to an operator. -/
def event (reading : Reading) : Event where
  severity := .debug
  message :=
    match reading.error, reading.text with
    | some error, _ => s!"{reading.name}: error: " ++ error.message
    | none, some text => s!"{reading.name} = " ++ Text.quoted text
    | none, none => s!"{reading.name} = " ++ NumberStyle.prose.render reading.value

end Reading

/-- The event that shows the end of a frame to an operator; only a clean one is no warning. -/
def FrameSummary.event (summary : FrameSummary) : Event :=
  match summary.ending with
  | .unknownKey key =>
    ⟨.warn, s!"Decoding stopped at unassigned key {key} after {summary.fields} fields"⟩
  | ending =>
    if summary.isClean then ⟨.info, s!"Decoded {summary.fields} fields"⟩
    else
      ⟨.warn, s!"Decoded {summary.fields} fields with {summary.errors} errors, ended " ++ ending.describe⟩

def FrameReading.journal (r : FrameReading) : Journal :=
  (if r.header.flags.hasReserved then
    [⟨.warn, "Reserved frame flag bits set: 0x" ++ String.ofList (Text.upperByte r.header.flags.byte)⟩]
   else []) ++
  r.readings.map Reading.traceEvent ++
  (match r.ending with
   | .truncated missing => [⟨.warn, s!"Truncated frame: last field read {missing} bits past the end"⟩]
   | _ => []) ++
  [⟨.debug,
    s!"Frame decoded: {r.summary.fields} fields, {r.summary.errors} errors, end " ++ r.ending.describe⟩]

end Telemetry
