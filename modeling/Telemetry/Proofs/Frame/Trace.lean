import Telemetry.Proofs.Frame.Announcement
import Telemetry.Proofs.Frame.RoundTrip

/-!
# Traces of a reading

A frame is read field by field, and each step is told completely by what stands at the cursor: whether
there is room for a field, its position and key (`fieldPosition`, `fieldKey`), and its body, whose width
can be told from the reading that comes of it (`Field.read_snd`). A run of steps that stay inside the
frame is a trace (`Reads`), and a reading is a trace and one of three ways to stop after it (`Stops`,
`readFields_trace`). What holds along all readings is proved by induction on traces.
-/

namespace Telemetry

theorem BitStream.skip_skip (s : BitStream) (a b : Nat) : (s.skip a).skip b = s.skip (a + b) := by
  simp [skip, Nat.add_assoc]

@[simp] theorem BitStream.size_skip (s : BitStream) (count : Nat) : (s.skip count).size = s.size := rfl

theorem BitStream.canContinue_iff_lt (s : BitStream) (header : Nat) :
    s.canContinue header = true ↔ s.cursor + header < s.size := by
  unfold canContinue
  rw [decide_eq_true_iff]
  omega

theorem BitStream.overran_eq_true_iff (s : BitStream) : s.overran = true ↔ s.size < s.cursor := by
  unfold overran
  rw [decide_eq_true_iff]

theorem BitStream.overran_eq_false_iff (s : BitStream) : s.overran = false ↔ s.cursor ≤ s.size := by
  unfold overran
  rw [decide_eq_false_iff_not, Nat.not_lt]

/-! ## Widths -/

/-- The bits that a header takes. -/
def FrameHeader.width (header : FrameHeader) : Nat :=
  if header.messageId.isSome then flagsBits + messageIdBits else flagsBits

/-- Every header has flags. -/
theorem FrameHeader.flagsBits_le_width (header : FrameHeader) : flagsBits ≤ header.width := by
  unfold width
  split <;> decide

/-- The bits that the body of a field took, told from what came of it: a text has a length of its own. -/
def Reading.bodyWidth (reading : Reading) : Nat :=
  (Registry.lookup reading.key).bitCount?.getD
    (Field.lengthBits + 8 * (reading.text.getD "").length)

/-- The bits that fields took, headers included. -/
def Frame.span (positional : Bool) (readings : List Reading) : Nat :=
  (readings.map fun reading => Field.headerBits positional + reading.bodyWidth).sum

theorem FrameHeader.read_eq (framing : Framing) (payload : List UInt8) :
    read framing (.ofBytes payload) =
      (ofPayload framing payload, (BitStream.ofBytes payload).skip (ofPayload framing payload).width) := by
  have header := read_ofBytes framing payload
  refine Prod.ext header ?_
  rw [← header]
  unfold read
  dsimp only
  split
  · exact BitStream.skip_skip _ _ _
  · rfl

namespace Field

theorem readChars_snd (count : Nat) (s : BitStream) : (readChars count s).2 = s.skip (8 * count) := by
  induction count generalizing s with
  | zero => rfl
  | succ count ih =>
    show (readChars count (s.skip 8)).2 = _
    rw [ih, BitStream.skip_skip, Nat.mul_succ, Nat.add_comm]

theorem length_readChars (count : Nat) (s : BitStream) : (readChars count s).1.length = count := by
  induction count generalizing s with
  | zero => rfl
  | succ count ih =>
    show (readChars count (s.skip 8)).1.length + 1 = _
    rw [ih]

theorem faultCode?_text (key : UInt8) (text : String) : faultCode? key (.text text) = none := rfl

/-- Reading a body moves the cursor on by its width and does nothing else to the stream. -/
theorem read_snd {key : UInt8} (assigned : (Registry.lookup key).isAssigned = true) (s : BitStream)
    (label : String) (index : Nat) :
    (read s key).2 = s.skip (Reading.ofResult label key index (read s key).1).bodyWidth := by
  unfold read Reading.bodyWidth
  simp only [Reading.ofResult]
  cases encoding : (Registry.lookup key).encoding with
  | unassigned => simp [Descriptor.isAssigned, encoding] at assigned
  | fixedPoint range =>
    rw [readValue?_fixedPoint, Descriptor.bitCount?, encoding]
    rfl
  | raw kind =>
    rw [readValue?_raw, Descriptor.bitCount?, encoding]
    dsimp only
    split <;> rfl
  | text =>
    -- Only here does the width depend on what was read.
    rw [readValue?_text, Descriptor.bitCount?, encoding]
    simp only [faultCode?_text, readChars_snd, BitStream.readUInt_snd, BitStream.skip_skip,
      Option.getD_none, Option.getD_some, String.length_ofList, length_readChars]

/-- A body is refused only under the key for faults, with the number in its one byte unless that is zero. -/
theorem read_error_iff {key : UInt8} (assigned : (Registry.lookup key).isAssigned = true) (s : BitStream)
    (error : FieldError) :
    (read s key).1 = .error error ↔ key = Registry.faultKey ∧ (s.readUInt 8).1 ≠ 0 ∧
      error = .deviceFault (UInt8.ofNat (s.readUInt 8).1) := by
  by_cases fault : key = Registry.faultKey
  · have encoding : (Registry.lookup key).encoding = .raw .uint8 := by
      rw [fault]
      rfl
    have small : (s.readUInt 8).1 < 256 := by
      rw [s.readUInt_eq_numberAt (by decide)]
      exact Bits.numberAt_lt _ _ _
    have nonzero : UInt8.ofNat (s.readUInt 8).1 ≠ 0 ↔ (s.readUInt 8).1 ≠ 0 := by
      rw [ne_eq, ne_eq, ← UInt8.toNat_inj, UInt8.toNat_ofNat_of_lt' small]
      rfl
    have width : ScalarKind.uint8.bitWidth = 8 := rfl
    unfold read
    rw [encoding, readValue?_raw]
    simp only [Scalar.ofBits, faultCode?, fault, true_and, width, ← nonzero]
    by_cases zero : UInt8.ofNat (s.readUInt 8).1 = 0
    · simp [zero]
    · simp [zero, eq_comm]
  · obtain ⟨value, rest, found⟩ : ∃ value rest,
        readValue? s (Registry.lookup key).encoding = some (value, rest) := by
      cases encoding : (Registry.lookup key).encoding with
      | unassigned => simp [Descriptor.isAssigned, encoding] at assigned
      | fixedPoint range => exact ⟨_, _, readValue?_fixedPoint s range⟩
      | raw kind => exact ⟨_, _, readValue?_raw s kind⟩
      | text => exact ⟨_, _, readValue?_text s⟩
    unfold read
    rw [found]
    simp only [FieldWrite.faultCode?_of_ne fault]
    simp [fault]

end Field

namespace Frame

/-! ## One step -/

section Step

variable {positional : Bool} {p q : Progress} {s t : BitStream}

/-- The position that a field at the cursor carries. -/
def fieldPosition (positional : Bool) (s : BitStream) : Option Nat :=
  (readFieldHeader positional s).1

/-- The key of a field at the cursor. -/
def fieldKey (positional : Bool) (s : BitStream) : UInt8 :=
  (readFieldHeader positional s).2.1

/-- What comes of a body under a key and a position. -/
def Progress.reading (p : Progress) (key : UInt8) (position : Option Nat)
    (result : Except FieldError Value) : Reading :=
  .ofResult (Registry.lookup key).label key (p.index key position).1 result

/-- The progress after such a field. -/
def Progress.take (p : Progress) (key : UInt8) (position : Option Nat)
    (result : Except FieldError Value) : Progress :=
  (p.index key position).2.deliver (p.reading key position result)

theorem Progress.deliveries_take (p : Progress) (key : UInt8) (position : Option Nat)
    (result : Except FieldError Value) :
    (p.take key position result).deliveries =
      p.deliveries ++ [.field (p.reading key position result)] := by
  cases position <;> rfl

/-- The name, the key and the index do not depend on the body. -/
theorem Progress.reading_front (p : Progress) (key : UInt8) (position : Option Nat)
    (a b : Except FieldError Value) :
    (p.reading key position a).name = (p.reading key position b).name ∧
      (p.reading key position a).key = (p.reading key position b).key ∧
      (p.reading key position a).index = (p.reading key position b).index :=
  ⟨rfl, rfl, rfl⟩

theorem field_inj_of_append {before : List Delivery} {a b : Reading}
    (same : before ++ [.field a] = before ++ [.field b]) : a = b :=
  Delivery.field.inj (List.singleton_inj.mp (List.append_cancel_left same))

theorem nextField_of_short (short : ¬ s.canContinue (Field.headerBits positional) = true) :
    nextField positional p s = .error (.exhausted s.remaining) := by
  unfold nextField
  rw [if_neg short]

theorem nextField_of_unassigned (ahead : s.canContinue (Field.headerBits positional) = true)
    (unassigned : ¬ (Registry.lookup (fieldKey positional s)).isAssigned = true) :
    nextField positional p s =
      .error (if fieldKey positional s = Registry.endKey then .endMarker
        else .unknownKey (fieldKey positional s)) := by
  unfold nextField
  rw [if_pos ahead]
  unfold fieldKey at unassigned ⊢
  simp only [unassigned, Bool.not_false, if_true]

theorem nextField_of_assigned (ahead : s.canContinue (Field.headerBits positional) = true)
    (assigned : (Registry.lookup (fieldKey positional s)).isAssigned = true) :
    nextField positional p s =
      .ok (p.take (fieldKey positional s) (fieldPosition positional s)
          (Field.read (s.skip (Field.headerBits positional)) (fieldKey positional s)).1,
        (Field.read (s.skip (Field.headerBits positional)) (fieldKey positional s)).2) := by
  unfold nextField
  rw [if_pos ahead]
  unfold fieldKey at assigned ⊢
  simp only [assigned, Bool.not_true, Bool.false_eq_true, if_false, readFieldHeader_rest]
  rfl

/-- All that a step can do which delivers a field. -/
theorem nextField_ok (h : nextField positional p s = .ok (q, t)) :
    let key := fieldKey positional s
    let body := Field.read (s.skip (Field.headerBits positional)) key
    let reading := p.reading key (fieldPosition positional s) body.1
    s.canContinue (Field.headerBits positional) = true ∧ (Registry.lookup key).isAssigned = true ∧
      q = p.take key (fieldPosition positional s) body.1 ∧
      q.deliveries = p.deliveries ++ [.field reading] ∧
      t = body.2 ∧ t = s.skip (Field.headerBits positional + reading.bodyWidth) := by
  intro key body reading
  by_cases ahead : s.canContinue (Field.headerBits positional) = true
  · by_cases assigned : (Registry.lookup key).isAssigned = true
    · rw [nextField_of_assigned ahead assigned] at h
      cases h
      refine ⟨ahead, assigned, rfl, p.deliveries_take _ _ _, rfl, ?_⟩
      rw [← BitStream.skip_skip]
      exact Field.read_snd assigned _ _ _
    · rw [nextField_of_unassigned ahead assigned] at h
      cases h
  · rw [nextField_of_short ahead] at h
    cases h

/-- A step that delivers a field has room for its header and moves the cursor behind its body. -/
theorem nextField_moves {reading : Reading} (h : nextField positional p s = .ok (q, t))
    (delivered : q.deliveries = p.deliveries ++ [.field reading]) :
    s.cursor + Field.headerBits positional < s.size ∧
      t = s.skip (Field.headerBits positional + reading.bodyWidth) := by
  obtain ⟨ahead, -, -, same, -, moved⟩ := nextField_ok h
  rw [field_inj_of_append (same.symm.trans delivered)] at moved
  exact ⟨(s.canContinue_iff_lt _).mp ahead, moved⟩

/-- All that a step can do which delivers none. -/
theorem nextField_error {ending : FrameEnd} (h : nextField positional p s = .error ending) :
    (¬ s.canContinue (Field.headerBits positional) = true ∧ ending = .exhausted s.remaining) ∨
      (s.canContinue (Field.headerBits positional) = true ∧
        ¬ (Registry.lookup (fieldKey positional s)).isAssigned = true ∧
        ending = if fieldKey positional s = Registry.endKey then .endMarker
          else .unknownKey (fieldKey positional s)) := by
  by_cases ahead : s.canContinue (Field.headerBits positional) = true
  · by_cases assigned : (Registry.lookup (fieldKey positional s)).isAssigned = true
    · rw [nextField_of_assigned ahead assigned] at h
      cases h
    · rw [nextField_of_unassigned ahead assigned] at h
      cases h
      exact Or.inr ⟨ahead, assigned, rfl⟩
  · rw [nextField_of_short ahead] at h
    cases h
    exact Or.inl ⟨ahead, rfl⟩

end Step

/-! ## Traces -/

/-- Fields are read one after the other without running past the end. -/
inductive Reads (positional : Bool) :
    Progress → BitStream → List Reading → Progress → BitStream → Prop
  | done {p : Progress} {s : BitStream} : Reads positional p s [] p s
  | field {p q r : Progress} {s t u : BitStream} {reading : Reading} {rest : List Reading} :
      nextField positional p s = .ok (q, t) → q.deliveries = p.deliveries ++ [.field reading] →
      t.overran = false → Reads positional q t rest r u → Reads positional p s (reading :: rest) r u

/-- The ways in which a reading stops, with what has been read then. -/
inductive Stops (positional : Bool) (sink : Sink) (p : Progress) (s : BitStream) :
    Progress → FrameEnd → Prop
  /-- No other field can be read. -/
  | refused {ending : FrameEnd} : nextField positional p s = .error ending →
      Stops positional sink p s p ending
  /-- One more field has been read, past the end. -/
  | cut {q : Progress} {t : BitStream} : nextField positional p s = .ok (q, t) → t.overran = true →
      Stops positional sink p s q (.truncated (missing t))
  /-- One more field has been read, and the sink has had enough. -/
  | stopped {q : Progress} {t : BitStream} : nextField positional p s = .ok (q, t) →
      t.overran = false → sink q.deliveries = .stop → Stops positional sink p s q .aborted

/-- **A reading is a trace and a stop.** -/
theorem readFields_trace (positional : Bool) (sink : Sink) (s : BitStream) (p : Progress) :
    ∃ readings q t, Reads positional p s readings q t ∧
      Stops positional sink q t (readFields positional sink s p).1
        (readFields positional sink s p).2 := by
  induction ahead : s.size - s.cursor using Nat.strongRecOn generalizing s p with
  | _ _ ih =>
    cases step : nextField positional p s with
    | error ending =>
      rw [readFields_of_error step]
      exact ⟨[], p, s, .done, .refused step⟩
    | ok next =>
      obtain ⟨q, t⟩ := next
      rw [readFields_of_ok step]
      cases beyond : t.overran with
      | true => exact ⟨[], p, s, .done, .cut step beyond⟩
      | false =>
        cases verdict : sink q.deliveries with
        | stop => exact ⟨[], p, s, .done, .stopped step beyond verdict⟩
        | «continue» =>
          obtain ⟨readings, r, u, trace, stop⟩ := ih _ (ahead ▸ nextField_closer step) t q rfl
          obtain ⟨-, -, -, delivered, -⟩ := nextField_ok step
          exact ⟨_, r, u, .field step delivered beyond trace, stop⟩

/-- **What every step keeps, a reading keeps.** -/
theorem readFields_keeps {positional : Bool} {Keeps : Progress → BitStream → Prop}
    (next : ∀ {p q : Progress} {s t : BitStream}, Keeps p s → nextField positional p s = .ok (q, t) →
      Keeps q t) (sink : Sink) {s : BitStream} {p : Progress} (start : Keeps p s) :
    ∃ t, Keeps (readFields positional sink s p).1 t := by
  obtain ⟨readings, q, u, trace, stop⟩ := readFields_trace positional sink s p
  have before : Keeps q u := by
    clear stop
    induction trace with
    | done => exact start
    | field step _ _ _ ih => exact ih (next start step)
  rcases run : readFields positional sink s p with ⟨last, ending⟩
  rw [run] at stop
  cases stop with
  | refused _ => exact ⟨u, before⟩
  | cut step _ => exact ⟨_, next before step⟩
  | stopped step _ _ => exact ⟨_, next before step⟩

namespace Reads

variable {positional : Bool} {p q : Progress} {s t : BitStream} {readings : List Reading}

/-- A trace moves the cursor on by the bits of its fields and does nothing else to the stream. -/
theorem stream (h : Reads positional p s readings q t) : t = s.skip (span positional readings) := by
  induction h with
  | done => rfl
  | field step delivered _ _ ih =>
    obtain ⟨-, moved⟩ := nextField_moves step delivered
    rw [ih, moved, BitStream.skip_skip]
    simp [span]

theorem deliveries (h : Reads positional p s readings q t) :
    q.deliveries = p.deliveries ++ readings.map .field := by
  induction h with
  | done => exact (List.append_nil _).symm
  | field _ delivered _ _ ih =>
    rw [ih, delivered, List.append_assoc]
    rfl

theorem not_overran (h : Reads positional p s readings q t) (inside : s.overran = false) :
    t.overran = false := by
  induction h with
  | done => exact inside
  | field _ _ beyond _ ih => exact ih beyond

/-- A sink that never stops follows a trace to its end. -/
theorem readFields_collect (h : Reads positional p s readings q t) :
    readFields positional Sink.collect s p = readFields positional Sink.collect t q := by
  induction h with
  | done => rfl
  | field step _ beyond _ ih =>
    rw [readFields_of_ok step, beyond]
    exact ih

end Reads

/-! ## Frames -/

theorem announcement_eq (framing : Framing) (payload : List UInt8) :
    announcement framing payload =
      if (FrameHeader.ofPayload framing payload).messageId.isSome then
        [.messageId (FrameHeader.ofPayload framing payload)] else [] := by
  rw [FrameHeader.ofPayload, announcement]
  split <;> rfl

/-- A payload behind its header. -/
def afterHeader (framing : Framing) (payload : List UInt8) : BitStream :=
  (BitStream.ofBytes payload).skip (FrameHeader.ofPayload framing payload).width

theorem cursor_afterHeader (framing : Framing) (payload : List UInt8) :
    (afterHeader framing payload).cursor = (FrameHeader.ofPayload framing payload).width :=
  Nat.zero_add _

theorem size_afterHeader (framing : Framing) (payload : List UInt8) :
    (afterHeader framing payload).size = 8 * payload.length := rfl

/-- Before any field a sink has been handed the announcement only. -/
def opening (framing : Framing) (payload : List UInt8) : Progress :=
  .start (announcement framing payload)

theorem header_read (framing : Framing) (sink : Sink) (payload : List UInt8) :
    (read framing sink payload).header = FrameHeader.ofPayload framing payload :=
  FrameHeader.read_ofBytes framing payload

/-- What is told of a frame with a header and what came of its fields. -/
def readingOf (header : FrameHeader) (run : Progress × FrameEnd) : FrameReading where
  deliveries := run.1.deliveries
  summary := ⟨header, run.1.fields, run.1.errors, run.2⟩

/-- If not even its header lies inside a frame, no sink is asked. -/
theorem read_eq_of_overran {framing : Framing} {payload : List UInt8} (sink : Sink)
    (beyond : (afterHeader framing payload).overran = true) :
    read framing sink payload = readingOf (FrameHeader.ofPayload framing payload)
      (opening framing payload, .truncated (missing (afterHeader framing payload))) := by
  unfold afterHeader opening readingOf at *
  simp only [read, FrameHeader.read_eq, beyond, if_true, announcement_eq]

/-- If its header lies inside, a frame is read as the fields behind it are. -/
theorem read_eq_of_inside {framing : Framing} {payload : List UInt8} (sink : Sink)
    (inside : (afterHeader framing payload).overran = false) :
    read framing sink payload = readingOf (FrameHeader.ofPayload framing payload)
      (readFields (FrameHeader.ofPayload framing payload).flags.isPositional sink
        (afterHeader framing payload) (opening framing payload)) := by
  unfold afterHeader opening readingOf at *
  simp only [read, FrameHeader.read_eq, inside, announcement_eq]
  rfl

theorem read_of_overran {framing : Framing} {payload : List UInt8} (sink : Sink)
    (beyond : (afterHeader framing payload).overran = true) :
    (read framing sink payload).deliveries = announcement framing payload ∧
      (read framing sink payload).ending = .truncated (missing (afterHeader framing payload)) := by
  rw [read_eq_of_overran sink beyond]
  exact ⟨rfl, rfl⟩

theorem read_of_inside {framing : Framing} {payload : List UInt8} (sink : Sink)
    (inside : (afterHeader framing payload).overran = false) :
    let run := readFields (FrameHeader.ofPayload framing payload).flags.isPositional sink
      (afterHeader framing payload) (opening framing payload)
    (read framing sink payload).deliveries = run.1.deliveries ∧
      (read framing sink payload).ending = run.2 := by
  rw [read_eq_of_inside sink inside]
  exact ⟨rfl, rfl⟩

/-- The reading of such a frame is a trace and a stop. -/
theorem read_trace {framing : Framing} {payload : List UInt8} (sink : Sink)
    (inside : (afterHeader framing payload).overran = false) :
    let positional := (FrameHeader.ofPayload framing payload).flags.isPositional
    ∃ readings p t q,
      Reads positional (opening framing payload) (afterHeader framing payload) readings p t ∧
      Stops positional sink p t q (read framing sink payload).ending ∧
      (read framing sink payload).deliveries = q.deliveries := by
  obtain ⟨delivered, ending⟩ := read_of_inside sink inside
  obtain ⟨readings, p, t, trace, stop⟩ := readFields_trace
    (FrameHeader.ofPayload framing payload).flags.isPositional sink (afterHeader framing payload)
    (opening framing payload)
  rw [← ending] at stop
  exact ⟨readings, p, t, _, trace, stop, delivered⟩

/-- What is delivered behind the announcement are the readings of the frame. -/
theorem readings_of_deliveries {r : FrameReading} {framing : Framing} {payload : List UInt8}
    {fields : List Reading}
    (h : r.deliveries = announcement framing payload ++ fields.map .field) : r.readings = fields := by
  have none : Delivery.readings (announcement framing payload) = [] := by
    unfold announcement
    split <;> rfl
  rw [FrameReading.readings, h, Delivery.readings_append, none, List.nil_append]

end Frame

end Telemetry
