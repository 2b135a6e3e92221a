import Mathlib.Data.List.GetD
import Telemetry.Proofs.Bits.Agreement
import Telemetry.Proofs.Frame.Trace

/-!
# Longer frames

A frame and a longer one that begins with it are read in step: on streams that agree up to the end of the
shorter frame, a field that lies inside it is delivered alike (`Agree.nextField`), so a whole trace of the
shorter frame is one of the longer (`Agree.reads`). A field that runs past the end of the shorter frame
still has its header inside, and with it the same name, key and index (`Agree.nextField_front`). If only
zeros are added, the streams agree without end: then that field has the same body too, and behind it no
field follows.
-/

namespace Telemetry

namespace Field

section Agreement

variable {reach : Nat} {s t : BitStream}

theorem readChars_agree (count : Nat) (agree : s.Agree reach t)
    (within : s.cursor + 8 * count ≤ reach) : (readChars count s).1 = (readChars count t).1 := by
  induction count generalizing s t with
  | zero => rfl
  | succ count ih =>
    have char := agree.readUInt (by decide : 8 ≤ 64) (by omega)
    have later := ih (agree.skip 8) (by rw [BitStream.cursor_skip]; omega)
    show Char.ofNat (s.readUInt 8).1 :: (readChars count (s.skip 8)).1 =
      Char.ofNat (t.readUInt 8).1 :: (readChars count (t.skip 8)).1
    rw [char, later]

/-- A body that ends before the place is read alike. -/
theorem read_agree {key : UInt8} (assigned : (Registry.lookup key).isAssigned = true)
    (agree : s.Agree reach t) (within : (read s key).2.cursor ≤ reach) :
    (read s key).1 = (read t key).1 := by
  obtain ⟨registered, -⟩ := Registry.lookup_of_isAssigned assigned
  obtain ⟨-, -, -, narrow⟩ := Registry.points_sound _ registered
  unfold read at within ⊢
  cases encoding : (Registry.lookup key).encoding with
  | unassigned => simp [Descriptor.isAssigned, encoding] at assigned
  | fixedPoint range =>
    rw [encoding, readValue?_fixedPoint] at within
    obtain ⟨-, narrow⟩ := narrow range.width (by simp [Descriptor.bitCount?, encoding])
    have same := agree.readUInt narrow within
    rw [readValue?_fixedPoint, readValue?_fixedPoint, same]
    rfl
  | raw kind =>
    obtain ⟨-, narrow⟩ := narrow kind.bitWidth (by simp [Descriptor.bitCount?, encoding])
    have inside : s.cursor + kind.bitWidth ≤ reach := by
      rw [encoding, readValue?_raw] at within
      dsimp only at within
      split at within <;> exact within
    have same := agree.readUInt narrow inside
    rw [readValue?_raw, readValue?_raw, same]
    dsimp only
    split <;> rfl
  | text =>
    rw [encoding, readValue?_text] at within
    simp only [faultCode?_text, readChars_snd, BitStream.readUInt_snd, BitStream.cursor_skip] at within
    -- The length says where the body ends, so it stands before the place itself.
    have length := agree.readUInt (by decide : lengthBits ≤ 64) (by omega)
    have chars := readChars_agree (s.readUInt lengthBits).1 (agree.skip lengthBits)
      (by rw [BitStream.cursor_skip]; omega)
    rw [readValue?_text, readValue?_text]
    simp only [faultCode?_text, BitStream.readUInt_snd, ← length, chars]

end Agreement

end Field

namespace Frame

/-! ## One step on both -/

section Step

variable {positional : Bool} {reach : Nat} {p q : Progress} {s t u : BitStream}

theorem fieldPosition_agree (agree : s.Agree reach t)
    (within : s.cursor + Field.headerBits positional ≤ reach) :
    fieldPosition positional s = fieldPosition positional t := by
  cases positional with
  | false => rfl
  | true =>
    have same := agree.readUInt (by decide : Field.positionBits ≤ 64)
      (Nat.le_trans (Nat.add_le_add_left (by decide : Field.positionBits ≤ 14) _) within)
    exact congrArg some same

theorem fieldKey_agree (agree : s.Agree reach t)
    (within : s.cursor + Field.headerBits positional ≤ reach) :
    fieldKey positional s = fieldKey positional t := by
  cases positional with
  | false =>
    have same := agree.readUInt (by decide : Field.keyBits ≤ 64) within
    exact congrArg UInt8.ofNat same
  | true =>
    have same := (agree.skip Field.positionBits).readUInt (by decide : Field.keyBits ≤ 64)
      (by rw [BitStream.cursor_skip, Nat.add_assoc]; exact within)
    exact congrArg UInt8.ofNat same

theorem canContinue_agree (agree : s.Agree reach t) (longer : s.size ≤ t.size)
    (ahead : s.canContinue (Field.headerBits positional) = true) :
    t.canContinue (Field.headerBits positional) = true := by
  rw [BitStream.canContinue_iff_lt] at ahead ⊢
  rw [← agree.cursor]
  exact Nat.lt_of_lt_of_le ahead longer

/-- A field that ends before the place is delivered alike. -/
theorem nextField_agree (agree : s.Agree reach t) (longer : s.size ≤ t.size)
    (step : nextField positional p s = .ok (q, u)) (within : u.cursor ≤ reach) :
    ∃ v, nextField positional p t = .ok (q, v) ∧ u.Agree reach v ∧ v.bytes = t.bytes := by
  obtain ⟨ahead, assigned, taken, -, rest, moved⟩ := nextField_ok step
  have header : s.cursor + Field.headerBits positional ≤ reach := by
    rw [moved, BitStream.cursor_skip] at within
    omega
  have key := fieldKey_agree agree header
  have position := fieldPosition_agree agree header
  have behind := agree.skip (Field.headerBits positional)
  rw [rest] at within
  have body := Field.read_agree assigned behind within
  have further := nextField_of_assigned (p := p) (canContinue_agree agree longer ahead)
    (key ▸ assigned)
  rw [← key, ← position, ← body, ← taken] at further
  refine ⟨_, further, ?_, ?_⟩
  · have left := Field.read_snd assigned (s.skip (Field.headerBits positional)) "" 0
    have right := Field.read_snd assigned (t.skip (Field.headerBits positional)) "" 0
    rw [← body] at right
    rw [rest, left, right]
    exact behind.skip _
  · exact (Field.read_rest _ _).2

/-- A field whose header ends before the place is delivered under the same name. -/
theorem nextField_agree_front (agree : s.Agree reach t) (longer : s.size ≤ t.size)
    (inside : s.size ≤ reach) {reading : Reading} (step : nextField positional p s = .ok (q, u))
    (delivered : q.deliveries = p.deliveries ++ [.field reading]) :
    ∃ r v other, nextField positional p t = .ok (r, v) ∧
      r.deliveries = p.deliveries ++ [.field other] ∧
      other.name = reading.name ∧ other.key = reading.key ∧ other.index = reading.index := by
  obtain ⟨ahead, assigned, -, same, -, -⟩ := nextField_ok step
  have header : s.cursor + Field.headerBits positional ≤ reach := by
    rw [BitStream.canContinue_iff_lt] at ahead
    omega
  have key := fieldKey_agree agree header
  have position := fieldPosition_agree agree header
  have further := nextField_of_assigned (p := p) (canContinue_agree agree longer ahead)
    (key ▸ assigned)
  rw [← key, ← position] at further
  refine ⟨_, _, _, further, p.deliveries_take _ _ _, ?_⟩
  rw [← field_inj_of_append (same.symm.trans delivered)]
  exact p.reading_front _ _ _ _

/-- Where nothing but zeros lies ahead no field is read. -/
theorem nextField_blank (positional : Bool) (p : Progress) {zeros : Nat}
    (blank : (Bits.ofBytes s.bytes).drop s.cursor = List.replicate zeros false) :
    ∃ ending, nextField positional p s = .error ending := by
  by_cases ahead : s.canContinue (Field.headerBits positional) = true
  · have number (count place : Nat) (narrow : count ≤ 64) : ((s.skip place).readUInt count).1 = 0 := by
      rw [BitStream.readUInt_fst _ narrow, ← BitStream.first_drop_bytes, BitStream.bytes_skip,
        BitStream.cursor_skip, ← List.drop_drop, blank, List.drop_replicate,
        ← List.nil_append (List.replicate _ _), Bits.first_append_replicate, Bits.first_nil,
        Bits.value_replicate_false]
    have key : fieldKey positional s = Registry.endKey := by
      cases positional with
      | false => exact congrArg UInt8.ofNat (number Field.keyBits 0 (by decide))
      | true => exact congrArg UInt8.ofNat (number Field.keyBits Field.positionBits (by decide))
    have unassigned : ¬ (Registry.lookup (fieldKey positional s)).isAssigned = true := by
      rw [key]
      decide
    exact ⟨_, nextField_of_unassigned ahead unassigned⟩
  · exact ⟨_, nextField_of_short ahead⟩

end Step

/-! ## Traces on both -/

section Trace

variable {positional : Bool} {reach : Nat} {p q : Progress} {s t u : BitStream}
  {readings : List Reading}

/-- **A trace of a frame is one of each longer frame.** -/
theorem Reads.agree (trace : Reads positional p s readings q u) (agree : s.Agree reach t)
    (longer : s.size ≤ t.size) (inside : s.size ≤ reach) :
    ∃ v, Reads positional p t readings q v ∧ u.Agree reach v ∧ v.bytes = t.bytes := by
  induction trace generalizing t with
  | done => exact ⟨t, .done, agree, rfl⟩
  | @field p q r s u w reading rest step delivered beyond _ ih =>
    obtain ⟨-, moved⟩ := nextField_moves step delivered
    have size : u.size = s.size := by rw [moved, BitStream.size_skip]
    rw [BitStream.overran_eq_false_iff, size] at beyond
    obtain ⟨v, further, together, bytes⟩ :=
      nextField_agree agree longer step (Nat.le_trans beyond inside)
    have same : v.size = t.size := by
      unfold BitStream.size
      rw [bytes]
    obtain ⟨x, later, last, kept⟩ := ih together (by omega) (by omega)
    refine ⟨x, .field further delivered ?_ later, last, kept.trans bytes⟩
    rw [BitStream.overran_eq_false_iff, ← together.cursor, same]
    exact Nat.le_trans beyond longer

end Trace

/-! ## Headers on both -/

section Header

variable {framing : Framing} {payload more : List UInt8}

/-- A header is made of the first byte and, if it says so, of the second. -/
theorem ofPayload_congr {a b : List UInt8} (flags : a.getD 0 0 = b.getD 0 0)
    (id : framing.expectsMessageId ⟨a.getD 0 0⟩ = true → a.getD 1 0 = b.getD 1 0) :
    FrameHeader.ofPayload framing a = FrameHeader.ofPayload framing b := by
  unfold FrameHeader.ofPayload
  rw [← flags]
  by_cases expected : framing.expectsMessageId ⟨a.getD 0 0⟩ = true
  · rw [if_pos expected, if_pos expected, id expected]
  · rw [if_neg expected, if_neg expected]

theorem ofPayload_append (more : List UInt8)
    (inside : (afterHeader framing payload).overran = false) :
    FrameHeader.ofPayload framing (payload ++ more) = FrameHeader.ofPayload framing payload := by
  rw [BitStream.overran_eq_false_iff, cursor_afterHeader, size_afterHeader] at inside
  have flagged : 8 ≤ (FrameHeader.ofPayload framing payload).width :=
    FrameHeader.flagsBits_le_width _
  symm
  apply ofPayload_congr
  · rw [List.getD_append]
    omega
  · intro expected
    have both : (FrameHeader.ofPayload framing payload).width = 16 := by
      unfold FrameHeader.width FrameHeader.ofPayload
      rw [if_pos expected]
      rfl
    rw [List.getD_append]
    omega

theorem getD_append_zeros (zeros : ∀ byte ∈ more, byte = 0) (i : Nat) :
    (payload ++ more).getD i 0 = payload.getD i 0 := by
  by_cases within : i < payload.length
  · rw [List.getD_append _ _ _ _ within]
  · rw [List.getD_append_right _ _ _ _ (by omega), List.getD_eq_default payload _ (by omega)]
    by_cases added : i - payload.length < more.length
    · rw [List.getD_eq_getElem _ _ added]
      exact zeros _ (List.getElem_mem added)
    · rw [List.getD_eq_default _ _ (by omega)]

theorem ofPayload_append_zeros (zeros : ∀ byte ∈ more, byte = 0) :
    FrameHeader.ofPayload framing (payload ++ more) = FrameHeader.ofPayload framing payload :=
  ofPayload_congr (getD_append_zeros zeros 0) fun _ => getD_append_zeros zeros 1

end Header

/-! ## Frames -/

section Frames

variable {framing : Framing} {payload more : List UInt8} {reach : Nat}

theorem afterHeader_agree
    (same : FrameHeader.ofPayload framing (payload ++ more) = FrameHeader.ofPayload framing payload)
    (agree : (BitStream.ofBytes payload).Agree reach (.ofBytes (payload ++ more))) :
    (afterHeader framing payload).Agree reach (afterHeader framing (payload ++ more)) := by
  unfold afterHeader
  rw [same]
  exact agree.skip _

theorem opening_append
    (same : FrameHeader.ofPayload framing (payload ++ more) = FrameHeader.ofPayload framing payload) :
    opening framing (payload ++ more) = opening framing payload := by
  unfold opening
  rw [announcement_eq, announcement_eq, same]

/-- A frame that goes on behind a trace of a shorter one: the longer one's fields are those of the trace
and those that are read behind it. -/
theorem readings_append {readings : List Reading} {p : Progress} {t : BitStream}
    (same : FrameHeader.ofPayload framing (payload ++ more) = FrameHeader.ofPayload framing payload)
    (agree : (BitStream.ofBytes payload).Agree reach (.ofBytes (payload ++ more)))
    (far : 8 * payload.length ≤ reach) (inside : (afterHeader framing payload).overran = false)
    (trace : Reads (FrameHeader.ofPayload framing payload).flags.isPositional (opening framing payload)
      (afterHeader framing payload) readings p t) :
    ∃ u, t.Agree reach u ∧ u.bytes = payload ++ more ∧ ∀ others : List Reading,
      (readFields (FrameHeader.ofPayload framing payload).flags.isPositional Sink.collect u p).1.deliveries
          = p.deliveries ++ others.map .field →
      (decodeFrame framing (payload ++ more)).readings = readings ++ others := by
  have longer : (afterHeader framing payload).size ≤ (afterHeader framing (payload ++ more)).size := by
    rw [size_afterHeader, size_afterHeader, List.length_append]
    omega
  obtain ⟨u, further, together, bytes⟩ :=
    trace.agree (afterHeader_agree same agree) longer far
  refine ⟨u, together, bytes, fun others behind => ?_⟩
  have whole : (afterHeader framing (payload ++ more)).overran = false := by
    rw [BitStream.overran_eq_false_iff] at inside ⊢
    rw [← (afterHeader_agree same agree).cursor]
    exact Nat.le_trans inside longer
  obtain ⟨delivered, -⟩ := read_of_inside Sink.collect whole
  rw [same, opening_append same, further.readFields_collect, behind, further.deliveries,
    List.append_assoc, ← List.map_append] at delivered
  apply readings_of_deliveries
  rw [decodeFrame, delivered, ← opening_append same]
  rfl

/-- A reader that collects either comes to the end of a trace, or one more field runs past the end. -/
theorem decodeFrame_trace (inside : (afterHeader framing payload).overran = false) :
    ∃ readings p t,
      Reads (FrameHeader.ofPayload framing payload).flags.isPositional (opening framing payload)
        (afterHeader framing payload) readings p t ∧
      (((decodeFrame framing payload).readings = readings ∧
          ∀ missing, (decodeFrame framing payload).ending ≠ .truncated missing) ∨
        ∃ reading q u,
          nextField (FrameHeader.ofPayload framing payload).flags.isPositional p t = .ok (q, u) ∧
          q.deliveries = p.deliveries ++ [.field reading] ∧ u.overran = true ∧
          (decodeFrame framing payload).readings = readings ++ [reading] ∧
          (decodeFrame framing payload).ending = .truncated (missing u)) := by
  obtain ⟨readings, p, t, q, trace, stop, delivered⟩ := read_trace Sink.collect inside
  refine ⟨readings, p, t, trace, ?_⟩
  have listed := trace.deliveries
  change Stops _ _ _ _ _ (decodeFrame framing payload).ending at stop
  generalize (decodeFrame framing payload).ending = ending at stop ⊢
  cases stop with
  | refused step =>
    refine Or.inl ⟨readings_of_deliveries (delivered.trans listed), ?_⟩
    intro missing cut
    rcases nextField_error step with ⟨-, other⟩ | ⟨-, -, other⟩
    · rw [cut] at other
      cases other
    · rw [cut] at other
      split at other <;> cases other
  | cut step beyond =>
    obtain ⟨reading, last⟩ := nextField_deliveries step
    have all : q.deliveries = announcement framing payload ++ (readings ++ [reading]).map .field := by
      rw [last, listed, List.map_append, List.append_assoc]
      rfl
    exact Or.inr ⟨reading, _, _, step, last, beyond, readings_of_deliveries (delivered.trans all), rfl⟩
  | stopped _ _ verdict => cases verdict

/-- Behind a field with nothing but zeros ahead no other is read. -/
theorem readFields_blank {positional : Bool} {p q : Progress} {s t : BitStream} {zeros : Nat}
    (step : nextField positional p s = .ok (q, t))
    (blank : (Bits.ofBytes t.bytes).drop t.cursor = List.replicate zeros false) :
    (readFields positional Sink.collect s p).1 = q := by
  rw [readFields_of_ok step]
  obtain ⟨ending, refused⟩ := nextField_blank positional q blank
  split
  · rfl
  · show (readFields positional Sink.collect t q).1 = q
    rw [readFields_of_error refused]

/-- Past the end of a frame that zeros follow there is nothing but zeros. -/
theorem blank_of_zeros (zeros : ∀ byte ∈ more, byte = 0) {place : Nat}
    (past : 8 * payload.length ≤ place) :
    ∃ count, (Bits.ofBytes (payload ++ more)).drop place = List.replicate count false := by
  refine ⟨8 * more.length - (place - 8 * payload.length), ?_⟩
  rw [Bits.ofBytes_append, BitStream.ofBytes_zeros zeros, List.drop_append, Bits.length_ofBytes,
    List.drop_eq_nil_of_le (by rw [Bits.length_ofBytes]; exact past), List.nil_append,
    List.drop_replicate]

/-- If not even the header lies inside, zeros add no field. -/
theorem readings_append_zeros_of_overran (zeros : ∀ byte ∈ more, byte = 0)
    (beyond : (afterHeader framing payload).overran = true) :
    (decodeFrame framing (payload ++ more)).readings = [] := by
  have same : FrameHeader.ofPayload framing (payload ++ more) = FrameHeader.ofPayload framing payload :=
    ofPayload_append_zeros zeros
  rw [BitStream.overran_eq_true_iff, cursor_afterHeader, size_afterHeader, ← same] at beyond
  have past : 8 * payload.length ≤ (afterHeader framing (payload ++ more)).cursor := by
    rw [cursor_afterHeader]
    exact Nat.le_of_lt beyond
  obtain ⟨count, blank⟩ := blank_of_zeros zeros past
  obtain ⟨ending, refused⟩ :=
    nextField_blank (FrameHeader.ofPayload framing (payload ++ more)).flags.isPositional
      (opening framing (payload ++ more)) blank
  apply readings_of_deliveries
  rw [List.map_nil, List.append_nil]
  cases whole : (afterHeader framing (payload ++ more)).overran with
  | true => exact (read_of_overran Sink.collect whole).1
  | false =>
    obtain ⟨delivered, -⟩ := read_of_inside Sink.collect whole
    rw [readFields_of_error refused] at delivered
    exact delivered

theorem size_of_reads {positional : Bool} {readings : List Reading} {p : Progress} {t : BitStream}
    (trace : Reads positional (opening framing payload) (afterHeader framing payload) readings p t) :
    t.size = 8 * payload.length := by
  rw [trace.stream, BitStream.size_skip, size_afterHeader]

theorem size_le_of_append {s t : BitStream} (size : s.size = 8 * payload.length)
    (bytes : t.bytes = payload ++ more) : s.size ≤ t.size := by
  rw [size, BitStream.size, bytes, List.length_append]
  omega

section Cut

variable {readings : List Reading} {reading : Reading} {p q : Progress} {t u : BitStream}
  (inside : (afterHeader framing payload).overran = false)
  (trace : Reads (FrameHeader.ofPayload framing payload).flags.isPositional (opening framing payload)
    (afterHeader framing payload) readings p t)
  (step : nextField (FrameHeader.ofPayload framing payload).flags.isPositional p t = .ok (q, u))
  (last : q.deliveries = p.deliveries ++ [.field reading])

include inside trace step last

/-- The longer frame has a field where the shorter one was cut off, and it is called the same. -/
theorem readings_append_of_cut (more : List UInt8) :
    ∃ other others, (decodeFrame framing (payload ++ more)).readings = readings ++ other :: others ∧
      other.name = reading.name ∧ other.key = reading.key ∧ other.index = reading.index := by
  obtain ⟨v, together, bytes, behind⟩ := readings_append (ofPayload_append more inside)
    (BitStream.agree_append payload more) (Nat.le_refl _) inside trace
  have size := size_of_reads trace
  have longer := size_le_of_append size bytes
  obtain ⟨r, x, other, further, delivered, front⟩ :=
    nextField_agree_front together longer (Nat.le_of_eq size) step last
  obtain ⟨others, later⟩ := readFields_deliveries_of_ok Sink.collect further
  refine ⟨other, others, behind _ ?_, front⟩
  rw [later, delivered, List.append_assoc]
  rfl

/-- If zeros follow, that field is the same and the last one. -/
theorem readings_append_zeros_of_cut (beyond : u.overran = true) (zeros : ∀ byte ∈ more, byte = 0) :
    (decodeFrame framing (payload ++ more)).readings = readings ++ [reading] := by
  obtain ⟨v, together, bytes, behind⟩ := readings_append (ofPayload_append more inside)
    (BitStream.agree_append_zeros payload zeros (max (8 * payload.length) u.cursor))
    (Nat.le_max_left _ _) inside trace
  have size := size_of_reads trace
  have longer := size_le_of_append size bytes
  obtain ⟨x, further, place, kept⟩ := nextField_agree together longer step (Nat.le_max_right _ _)
  obtain ⟨-, moved⟩ := nextField_moves step last
  have past : 8 * payload.length ≤ x.cursor := by
    rw [BitStream.overran_eq_true_iff, moved, BitStream.size_skip, ← moved, size] at beyond
    rw [← place.cursor]
    exact Nat.le_of_lt beyond
  obtain ⟨count, blank⟩ := blank_of_zeros zeros past
  rw [← bytes, ← kept] at blank
  apply behind
  rw [readFields_blank further blank, last]
  rfl

end Cut

end Frames

end Frame

open Telemetry.Frame in
/-- **Longer frames only add fields.** Whatever follows a frame, the fields that lie inside it stay, and a
field that ran past its end keeps its name, key and index. Zeros that follow change no field, and behind
one that ran past the end, which read zeros there anyway, they add none. -/
theorem decodeFrame_append (framing : Framing) (payload more : List UInt8) :
    let short := decodeFrame framing payload
    let long := decodeFrame framing (payload ++ more)
    ((∀ missing, short.ending ≠ .truncated missing) → short.readings <+: long.readings) ∧
    (∀ missing, short.ending = .truncated missing →
      short.readings.dropLast <+: long.readings ∧
      ∀ last, short.readings.getLast? = some last →
        ∃ other, long.readings[short.readings.length - 1]? = some other ∧
          other.name = last.name ∧ other.key = last.key ∧ other.index = last.index) ∧
    ((∀ byte ∈ more, byte = 0) →
      short.readings <+: long.readings ∧
      ∀ missing, short.ending = .truncated missing → long.readings = short.readings) := by
  intro short long
  cases header : (afterHeader framing payload).overran with
  | true =>
    obtain ⟨delivered, -⟩ := read_of_overran Sink.collect header
    have none : short.readings = [] := readings_of_deliveries (delivered.trans (List.append_nil _).symm)
    rw [none]
    refine ⟨fun _ => List.nil_prefix, fun _ _ => ⟨List.nil_prefix, ?_⟩, fun zeros => ?_⟩
    · intro last found
      cases found
    · exact ⟨List.nil_prefix, fun _ _ => readings_append_zeros_of_overran zeros header⟩
  | false =>
    have same := ofPayload_append more header
    obtain ⟨readings, p, t, trace, ⟨listed, ended⟩ | ⟨reading, q, u, step, last, beyond, listed, ended⟩⟩ :=
      decodeFrame_trace header
    · -- All fields of the shorter frame lie inside it.
      have listed : short.readings = readings := listed
      obtain ⟨v, -, -, behind⟩ := readings_append same (BitStream.agree_append payload more)
        (Nat.le_refl _) header trace
      obtain ⟨others, found⟩ := readFields_deliveries
        (FrameHeader.ofPayload framing payload).flags.isPositional Sink.collect v p
      have within : short.readings <+: long.readings := by
        rw [listed]
        exact ⟨others, (behind others found).symm⟩
      exact ⟨fun _ => within, fun missing cut => absurd cut (ended missing),
        fun _ => ⟨within, fun missing cut => absurd cut (ended missing)⟩⟩
    · -- The last field ran past the end, but its header lies inside.
      have listed : short.readings = readings ++ [reading] := listed
      obtain ⟨other, others, long_listed, front⟩ := readings_append_of_cut header trace step last more
      have long_listed : long.readings = readings ++ other :: others := long_listed
      have zero_filled (zeros : ∀ byte ∈ more, byte = 0) : long.readings = short.readings := by
        rw [listed]
        exact readings_append_zeros_of_cut header trace step last beyond zeros
      refine ⟨fun whole => ?_, fun _ _ => ⟨?_, ?_⟩, fun zeros => ?_⟩
      · exact absurd ended (whole _)
      · rw [listed, List.dropLast_concat, long_listed]
        exact List.prefix_append _ _
      · intro final found
        rw [listed, List.getLast?_concat, Option.some.injEq] at found
        refine ⟨other, ?_, ?_⟩
        · rw [listed, long_listed, List.length_append, List.length_singleton, Nat.add_sub_cancel,
            List.getElem?_append_right (Nat.le_refl _), Nat.sub_self]
          rfl
        · rw [← found]
          exact front
      · rw [zero_filled zeros]
        exact ⟨List.prefix_refl _, fun _ _ => rfl⟩

end Telemetry
