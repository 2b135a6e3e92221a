import Telemetry.Frame.Reading
import Telemetry.Proofs.Bits.Refinement

/-!
# What a sink is told of message identifiers

A sink is handed the header first, if a message identifier is expected, and then nothing but fields
(`Frame.read_deliveries`). Whether one is expected depends on the framing and the flags alone, so a
frame that is cut off before its identifier is announced too, with zero for the identifier: those
frames, and no others, break the rule that an announced identifier stands in the frame
(`Frame.read_announces`).
-/

namespace Telemetry

/-! ## Whole bytes -/

/-- A byte read at a byte's start is that byte, and zero behind the last one. -/
theorem BitStream.readUInt_byte (bytes : List UInt8) (i : Nat) :
    (((ofBytes bytes).skip (8 * i)).readUInt 8).1 = (bytes.getD i 0).toNat := by
  have place : ((ofBytes bytes).skip (8 * i)).cursor = 8 * i := Nat.zero_add _
  rw [readUInt_fst _ (by decide), written_skip, written_ofBytes, place, ← Bits.ofBytes_drop,
    Bits.first_ofBytes, Nat.sub_self, Bits.first_zero, List.append_nil,
    List.take_of_length_le (Bits.length_ofByte _).le, Bits.value_ofByte]
  simp

/-- The header that a payload is read as. -/
def FrameHeader.ofPayload (framing : Framing) (payload : List UInt8) : FrameHeader where
  flags := ⟨payload.getD 0 0⟩
  messageId :=
    if framing.expectsMessageId ⟨payload.getD 0 0⟩ then some (payload.getD 1 0) else none

theorem FrameHeader.read_ofBytes (framing : Framing) (payload : List UInt8) :
    (read framing (.ofBytes payload)).1 = ofPayload framing payload := by
  have flags : ((BitStream.ofBytes payload).readUInt 8).1 = (payload.getD 0 0).toNat :=
    BitStream.readUInt_byte payload 0
  have id : (((BitStream.ofBytes payload).readUInt 8).2.readUInt 8).1 = (payload.getD 1 0).toNat :=
    BitStream.readUInt_byte payload 1
  unfold read ofPayload
  simp only [flagsBits, messageIdBits, flags, id, UInt8.ofNat_toNat]
  split <;> rfl

namespace Frame

/-! ## Fields only -/

theorem nextField_deliveries {positional : Bool} {p q : Progress} {s rest : BitStream}
    (h : nextField positional p s = .ok (q, rest)) :
    ∃ reading, q.deliveries = p.deliveries ++ [.field reading] := by
  unfold nextField at h
  split at h
  · dsimp only at h
    split at h
    · cases h
    · cases h
      cases (readFieldHeader positional s).1 with
      | none => exact ⟨_, rfl⟩
      | some position => exact ⟨_, rfl⟩
  · cases h

/-- Once fields are read, a sink is handed fields and nothing else. -/
theorem readFields_deliveries (positional : Bool) (sink : Sink) (s : BitStream) (p : Progress) :
    ∃ fields : List Reading,
      (readFields positional sink s p).1.deliveries = p.deliveries ++ fields.map .field := by
  -- The bits ahead of the cursor become fewer with every field.
  induction ahead : s.size - s.cursor using Nat.strongRecOn generalizing s p with
  | _ _ ih =>
    cases step : nextField positional p s with
    | error ending =>
      rw [readFields_of_error step]
      exact ⟨[], (List.append_nil _).symm⟩
    | ok next =>
      obtain ⟨q, rest⟩ := next
      obtain ⟨reading, delivered⟩ := nextField_deliveries step
      have alone : q.deliveries = p.deliveries ++ [reading].map .field := delivered
      rw [readFields_of_ok step]
      split
      · exact ⟨[reading], alone⟩
      · split
        · exact ⟨[reading], alone⟩
        · obtain ⟨others, later⟩ := ih _ (ahead ▸ nextField_closer step) rest q rfl
          refine ⟨reading :: others, ?_⟩
          rw [later, delivered, List.append_assoc]
          rfl

theorem readFields_deliveries_of_ok {positional : Bool} {p q : Progress} {s t : BitStream} (sink : Sink)
    (step : nextField positional p s = .ok (q, t)) :
    ∃ others : List Reading,
      (readFields positional sink s p).1.deliveries = q.deliveries ++ others.map .field := by
  rw [readFields_of_ok step]
  split
  · exact ⟨[], (List.append_nil _).symm⟩
  · split
    · exact ⟨[], (List.append_nil _).symm⟩
    · exact readFields_deliveries positional sink t q

/-- What a sink is handed before all fields. -/
def announcement (framing : Framing) (payload : List UInt8) : List Delivery :=
  if framing.expectsMessageId ⟨payload.getD 0 0⟩ then
    [.messageId ⟨⟨payload.getD 0 0⟩, some (payload.getD 1 0)⟩]
  else []

theorem read_deliveries (framing : Framing) (sink : Sink) (payload : List UInt8) :
    ∃ fields : List Reading,
      (read framing sink payload).deliveries = announcement framing payload ++ fields.map .field := by
  have header := FrameHeader.read_ofBytes framing payload
  rcases opened : FrameHeader.read framing (.ofBytes payload) with ⟨found, s⟩
  rw [opened] at header
  have start : (if found.messageId.isSome then [Delivery.messageId found] else []) =
      announcement framing payload := by
    rw [show found = _ from header, FrameHeader.ofPayload, announcement]
    split <;> rfl
  simp only [read, opened, start]
  split
  · exact ⟨[], (List.append_nil _).symm⟩
  · exact readFields_deliveries _ sink s _

/-! ## Identifiers that are not there -/

/-- **What is announced.** At most one header is, before all fields, and it carries the byte after
the flags. That byte is in the frame unless an identifier is expected of a frame without one: then
zero is announced. -/
theorem read_announces (framing : Framing) (sink : Sink) (payload : List UInt8) :
    (∃ fields : List Reading, (read framing sink payload).deliveries =
      (if framing.expectsMessageId ⟨payload.getD 0 0⟩ then
        [.messageId ⟨⟨payload.getD 0 0⟩, some (payload.getD 1 0)⟩] else []) ++ fields.map .field) ∧
    ((∀ header, .messageId header ∈ (read framing sink payload).deliveries →
        2 ≤ payload.length ∧ header.messageId = payload[1]?) ↔
      ¬ (framing.expectsMessageId ⟨payload.getD 0 0⟩ = true ∧ payload.length < 2)) := by
  obtain ⟨fields, delivered⟩ := read_deliveries framing sink payload
  refine ⟨⟨fields, delivered⟩, ?_⟩
  have announced (header : FrameHeader) : .messageId header ∈ (read framing sink payload).deliveries ↔
      framing.expectsMessageId ⟨payload.getD 0 0⟩ = true ∧
        header = ⟨⟨payload.getD 0 0⟩, some (payload.getD 1 0)⟩ := by
    rw [delivered, announcement]
    split <;> simp_all
  constructor
  · rintro within ⟨expected, short⟩
    obtain ⟨long, -⟩ := within _ ((announced _).mpr ⟨expected, rfl⟩)
    omega
  · intro whole header member
    obtain ⟨expected, rfl⟩ := (announced header).mp member
    have long : 2 ≤ payload.length := by
      by_contra short
      exact whole ⟨expected, by omega⟩
    refine ⟨long, ?_⟩
    have second : payload[1]? = some payload[1] := List.getElem?_eq_getElem long
    simp only [second, List.getD_eq_getElem?_getD, Option.getD_some]

/-- A response cut off after its flags announces an identifier that it does not have. -/
theorem read_announces_missing :
    ¬ ∀ (framing : Framing) (sink : Sink) (payload : List UInt8) (header : FrameHeader),
      .messageId header ∈ (read framing sink payload).deliveries →
        2 ≤ payload.length ∧ header.messageId = payload[1]? := by
  intro always
  have announced : .messageId (.response 0) ∈ (read .fromFlags Sink.collect [4]).deliveries := by
    decide +kernel
  exact absurd (always _ _ _ _ announced).1 (by decide)

end Frame

end Telemetry
