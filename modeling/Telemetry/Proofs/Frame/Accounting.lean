import Telemetry.Proofs.Frame.Trace

/-!
# Where a frame ends

The cursor moves on whether or not there are bits to read, so at any time it stands behind the header
and the widths of the fields delivered so far (`Reads.stream`), and each of these fields began with its
own header inside the frame (`Reads.inside`). How the reading of a frame ended thus tells to the bit how
far its fields reach (`read_accounts`): short of the end by the trailing bits, short of an end marker or
an unassigned key that can be found behind them, or past the end by the missing bits, and then only with
the body of the last field.
-/

namespace Telemetry

namespace Frame

/-! ## Room and keys -/

section Cursor

variable {positional : Bool} {s : BitStream}

theorem keyBits_le_headerBits (positional : Bool) :
    Field.keyBits ≤ Field.headerBits positional := by
  cases positional <;> decide

theorem fieldKey_eq (positional : Bool) (s : BitStream) :
    fieldKey positional s = UInt8.ofNat
      ((s.skip (Field.headerBits positional - Field.keyBits)).readUInt Field.keyBits).1 := by
  cases positional <;> rfl

/-- The key of a field stands in the last six bits of its header. -/
theorem toNat_fieldKey_eq (positional : Bool) (s : BitStream) :
    (fieldKey positional s).toNat =
        Bits.numberAt s.bytes (s.cursor + (Field.headerBits positional - Field.keyBits)) Field.keyBits ∧
      (fieldKey positional s).toNat < 64 := by
  have small := Bits.numberAt_lt s.bytes
    (s.cursor + (Field.headerBits positional - Field.keyBits)) Field.keyBits
  have small : _ < 64 := small
  rw [fieldKey_eq, BitStream.readUInt_eq_numberAt _ (by decide), BitStream.bytes_skip,
    BitStream.cursor_skip, UInt8.toNat_ofNat_of_lt' (Nat.lt_trans small (by decide))]
  exact ⟨rfl, small⟩

/-- The number in the last six of the first `place` bits. -/
def keyBefore (bytes : List UInt8) (place : Nat) : Nat :=
  Bits.value (((Bits.ofBytes bytes).drop (place - Field.keyBits)).take Field.keyBits)

/-- A header that lies inside the buffer ends with the key. -/
theorem toNat_fieldKey (ahead : s.cursor + Field.headerBits positional < s.size) :
    keyBefore s.bytes (s.cursor + Field.headerBits positional) = (fieldKey positional s).toNat ∧
      (fieldKey positional s).toNat < 64 := by
  obtain ⟨number, small⟩ := toNat_fieldKey_eq positional s
  have wide := keyBits_le_headerBits positional
  have place : s.cursor + (Field.headerBits positional - Field.keyBits) =
      s.cursor + Field.headerBits positional - Field.keyBits := by omega
  have long : Field.keyBits ≤ ((Bits.ofBytes s.bytes).drop
      (s.cursor + Field.headerBits positional - Field.keyBits)).length := by
    rw [List.length_drop, Bits.length_ofBytes, ← BitStream.size]
    omega
  refine ⟨?_, small⟩
  rw [number, keyBefore, Bits.numberAt, place, Bits.first_of_le long]

end Cursor

/-! ## Traces -/

theorem span_append (positional : Bool) (a b : List Reading) :
    span positional (a ++ b) = span positional a + span positional b := by
  simp [span]

theorem span_singleton (positional : Bool) (reading : Reading) :
    span positional [reading] = Field.headerBits positional + reading.bodyWidth := by
  simp [span]

section Account

variable {positional : Bool} {sink : Sink} {p q r : Progress} {s t u : BitStream}
  {readings : List Reading}

/-- Each field of a trace began with its header inside the frame. -/
theorem Reads.inside (h : Reads positional p s readings q t) :
    ∀ i < readings.length,
      s.cursor + span positional (readings.take i) + Field.headerBits positional < s.size := by
  induction h with
  | done =>
    intro i hi
    exact absurd hi (Nat.not_lt_zero i)
  | @field p q r s t u reading rest step delivered _ _ ih =>
    obtain ⟨ahead, moved⟩ := nextField_moves step delivered
    intro i hi
    cases i with
    | zero => simpa [span] using ahead
    | succ i =>
      have later := ih i (Nat.lt_of_succ_lt_succ hi)
      have front := span_append positional [reading] (rest.take i)
      rw [span_singleton, List.singleton_append] at front
      rw [moved, BitStream.size_skip, BitStream.cursor_skip] at later
      rw [List.take_succ_cons, front]
      omega

/-- One more field, which may run past the end, began there too. -/
theorem Reads.snoc (trace : Reads positional p s readings q t)
    (step : nextField positional q t = .ok (r, u)) :
    ∃ reading, r.deliveries = p.deliveries ++ (readings ++ [reading]).map .field ∧
      u = s.skip (span positional (readings ++ [reading])) ∧
      s.cursor + span positional readings + Field.headerBits positional < s.size ∧
      ∀ i < (readings ++ [reading]).length,
        s.cursor + span positional ((readings ++ [reading]).take i) +
          Field.headerBits positional < s.size := by
  obtain ⟨reading, delivered⟩ := nextField_deliveries step
  obtain ⟨ahead, moved⟩ := nextField_moves step delivered
  rw [trace.stream] at ahead moved
  refine ⟨reading, ?_, ?_, ahead, ?_⟩
  · rw [delivered, trace.deliveries, List.map_append, List.append_assoc]
    rfl
  · rw [moved, BitStream.skip_skip, span_append, span_singleton]
  · intro i hi
    rw [List.length_append, List.length_singleton] at hi
    by_cases earlier : i < readings.length
    · rw [List.take_append_of_le_length (Nat.le_of_lt earlier)]
      exact trace.inside i earlier
    · have last : i = readings.length := by omega
      rw [last, List.take_left]
      exact ahead

/-- What an ending tells of the fields behind a header that lies inside the frame. -/
theorem Reads.accounts {ending : FrameEnd} (trace : Reads positional p s readings q t)
    (stop : Stops positional sink q t r ending) (inside : s.overran = false) :
    ∃ all, r.deliveries = p.deliveries ++ all.map .field ∧
      (∀ i < all.length,
        s.cursor + span positional (all.take i) + Field.headerBits positional < s.size) ∧
      match ending with
      | .exhausted trailing => s.cursor + span positional all + trailing = s.size ∧
          trailing ≤ Field.headerBits positional
      | .endMarker => s.cursor + span positional all + Field.headerBits positional < s.size ∧
          keyBefore s.bytes (s.cursor + span positional all + Field.headerBits positional) = 0
      | .unknownKey key => s.cursor + span positional all + Field.headerBits positional < s.size ∧
          keyBefore s.bytes (s.cursor + span positional all + Field.headerBits positional) =
            key.toNat ∧ 44 ≤ key.toNat ∧ key.toNat ≤ 63
      | .truncated missing => s.cursor + span positional all = s.size + missing ∧ 1 ≤ missing ∧
          ∃ last, all.getLast? = some last ∧ missing < last.bodyWidth
      | .aborted => s.cursor + span positional all ≤ s.size ∧ sink r.deliveries = .stop := by
  have before := trace.not_overran inside
  rw [trace.stream, BitStream.overran_eq_false_iff] at before
  have before : s.cursor + span positional readings ≤ s.size := before
  cases stop with
  | refused step =>
    refine ⟨readings, trace.deliveries, trace.inside, ?_⟩
    rw [trace.stream] at step
    rcases nextField_error step with ⟨short, rfl⟩ | ⟨ahead, unassigned, rfl⟩
    · rw [BitStream.canContinue_iff_lt] at short
      have short : ¬ s.cursor + span positional readings + Field.headerBits positional < s.size := short
      show s.cursor + span positional readings + (s.size - (s.cursor + span positional readings)) =
        s.size ∧ s.size - (s.cursor + span positional readings) ≤ Field.headerBits positional
      omega
    · rw [BitStream.canContinue_iff_lt] at ahead
      obtain ⟨key, small⟩ := toNat_fieldKey ahead
      rw [Registry.isAssigned_iff] at unassigned
      by_cases marker : fieldKey positional (s.skip (span positional readings)) = Registry.endKey
      · rw [if_pos marker]
        rw [marker] at key
        exact ⟨ahead, key⟩
      · rw [if_neg marker]
        have nonzero : (fieldKey positional (s.skip (span positional readings))).toNat ≠ 0 :=
          fun zero => marker (UInt8.toNat_inj.mp zero)
        exact ⟨ahead, key, by omega, by omega⟩
  | @cut _ u step beyond =>
    obtain ⟨reading, delivered, moved, ahead, began⟩ := trace.snoc step
    refine ⟨readings ++ [reading], delivered, began, ?_⟩
    rw [moved, BitStream.overran_eq_true_iff] at beyond
    have beyond : s.size < s.cursor + span positional (readings ++ [reading]) := beyond
    have missed : missing u = s.cursor + span positional (readings ++ [reading]) - s.size := by
      rw [moved]; rfl
    have width := span_append positional readings [reading]
    rw [span_singleton] at width
    refine ⟨?_, ?_, reading, List.getLast?_concat, ?_⟩
    · omega
    · omega
    · omega
  | stopped step beyond verdict =>
    obtain ⟨reading, delivered, moved, -, began⟩ := trace.snoc step
    rw [moved, BitStream.overran_eq_false_iff] at beyond
    exact ⟨readings ++ [reading], delivered, began, beyond, verdict⟩

end Account

/-- **Where a frame ends.** Let `taken` be the bits of the header and of all fields delivered. Every
field began with its header inside the frame, and the ending tells how `taken` lies to the size of the
frame. Only a sink that stops sees a frame aborted. -/
theorem read_accounts (framing : Framing) (sink : Sink) (payload : List UInt8) :
    let r := read framing sink payload
    let positional := r.header.flags.isPositional
    let header := r.header.width
    let front := Field.headerBits positional
    let taken := header + span positional r.readings
    let size := 8 * payload.length
    (∀ i < r.readings.length, header + span positional (r.readings.take i) + front < size) ∧
    match r.ending with
    | .exhausted trailing => taken + trailing = size ∧ trailing ≤ front
    | .endMarker => taken + front < size ∧ keyBefore payload (taken + front) = 0
    | .unknownKey key => taken + front < size ∧ keyBefore payload (taken + front) = key.toNat ∧
        44 ≤ key.toNat ∧ key.toNat ≤ 63
    | .truncated missing => taken = size + missing ∧ 1 ≤ missing ∧
        ((r.readings = [] ∧ size < header) ∨
          ∃ last, r.readings.getLast? = some last ∧ missing < last.bodyWidth)
    | .aborted => taken ≤ size ∧ sink r.deliveries = .stop := by
  intro r positional header front taken size
  have headed : r.header = FrameHeader.ofPayload framing payload := header_read framing sink payload
  have cursor : (afterHeader framing payload).cursor = header := by
    rw [cursor_afterHeader, ← headed]
  cases beyond : (afterHeader framing payload).overran with
  | true =>
    -- Not even the header lies inside.
    obtain ⟨delivered, ending⟩ := read_of_overran sink beyond
    have none : r.readings = [] := readings_of_deliveries (delivered.trans (List.append_nil _).symm)
    have past : size < header := by
      rw [BitStream.overran_eq_true_iff, cursor] at beyond
      exact beyond
    have alone : taken = header := by
      show header + span positional r.readings = header
      rw [none]
      rfl
    have ending : r.ending = .truncated (header - size) := by
      rw [← cursor]
      exact ending
    rw [ending]
    refine ⟨fun i hi => ?_, ?_, ?_, Or.inl ⟨none, past⟩⟩
    · rw [none] at hi
      exact absurd hi (Nat.not_lt_zero i)
    · omega
    · omega
  | false =>
    obtain ⟨fields, p, t, q, trace, stop, delivered⟩ := read_trace sink beyond
    obtain ⟨all, listed, began, account⟩ := trace.accounts stop beyond
    have same : r.readings = all := readings_of_deliveries (delivered.trans listed)
    rw [← headed, cursor, ← same] at began account
    rw [← delivered] at account
    refine ⟨began, ?_⟩
    generalize (read framing sink payload).ending = ending at account ⊢
    cases ending with
    | truncated missing =>
      obtain ⟨total, positive, last⟩ := account
      exact ⟨total, positive, Or.inr last⟩
    | _ => exact account

end Frame

end Telemetry
