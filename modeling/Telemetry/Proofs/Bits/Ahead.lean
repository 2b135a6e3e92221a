import Telemetry.Proofs.Bits.Refinement

/-!
# What lies ahead of the cursor

A reader is followed along the bits that it has yet to read: a stream is ahead of some bits if they
are what follows its cursor up to the end of the buffer (`BitStream.Ahead`). Reading a number that
was written there gives it back and leaves the stream ahead of the rest (`Ahead.readUInt`). Since all
bits ahead lie in the buffer, a stream that is ahead of any has not run past its end.
-/

namespace Telemetry.BitStream

/-- The bits between the cursor and the end of the buffer are these. -/
structure Ahead (s : BitStream) (bits : List Bool) : Prop where
  inside : s.cursor + bits.length = s.size
  bits : (Bits.ofBytes s.bytes).drop s.cursor = bits

theorem ahead_ofBytes (bytes : List UInt8) : (ofBytes bytes).Ahead (Bits.ofBytes bytes) := by
  refine ⟨?_, rfl⟩
  rw [Bits.length_ofBytes]
  exact Nat.zero_add _

namespace Ahead

variable {s : BitStream} {bits : List Bool}

theorem not_overran (h : s.Ahead bits) : s.overran = false := by
  have := h.inside
  rw [overran, decide_eq_false_iff_not]
  omega

theorem remaining (h : s.Ahead bits) : s.remaining = bits.length := by
  have := h.inside
  unfold BitStream.remaining
  omega

theorem canContinue_iff (h : s.Ahead bits) (header : Nat) :
    s.canContinue header = true ↔ header < bits.length := by
  have := h.inside
  rw [canContinue, decide_eq_true_iff]
  omega

theorem skip {front rest : List Bool} (h : s.Ahead (front ++ rest)) :
    (s.skip front.length).Ahead rest := by
  obtain ⟨inside, bits⟩ := h
  refine ⟨?_, ?_⟩
  · rw [List.length_append, ← Nat.add_assoc] at inside
    exact inside
  · rw [bytes_skip, cursor_skip, ← List.drop_drop, bits, List.drop_left]

/-- A number written ahead of the cursor is read back. -/
theorem readUInt {count value : Nat} {rest : List Bool}
    (h : s.Ahead (Bits.ofNat count value ++ rest)) (narrow : count ≤ 64) (fits : value < 2 ^ count) :
    (s.readUInt count).1 = value ∧ (s.readUInt count).2.Ahead rest := by
  refine ⟨?_, ?_⟩
  · rw [s.readUInt_fst narrow, ← first_drop_bytes, h.bits,
      Bits.first_append_left rest (Bits.length_ofNat count value), Bits.value_ofNat_of_lt fits]
  · have behind := h.skip
    rwa [Bits.length_ofNat] at behind

end Ahead

end Telemetry.BitStream
