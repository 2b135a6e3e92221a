import Telemetry.Proofs.Bits.Refinement

/-!
# Streams that agree

Two streams agree up to a place if their cursors stand together and the same bits come before that
place, zeros going on behind the end of a buffer (`BitStream.Agree`). A read that stays before the place
gives the same on both, and leaves them in agreement. A buffer agrees with a longer one up to its own
end, and for good if the longer one has nothing but zeros behind it.
-/

namespace Telemetry.BitStream

/-- The cursors stand together and the same bits come before `reach`. -/
structure Agree (reach : Nat) (s t : BitStream) : Prop where
  cursor : s.cursor = t.cursor
  bits : Bits.first reach (Bits.ofBytes s.bytes) = Bits.first reach (Bits.ofBytes t.bytes)

theorem ofBytes_zeros {bytes : List UInt8} (zeros : ∀ byte ∈ bytes, byte = 0) :
    Bits.ofBytes bytes = List.replicate (8 * bytes.length) false := by
  induction bytes with
  | nil => rfl
  | cons byte rest ih =>
    obtain ⟨rfl, others⟩ := List.forall_mem_cons.mp zeros
    have zero : Bits.ofByte 0 = List.replicate 8 false := by decide
    rw [Bits.ofBytes_cons, ih others, zero, List.replicate_append_replicate, List.length_cons,
      Nat.mul_succ, Nat.add_comm]

theorem agree_append (bytes more : List UInt8) :
    (ofBytes bytes).Agree (8 * bytes.length) (ofBytes (bytes ++ more)) := by
  have length := Bits.length_ofBytes bytes
  refine ⟨rfl, ?_⟩
  show Bits.first _ (Bits.ofBytes bytes) = Bits.first _ (Bits.ofBytes (bytes ++ more))
  rw [Bits.ofBytes_append, Bits.first_append_left _ length, Bits.first_of_le (Nat.le_of_eq length.symm),
    List.take_of_length_le (Nat.le_of_eq length)]

theorem agree_append_zeros (bytes : List UInt8) {more : List UInt8}
    (zeros : ∀ byte ∈ more, byte = 0) (reach : Nat) :
    (ofBytes bytes).Agree reach (ofBytes (bytes ++ more)) := by
  refine ⟨rfl, ?_⟩
  show Bits.first _ (Bits.ofBytes bytes) = Bits.first _ (Bits.ofBytes (bytes ++ more))
  rw [Bits.ofBytes_append, ofBytes_zeros zeros, Bits.first_append_replicate]

namespace Agree

variable {reach : Nat} {s t : BitStream}

theorem skip (h : s.Agree reach t) (count : Nat) : (s.skip count).Agree reach (t.skip count) :=
  ⟨congrArg (· + count) h.cursor, h.bits⟩

/-- A number read before the place is the same. -/
theorem readUInt (h : s.Agree reach t) {count : Nat} (narrow : count ≤ 64)
    (within : s.cursor + count ≤ reach) : (s.readUInt count).1 = (t.readUInt count).1 := by
  rw [s.readUInt_fst narrow, t.readUInt_fst narrow, ← first_drop_bytes, ← first_drop_bytes,
    ← Bits.first_drop_first _ within, h.bits, h.cursor, Bits.first_drop_first]
  rw [← h.cursor]
  exact within

end Agree

end Telemetry.BitStream
