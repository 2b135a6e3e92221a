import Telemetry.Proofs.Frame.Layout

/-!
# What the slot of a scalar holds

A raw point takes every scalar that needs as many bytes as it offers. A scalar that needs no more bytes
than its kind is told by its kind and its bits (`Scalar.ofBits_toBits`), so two of one kind that are
written the same are the same. A character beyond the first 256 needs four bytes by its own count, but
only its lowest byte is written: a slot of four bytes takes it and cuts it down. These characters are the
only scalars that a slot does not hold whole (`Field.write_scalar_eq_iff`).
-/

namespace Telemetry

namespace Field

section Slots

variable {key : UInt8} {kind : ScalarKind}

/-- A raw point takes the scalars that need as many bytes as it offers, and writes their bits. -/
theorem write_scalar_ok_iff (slot : (Registry.lookup key).encoding = .raw kind) (s : BitStream)
    (position : Option UInt8) (a : Scalar) (t : BitStream) :
    write s (.scalar a) key position = .ok t ↔ a.byteWidth = kind.byteWidth ∧
      writeBody (writeHeader s key position) [(a.toBits, kind.bitWidth)] = t := by
  unfold write body
  rw [slot]
  dsimp only
  by_cases fits : a.byteWidth = kind.byteWidth
  · rw [if_pos fits, Except.map, Except.ok.injEq]
    exact (and_iff_right fits).symm
  · rw [if_neg fits, Except.map]
    constructor
    · intro written
      cases written
    · rintro ⟨same, -⟩
      exact absurd same fits

/-- The bits that a slot takes are told from the stream behind them. -/
theorem writeBody_slot_inj {s : BitStream} {count x y : Nat} (narrow : count ≤ 64) (hx : x < 2 ^ count)
    (hy : y < 2 ^ count) (same : writeBody s [(x, count)] = writeBody s [(y, count)]) : x = y := by
  have fits (z : Nat) : ∀ number width, (number, width) ∈ [(z, count)] → width ≤ 64 := by
    intro number width member
    cases List.mem_singleton.mp member
    exact narrow
  have bits := congrArg BitStream.written same
  rw [written_writeBody s (fits x), written_writeBody s (fits y)] at bits
  have numbers := congrArg Bits.value (List.append_cancel_left bits)
  simp only [bodyBits, List.flatMap_singleton] at numbers
  rwa [Bits.value_ofNat_of_lt hx, Bits.value_ofNat_of_lt hy] at numbers

/-- **A slot holds a scalar whole unless it is a character.** Two scalars of one kind that a raw point
takes leave the same stream, from whatever stream and under whatever position, if and only if they are the
same, or both are characters beyond the first 256 with the same lowest byte and the slot has four bytes. -/
theorem write_scalar_eq_iff (slot : (Registry.lookup key).encoding = .raw kind) {a b : Scalar}
    (same : a.kind = b.kind) (s : BitStream) (position : Option UInt8) :
    (∃ t, write s (.scalar a) key position = .ok t ∧ write s (.scalar b) key position = .ok t) ↔
      a.byteWidth = kind.byteWidth ∧ b.byteWidth = kind.byteWidth ∧
        (a = b ∨ ∃ c d, a = .char c ∧ b = .char d ∧ 256 ≤ c.toNat ∧ 256 ≤ d.toNat ∧
          c.toNat % 256 = d.toNat % 256 ∧ kind.byteWidth = 4) := by
  simp only [write_scalar_ok_iff slot]
  constructor
  · rintro ⟨t, ⟨first, written⟩, second, written'⟩
    refine ⟨first, second, (Scalar.toBits_eq_iff same first second).mp ?_⟩
    have below (c : Scalar) (fits : c.byteWidth = kind.byteWidth) : c.toBits < 2 ^ kind.bitWidth := by
      refine Nat.lt_of_lt_of_le c.toBits_lt (Nat.pow_le_pow_right (by decide) ?_)
      exact Nat.mul_le_mul_left 8 (fits ▸ c.byteWidth_kind_le)
    have narrow : kind.bitWidth ≤ 64 := by cases kind <;> decide
    exact writeBody_slot_inj narrow (below a first) (below b second) (written.trans written'.symm)
  · rintro ⟨first, second, alike⟩
    have bits := (Scalar.toBits_eq_iff same first second).mpr alike
    exact ⟨_, ⟨first, rfl⟩, second, by rw [bits]⟩

/-- A counter of 32 bits takes two characters and writes them as one. -/
theorem write_scalar_eq_iff_counter :
    (Registry.lookup 5).encoding = .raw .uint32 ∧ (Scalar.char 'Ā').kind = (Scalar.char 'Ȁ').kind ∧
      ∃ t, write .empty (.scalar (.char 'Ā')) 5 none = .ok t ∧
        write .empty (.scalar (.char 'Ȁ')) 5 none = .ok t := by
  have slot : (Registry.lookup 5).encoding = .raw .uint32 := by rfl
  have same : (Scalar.char 'Ā').kind = (Scalar.char 'Ȁ').kind := by decide
  refine ⟨slot, same, (write_scalar_eq_iff slot same .empty none).mpr ⟨rfl, rfl, .inr ?_⟩⟩
  exact ⟨'Ā', 'Ȁ', rfl, rfl, by decide, by decide, by decide, rfl⟩

/-- What is taken may be cut down: two characters leave the same stream behind. -/
theorem write_scalar_cut_down :
    ¬ ∀ (key : UInt8) (kind : ScalarKind), (Registry.lookup key).encoding = .raw kind →
      ∀ (s t : BitStream) (position : Option UInt8) (a b : Scalar), a.kind = b.kind →
        write s (.scalar a) key position = .ok t → write s (.scalar b) key position = .ok t →
        a = b := by
  intro whole
  have slot : (Registry.lookup 25).encoding = .raw .uint32 := by rfl
  have first := (write_scalar_ok_iff slot .empty none (.char 'Ā') _).mpr ⟨rfl, rfl⟩
  have second := (write_scalar_ok_iff slot .empty none (.char 'Ȁ') _).mpr ⟨rfl, rfl⟩
  cases whole 25 .uint32 slot .empty _ none (.char 'Ā') (.char 'Ȁ') rfl first second

end Slots

end Field

end Telemetry
