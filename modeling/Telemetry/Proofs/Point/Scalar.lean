import Mathlib.Algebra.Order.Ring.Nat
import Telemetry.Point.Scalar

/-!
# Scalars and their bits

A scalar that needs no more bytes than its kind is told by its kind and its bits (`Scalar.ofBits_toBits`), and
bits that a kind has room for are told by the scalar that they stand for (`Scalar.toBits_ofBits`). Two sorts of
values fall out of step: a character beyond the first 256 needs four bytes by its own count, but only its lowest
byte is kept; and any byte but zero stands for true, but only one of them is written for it.
-/

namespace Telemetry.Scalar

theorem toBits_lt (s : Scalar) : s.toBits < 2 ^ s.kind.bitWidth := by
  cases s with
  | int8 value => exact value.toUInt8.toNat_lt
  | uint8 value => exact value.toNat_lt
  | int16 value => exact value.toUInt16.toNat_lt
  | uint16 value => exact value.toNat_lt
  | int32 value => exact value.toUInt32.toNat_lt
  | uint32 value => exact value.toNat_lt
  | int64 value => exact value.toUInt64.toNat_lt
  | uint64 value => exact value.toNat_lt
  | binary32 value => exact value.bits.toNat_lt
  | binary64 value => exact value.bits.toNat_lt
  | bool value => cases value <;> decide
  | char value => exact Nat.mod_lt _ (by decide)

/-- A character beyond the first 256 needs more bytes than its kind offers, all else just as many. -/
theorem byteWidth_kind_le (s : Scalar) : s.kind.byteWidth ≤ s.byteWidth := by
  cases s with
  | char c =>
    show 1 ≤ if isLatin1 c then 1 else 4
    split <;> decide
  | _ => exact Nat.le_refl _

theorem kind_ofBits (kind : ScalarKind) (bits : Nat) : (ofBits kind bits).kind = kind := by
  cases kind <;> rfl

theorem byteWidth_char (c : Char) : (char c).byteWidth = if c.toNat < 256 then 1 else 4 := by
  simp [byteWidth, isLatin1]

/-- Only characters need another number of bytes than their kind. -/
theorem byteWidth_cases (s : Scalar) :
    s.byteWidth = s.kind.byteWidth ∨ ∃ c, s = char c ∧ 256 ≤ c.toNat ∧ s.byteWidth = 4 := by
  cases s with
  | char c =>
    rw [byteWidth_char]
    by_cases latin : c.toNat < 256
    · rw [if_pos latin]
      exact .inl rfl
    · rw [if_neg latin]
      exact .inr ⟨c, rfl, Nat.le_of_not_lt latin, rfl⟩
  | _ => exact .inl rfl

/-- A scalar that needs no more bytes than its kind is read back from its bits. -/
theorem ofBits_toBits {s : Scalar} (held : s.byteWidth = s.kind.byteWidth) :
    ofBits s.kind s.toBits = s := by
  cases s with
  | bool value => cases value <;> rfl
  | char c =>
    have latin : c.toNat < 256 := by
      by_contra beyond
      rw [byteWidth_char, if_neg beyond] at held
      cases held
    show char (Char.ofNat (c.toNat % 256 % 256)) = char c
    rw [Nat.mod_mod, Nat.mod_eq_of_lt latin, Char.ofNat_toNat]
  | _ => simp [kind, toBits, ofBits]

/-- Two scalars of one kind that a slot takes have the same bits if and only if they are the same, or are
characters beyond the first 256 with the same lowest byte, which only a slot of four bytes takes. -/
theorem toBits_eq_iff {kind : ScalarKind} {a b : Scalar} (same : a.kind = b.kind)
    (first : a.byteWidth = kind.byteWidth) (second : b.byteWidth = kind.byteWidth) :
    a.toBits = b.toBits ↔
      a = b ∨ ∃ c d, a = char c ∧ b = char d ∧ 256 ≤ c.toNat ∧ 256 ≤ d.toNat ∧
        c.toNat % 256 = d.toNat % 256 ∧ kind.byteWidth = 4 := by
  constructor
  · intro bits
    rcases byteWidth_cases a with held | ⟨c, rfl, beyond, four⟩
    · left
      have held' : b.byteWidth = b.kind.byteWidth := by rw [second, ← first, held, same]
      rw [← ofBits_toBits held, ← ofBits_toBits held', same, bits]
    · -- The other scalar is a character as well, and needs as many bytes.
      right
      rcases byteWidth_cases b with held | ⟨d, rfl, beyond', -⟩
      · rw [← same, second, ← first, four] at held
        cases held
      · exact ⟨c, d, rfl, rfl, beyond, beyond', bits, first.symm.trans four⟩
  · rintro (rfl | ⟨c, d, rfl, rfl, -, -, low, -⟩)
    · rfl
    · exact low

/-- A byte as a character is the character of that number. -/
theorem toNat_ofNat_of_lt {bits : Nat} (small : bits < 256) : (Char.ofNat bits).toNat = bits := by
  have valid : bits.isValidChar := .inl (by omega)
  rw [Char.ofNat, dif_pos valid]
  rfl

/-- Bits that a kind has room for are those of the scalar they stand for; of a truth value only zero and
one are. -/
theorem toBits_ofBits {kind : ScalarKind} {bits : Nat} (fits : bits < 2 ^ kind.bitWidth)
    (truth : kind = .bool → bits ≤ 1) : (ofBits kind bits).toBits = bits := by
  cases kind with
  | bool =>
    have cases : bits = 0 ∨ bits = 1 := by have := truth rfl; omega
    rcases cases with rfl | rfl <;> rfl
  | char =>
    have small : bits < 256 := fits
    show (Char.ofNat (bits % 256)).toNat % 256 = bits
    rw [Nat.mod_eq_of_lt small, toNat_ofNat_of_lt small, Nat.mod_eq_of_lt small]
  | int8 | uint8 | int16 | uint16 | int32 | uint32 | int64 | uint64 | binary32 | binary64 =>
    simpa [ofBits, toBits, ScalarKind.bitWidth, ScalarKind.byteWidth] using fits

theorem byteWidth_ofBits (kind : ScalarKind) (bits : Nat) : (ofBits kind bits).byteWidth = kind.byteWidth := by
  cases kind with
  | char =>
    have small : bits % 256 < 256 := Nat.mod_lt _ (by decide)
    show (char (Char.ofNat (bits % 256))).byteWidth = 1
    rw [byteWidth_char, toNat_ofNat_of_lt small, if_pos small]
  | _ => rfl

/-- What stands for a number has the kind that was asked for and needs as many bytes. -/
theorem kind_ofBinary64? {kind : ScalarKind} {x : Binary64} {s : Scalar} (h : ofBinary64? kind x = some s) :
    s.kind = kind ∧ s.byteWidth = kind.byteWidth := by
  obtain ⟨bits, rfl⟩ : ∃ bits, s = ofBits kind bits := by
    unfold ofBinary64? at h
    split at h
    · cases h
    · cases kind with
      | binary64 =>
        cases h
        exact ⟨x.bits.toNat, by rw [ofBits, UInt64.ofNat_toNat]⟩
      | binary32 =>
        dsimp only at h
        split at h
        · cases h
          exact ⟨(Binary32.ofBinary64 x).bits.toNat, by rw [ofBits, UInt32.ofNat_toNat]⟩
        · cases h
      | _ =>
        simp only [integerRange?] at h
        split at h
        · cases h
          exact ⟨_, rfl⟩
        · cases h
  exact ⟨kind_ofBits _ _, byteWidth_ofBits _ _⟩

/-- A scalar that is no character beyond the first 256 needs the bytes of its kind. -/
theorem byteWidth_of_latin {a : Scalar} (latin : ∀ c, a = char c → c.toNat < 256) :
    a.byteWidth = a.kind.byteWidth := by
  rcases byteWidth_cases a with same | ⟨c, rfl, beyond, -⟩
  · exact same
  · exact absurd (latin c rfl) (Nat.not_lt.mpr beyond)

end Telemetry.Scalar
