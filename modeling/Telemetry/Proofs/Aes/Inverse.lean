import Mathlib.Data.Fintype.EquivFin
import Mathlib.Data.Fintype.Pi
import Mathlib.Tactic.IntervalCases
import Telemetry.Aes.Block

/-!
# Decryption undoes encryption

Each layer of a round has an inverse: substitution by its 256 cases, the rotation of rows by the
arithmetic of places, the mixing of columns because the product of the two circulant matrices is the
identity (`unmix_mix`), and the sum with a key because a key added twice cancels. So the rounds undo
one another under any list of round keys (`decryptRounds_encryptRounds`). Encryption thus sends no two
blocks to one, and as there are only finitely many it undoes decryption too (`encrypt_decrypt`).
-/

namespace Telemetry.Aes

/-! ## The field -/

/-- A statement about all bytes is one about the 256 numbers that they hold. -/
theorem forall_byte {p : UInt8 → Prop} (h : ∀ n < 256, p (UInt8.ofNat n)) (a : UInt8) : p a := by
  have := h a.toNat a.toNat_lt
  rwa [UInt8.ofNat_toNat] at this

/-- `mulLow` on the numbers that bytes hold, where a search through all bytes is quick. -/
def mulLowNat : (steps : Nat) → Nat → Nat → Nat
  | 0, _, _ => 0
  | steps + 1, a, b => (b % 2 * a) ^^^ mulLowNat steps ((2 * a) ^^^ (a / 128 * 0x11B)) (b / 2)

theorem toNat_timesX : ∀ a : UInt8, (timesX a).toNat = (2 * a.toNat) ^^^ (a.toNat / 128 * 0x11B) :=
  forall_byte (by decide +kernel)

theorem toNat_shiftRight_one : ∀ b : UInt8, (b >>> 1).toNat = b.toNat / 2 :=
  forall_byte (by decide +kernel)

theorem and_one_eq_zero_iff : ∀ b : UInt8, b &&& 1 = 0 ↔ b.toNat % 2 = 0 :=
  forall_byte (by decide +kernel)

theorem toNat_mulLow (steps : Nat) (a b : UInt8) :
    (mulLow steps a b).toNat = mulLowNat steps a.toNat b.toNat := by
  induction steps generalizing a b with
  | zero => rfl
  | succ steps ih =>
    have term : (if b &&& 1 = 0 then 0 else a).toNat = b.toNat % 2 * a.toNat := by
      split
      next even => rw [(and_one_eq_zero_iff b).mp even]; simp
      next odd =>
        rw [and_one_eq_zero_iff] at odd
        rw [Nat.mod_two_ne_zero.mp odd, Nat.one_mul]
    rw [mulLow, mulLowNat, UInt8.toNat_xor, ih, toNat_timesX, toNat_shiftRight_one, term]

/-! ## The substitution -/

/-- `inverse` on the numbers that bytes hold. -/
def inverseNat (a : Nat) : Nat :=
  let mul := mulLowNat 8
  let a2 := mul a a
  let a4 := mul a2 a2
  let a8 := mul a4 a4
  let a16 := mul a8 a8
  let a32 := mul a16 a16
  let a64 := mul a32 a32
  let a128 := mul a64 a64
  mul (mul (mul a2 a4) (mul a8 a16)) (mul (mul a32 a64) a128)

theorem toNat_inverse (a : UInt8) : (inverse a).toNat = inverseNat a.toNat := by
  simp only [inverse, mul, toNat_mulLow, inverseNat]

theorem inverseNat_inverseNat : ∀ n < 256, inverseNat (inverseNat n) = n := by
  decide +kernel

theorem inverse_inverse (a : UInt8) : inverse (inverse a) = a := by
  rw [← UInt8.toNat_inj, toNat_inverse, toNat_inverse, inverseNat_inverseNat _ a.toNat_lt]

/-- The affine map of the substitution and the one of its undoing. -/
theorem unaffine_affine : ∀ b : UInt8,
    let c := b ^^^ rotateLeft b 1 ^^^ rotateLeft b 2 ^^^ rotateLeft b 3 ^^^ rotateLeft b 4 ^^^ 0x63
    rotateLeft c 1 ^^^ rotateLeft c 3 ^^^ rotateLeft c 6 ^^^ 0x05 = b :=
  forall_byte (by decide +kernel)

theorem unsubByte_subByte (a : UInt8) : unsubByte (subByte a) = a := by
  simp only [unsubByte, subByte, unaffine_affine, inverse_inverse]

/-! ## The mixing matrices -/

theorem and_one : ∀ a : UInt8, a &&& 1 = 0 ∨ a &&& 1 = 1 :=
  forall_byte (by decide +kernel)

theorem xor_and_one (a b : UInt8) : (a ^^^ b) &&& 1 = (a &&& 1) ^^^ (b &&& 1) := by
  rw [← UInt8.toBitVec_inj]
  ext i
  simp [Bool.and_xor_distrib_right]

theorem mulLow_xor (steps : Nat) (a b c : UInt8) :
    mulLow steps a (b ^^^ c) = mulLow steps a b ^^^ mulLow steps a c := by
  induction steps generalizing a b c with
  | zero => simp [mulLow]
  | succ steps ih =>
    have term : (if (b ^^^ c) &&& 1 = 0 then 0 else a) =
        (if b &&& 1 = 0 then 0 else a) ^^^ (if c &&& 1 = 0 then 0 else a) := by
      rw [xor_and_one]
      rcases and_one b with hb | hb <;> rcases and_one c with hc | hc <;> simp [hb, hc]
    rw [mulLow, mulLow, mulLow, UInt8.shiftRight_xor, ih, term]
    ac_rfl

/-- Multiplication distributes over the sum. -/
theorem mul_xor (a b c : UInt8) : mul a (b ^^^ c) = mul a b ^^^ mul a c :=
  mulLow_xor 8 a b c

/-- The entries of the product of the two mixing matrices: one on the diagonal and zero beside it. -/
theorem unmix_mix_entries (x : UInt8) :
    mul 14 (mul 2 x) ^^^ mul 11 (mul 1 x) ^^^ mul 13 (mul 1 x) ^^^ mul 9 (mul 3 x) = x ∧
    mul 14 (mul 3 x) ^^^ mul 11 (mul 2 x) ^^^ mul 13 (mul 1 x) ^^^ mul 9 (mul 1 x) = 0 ∧
    mul 14 (mul 1 x) ^^^ mul 11 (mul 3 x) ^^^ mul 13 (mul 2 x) ^^^ mul 9 (mul 1 x) = 0 ∧
    mul 14 (mul 1 x) ^^^ mul 11 (mul 1 x) ^^^ mul 13 (mul 3 x) ^^^ mul 9 (mul 2 x) = 0 := by
  have entries : ∀ n < 256, let m := mulLowNat 8
      m 14 (m 2 n) ^^^ m 11 (m 1 n) ^^^ m 13 (m 1 n) ^^^ m 9 (m 3 n) = n ∧
      m 14 (m 3 n) ^^^ m 11 (m 2 n) ^^^ m 13 (m 1 n) ^^^ m 9 (m 1 n) = 0 ∧
      m 14 (m 1 n) ^^^ m 11 (m 3 n) ^^^ m 13 (m 2 n) ^^^ m 9 (m 1 n) = 0 ∧
      m 14 (m 1 n) ^^^ m 11 (m 1 n) ^^^ m 13 (m 3 n) ^^^ m 9 (m 2 n) = 0 := by
    decide +kernel
  simp only [← UInt8.toNat_inj, UInt8.toNat_xor, mul, toNat_mulLow]
  exact entries _ x.toNat_lt

/-- A mixed column unmixed: the bytes in the order in which they follow the one asked for. -/
theorem unmix_mix (w x y z : UInt8) :
    mul 14 (mul 2 w ^^^ mul 3 x ^^^ mul 1 y ^^^ mul 1 z) ^^^
    mul 11 (mul 2 x ^^^ mul 3 y ^^^ mul 1 z ^^^ mul 1 w) ^^^
    mul 13 (mul 2 y ^^^ mul 3 z ^^^ mul 1 w ^^^ mul 1 x) ^^^
    mul 9 (mul 2 z ^^^ mul 3 w ^^^ mul 1 x ^^^ mul 1 y) = w := by
  obtain ⟨diagonal, -, -, -⟩ := unmix_mix_entries w
  obtain ⟨-, beside, -, -⟩ := unmix_mix_entries x
  obtain ⟨-, -, opposite, -⟩ := unmix_mix_entries y
  obtain ⟨-, -, -, before⟩ := unmix_mix_entries z
  calc
    _ = (mul 14 (mul 2 w) ^^^ mul 11 (mul 1 w) ^^^ mul 13 (mul 1 w) ^^^ mul 9 (mul 3 w)) ^^^
        (mul 14 (mul 3 x) ^^^ mul 11 (mul 2 x) ^^^ mul 13 (mul 1 x) ^^^ mul 9 (mul 1 x)) ^^^
        (mul 14 (mul 1 y) ^^^ mul 11 (mul 3 y) ^^^ mul 13 (mul 2 y) ^^^ mul 9 (mul 1 y)) ^^^
        (mul 14 (mul 1 z) ^^^ mul 11 (mul 1 z) ^^^ mul 13 (mul 3 z) ^^^ mul 9 (mul 2 z)) := by
      simp only [mul_xor]
      ac_rfl
    _ = w := by rw [diagonal, beside, opposite, before]; simp

namespace Block

/-! ## The layers of a round -/

theorem add_add_cancel (s key : Block) : (s.add key).add key = s := by
  refine Vector.ext fun i hi => ?_
  rw [add, add, Vector.getElem_zipWith, Vector.getElem_zipWith, UInt8.xor_assoc, UInt8.xor_self,
    UInt8.xor_zero]

theorem unsubBytes_subBytes (s : Block) : s.subBytes.unsubBytes = s := by
  ext i hi
  simp [subBytes, unsubBytes, unsubByte_subByte]

theorem unshiftRows_shiftRows (s : Block) : s.shiftRows.unshiftRows = s := by
  ext i hi
  have row : (i + 4 * 3 * (i % 4)) % 16 % 4 = i % 4 := by omega
  have place : ((i + 4 * 3 * (i % 4)) % 16 + 4 * 1 * (i % 4)) % 16 = i := by omega
  simp only [unshiftRows, shiftRows, rotateRows, Vector.getElem_ofFn, row, place]

theorem unmixColumns_mixColumns (s : Block) : s.mixColumns.unmixColumns = s := by
  refine Vector.ext fun i hi => ?_
  obtain ⟨column, row, rfl, below⟩ : ∃ column row, i = 4 * column + row ∧ row < 4 :=
    ⟨i / 4, i % 4, by omega, by omega⟩
  simp only [unmixColumns, mixColumns, mixWith, Vector.getElem_ofFn]
  -- The row only decides with which byte of the column the identity starts.
  interval_cases row <;> simp only [Nat.mul_add_div, Nat.mul_add_mod, Nat.reduceMod,
    Nat.reduceDiv, Nat.reduceAdd, Nat.add_zero, Nat.zero_add, Nat.ofNat_pos, Nat.mul_mod_right,
    Nat.mul_div_right] <;> exact unmix_mix _ _ _ _

end Block

/-! ## The rounds -/

namespace Cipher

/-- A round undone. -/
theorem decryptRound_encryptRound (key s : Block) :
    ((s.subBytes.shiftRows.mixColumns.add key).add key).unmixColumns.unshiftRows.unsubBytes = s := by
  rw [Block.add_add_cancel, Block.unmixColumns_mixColumns, Block.unshiftRows_shiftRows,
    Block.unsubBytes_subBytes]

/-- Rounds undo one another whatever their keys are and however many there are. -/
theorem decryptRounds_encryptRounds (keys : List Block) (s : Block) :
    decryptRounds keys (encryptRounds keys s) = s := by
  induction keys generalizing s with
  | nil => rfl
  | cons key keys ih =>
    cases keys with
    | nil =>
      rw [encryptRounds, decryptRounds, Block.add_add_cancel, Block.unshiftRows_shiftRows,
        Block.unsubBytes_subBytes]
    | cons next keys =>
      rw [encryptRounds, decryptRounds, ih, decryptRound_encryptRound] <;>
        exact List.cons_ne_nil _ _

/-- **Decryption undoes encryption** under every key. -/
theorem decrypt_encrypt (cipher : Cipher) (block : Block) :
    cipher.decrypt (cipher.encrypt block) = block := by
  rw [decrypt, encrypt, decryptRounds_encryptRounds, Block.add_add_cancel]

theorem encrypt_injective (cipher : Cipher) : Function.Injective cipher.encrypt :=
  Function.LeftInverse.injective cipher.decrypt_encrypt

/-- There are only so many blocks, so every block is the encryption of one. -/
theorem encrypt_decrypt (cipher : Cipher) (block : Block) :
    cipher.encrypt (cipher.decrypt block) = block := by
  have few : Finite Block := by
    refine Finite.of_injective (fun (b : Block) (i : Fin 16) => b[i].toFin) ?_
    intro a b same
    refine Vector.ext fun i hi => ?_
    exact UInt8.toFin_inj.mp (congrFun same ⟨i, hi⟩)
  obtain ⟨plain, rfl⟩ := Finite.surjective_of_injective cipher.encrypt_injective block
  rw [decrypt_encrypt]

end Cipher

end Telemetry.Aes
