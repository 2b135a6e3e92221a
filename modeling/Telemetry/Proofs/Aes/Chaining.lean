import Mathlib.Data.List.GetD
import Telemetry.Aes.Chaining
import Telemetry.Proofs.Aes.Inverse

/-!
# Chained decryption

Decrypting chained blocks needs the ciphertext of the block before only, which the two loops carry in
step (`decryptAfter_encryptAfter`, `encryptAfter_decryptAfter`). On bytes, what comes back is what went
in, filled up with zeros to whole blocks (`decryptBytes_encryptBytes`), and whole blocks are encrypted
from what they decrypt to (`encryptBytes_decryptBytes`).
-/

namespace Telemetry.Aes

/-! ## Bytes as blocks -/

namespace Block

theorem length_join (blocks : List Block) : (join blocks).length = 16 * blocks.length := by
  induction blocks with
  | nil => rfl
  | cons block rest ih =>
    rw [join, List.flatMap_cons, List.length_append, Vector.length_toList, ← join, ih,
      List.length_cons]
    omega

theorem length_blocks (count : Nat) (bytes : List UInt8) : (blocks count bytes).length = count := by
  induction count generalizing bytes with
  | zero => rfl
  | succ count ih => rw [blocks, List.length_cons, ih]

theorem ofBytes_toList (block : Block) : ofBytes block.toList = block := by
  refine Vector.ext fun i hi => ?_
  rw [ofBytes, Vector.getElem_ofFn, List.getD_eq_getElem _ _ (by simpa using hi),
    Vector.getElem_toList]

theorem split_join (list : List Block) : split (join list) = list := by
  have count : ((join list).length + 15) / 16 = list.length := by rw [length_join]; omega
  rw [split, count]
  clear count
  induction list with
  | nil => rfl
  | cons block rest ih =>
    rw [join, List.flatMap_cons, ← join, List.length_cons, blocks,
      List.take_left' Vector.length_toList, List.drop_left' Vector.length_toList, ofBytes_toList, ih]

/-- The bytes of one block: those that there are, and zeros for the rest. -/
theorem toList_ofBytes (bytes : List UInt8) :
    (ofBytes (bytes.take 16)).toList = bytes.take 16 ++ List.replicate (16 - bytes.length) 0 := by
  refine List.ext_getElem (by simp; omega) fun i hi hi' => ?_
  simp only [Vector.getElem_toList, ofBytes, Vector.getElem_ofFn]
  by_cases within : i < (bytes.take 16).length
  · rw [List.getD_eq_getElem _ _ within, List.getElem_append_left within]
  · rw [List.getD_eq_default _ _ (by omega), List.getElem_append_right (by omega),
      List.getElem_replicate]

theorem join_blocks (count : Nat) (bytes : List UInt8) :
    join (blocks count bytes) =
      bytes.take (16 * count) ++ List.replicate (16 * count - bytes.length) 0 := by
  induction count generalizing bytes with
  | zero => simp [blocks, join]
  | succ count ih =>
    rw [blocks, join, List.flatMap_cons, ← join, ih, toList_ofBytes, Nat.mul_succ,
      Nat.add_comm (16 * count) 16, List.take_add, List.length_drop]
    by_cases long : 16 ≤ bytes.length
    · have none : 16 - bytes.length = 0 := by omega
      have zeros : 16 * count - (bytes.length - 16) = 16 + 16 * count - bytes.length := by omega
      rw [none, zeros, List.replicate_zero, List.append_nil, List.append_assoc]
    · have rest : bytes.drop 16 = [] := List.drop_eq_nil_of_le (by omega)
      have zeros : 16 + 16 * count - bytes.length =
          (16 - bytes.length) + (16 * count - (bytes.length - 16)) := by omega
      rw [rest, List.take_nil, List.append_nil, List.nil_append, zeros,
        ← List.replicate_append_replicate, List.append_assoc]

/-- The zeros that fill up `length` bytes to whole blocks. -/
def padding (length : Nat) : Nat :=
  16 * ((length + 15) / 16) - length

theorem padding_lt (length : Nat) : padding length < 16 := by
  unfold padding; omega

theorem join_split (bytes : List UInt8) :
    join (split bytes) = bytes ++ List.replicate (padding bytes.length) 0 := by
  rw [split, join_blocks, List.take_of_length_le (by omega), padding]

end Block

/-! ## The two loops -/

namespace Cipher

theorem length_encryptAfter (cipher : Cipher) (previous : Block) (blocks : List Block) :
    (cipher.encryptAfter previous blocks).length = blocks.length := by
  induction blocks generalizing previous with
  | nil => rfl
  | cons block rest ih => rw [encryptAfter, List.length_cons, ih, List.length_cons]

/-- Both loops arrive at the next block with its ciphertext, so each block is undone in its turn. -/
theorem decryptAfter_encryptAfter (cipher : Cipher) (previous : Block) (blocks : List Block) :
    cipher.decryptAfter previous (cipher.encryptAfter previous blocks) = blocks := by
  induction blocks generalizing previous with
  | nil => rfl
  | cons block rest ih =>
    rw [encryptAfter, decryptAfter, decrypt_encrypt, Block.add_add_cancel, ih]

theorem length_encryptBytes (cipher : Cipher) (bytes : List UInt8) :
    (cipher.encryptBytes bytes).length = 16 * ((bytes.length + 15) / 16) := by
  rw [encryptBytes, Block.length_join, length_encryptAfter, Block.split, Block.length_blocks]

/-- **Chained decryption undoes chained encryption**, up to the zeros of the last block. -/
theorem decryptBytes_encryptBytes (cipher : Cipher) (bytes : List UInt8) :
    cipher.decryptBytes (cipher.encryptBytes bytes) =
      bytes ++ List.replicate (Block.padding bytes.length) 0 := by
  rw [decryptBytes, encryptBytes, Block.split_join, decryptAfter_encryptAfter, Block.join_split]

theorem length_decryptAfter (cipher : Cipher) (previous : Block) (blocks : List Block) :
    (cipher.decryptAfter previous blocks).length = blocks.length := by
  induction blocks generalizing previous with
  | nil => rfl
  | cons block rest ih => rw [decryptAfter, List.length_cons, ih, List.length_cons]

theorem length_decryptBytes (cipher : Cipher) (bytes : List UInt8) :
    (cipher.decryptBytes bytes).length = 16 * ((bytes.length + 15) / 16) := by
  rw [decryptBytes, Block.length_join, length_decryptAfter, Block.split, Block.length_blocks]

theorem encryptAfter_decryptAfter (cipher : Cipher) (previous : Block) (blocks : List Block) :
    cipher.encryptAfter previous (cipher.decryptAfter previous blocks) = blocks := by
  induction blocks generalizing previous with
  | nil => rfl
  | cons block rest ih =>
    rw [decryptAfter, encryptAfter, Block.add_add_cancel, encrypt_decrypt, ih]

/-- Of whole blocks the decryption encrypts to them again. -/
theorem encryptBytes_decryptBytes (cipher : Cipher) {bytes : List UInt8}
    (whole : bytes.length % 16 = 0) : cipher.encryptBytes (cipher.decryptBytes bytes) = bytes := by
  have none : Block.padding bytes.length = 0 := by
    unfold Block.padding
    omega
  rw [encryptBytes, decryptBytes, Block.split_join, encryptAfter_decryptAfter, Block.join_split, none,
    List.replicate_zero, List.append_nil]

end Cipher

end Telemetry.Aes
