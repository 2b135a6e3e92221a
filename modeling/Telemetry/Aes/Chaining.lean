import Telemetry.Aes.Block

/-!
# Chained blocks

Cipher block chaining with an initial block of zeros: each block is added to the ciphertext of the
one before it and then encrypted.
-/

namespace Telemetry.Aes.Cipher

/-- Encrypt blocks after a block whose ciphertext is `previous`. -/
def encryptAfter (cipher : Cipher) : (previous : Block) → List Block → List Block
  | _, [] => []
  | previous, block :: rest =>
    let encrypted := cipher.encrypt (block.add previous)
    encrypted :: encryptAfter cipher encrypted rest

/-- Decrypt blocks after a block whose ciphertext is `previous`. -/
def decryptAfter (cipher : Cipher) : (previous : Block) → List Block → List Block
  | _, [] => []
  | previous, block :: rest =>
    (cipher.decrypt block).add previous :: decryptAfter cipher block rest

/-- Encrypt a run of bytes, filled up with zeros to whole blocks. -/
def encryptBytes (cipher : Cipher) (bytes : List UInt8) : List UInt8 :=
  Block.join (cipher.encryptAfter Block.zero (Block.split bytes))

/-- Decrypt a run of whole blocks. -/
def decryptBytes (cipher : Cipher) (bytes : List UInt8) : List UInt8 :=
  Block.join (cipher.decryptAfter Block.zero (Block.split bytes))

end Telemetry.Aes.Cipher
