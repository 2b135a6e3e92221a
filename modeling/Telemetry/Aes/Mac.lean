import Telemetry.Aes.Block

/-!
# Message authentication

The cipher-based message authentication code: blocks are chained as in encryption, and the last one
is first added to a subkey, one of two according to whether it is complete.
-/

namespace Telemetry.Aes

/-- Doubling in the field of `2^128` elements, the first byte most significant. -/
def Block.double (b : Block) : Block :=
  Vector.ofFn fun i =>
    (b[i.val] <<< 1) ^^^
    (if bound : i.val < 15 then b[i.val + 1] >>> 7 else 0) ^^^
    (if i.val = 15 ∧ b[0] &&& 0x80 ≠ 0 then 0x87 else 0)

namespace Cipher

/-- The last block of a message, as it enters the chain. -/
def lastBlock (cipher : Cipher) (bytes : List UInt8) : Block :=
  let complete := (cipher.encrypt Block.zero).double
  if bytes.length = 16 then (Block.ofBytes bytes).add complete
  else (Block.ofBytes (bytes ++ [0x80])).add complete.double

def mac (cipher : Cipher) (message : List UInt8) : Block :=
  let before := (message.length - 1) / 16
  let chained := (Block.blocks before message).foldl (fun state block => cipher.encrypt (state.add block))
    Block.zero
  cipher.encrypt (chained.add (cipher.lastBlock (message.drop (16 * before))))

end Cipher

end Telemetry.Aes
