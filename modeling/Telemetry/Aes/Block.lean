import Telemetry.Aes.Field

/-!
# The block cipher

AES with a key of 128 bits. A block is sixteen bytes, read as four columns of four; a round
substitutes the bytes, rotates the rows, mixes the columns and adds a round key, and the last round
mixes nothing. Decryption undoes the rounds from the last to the first.
-/

namespace Telemetry.Aes

/-- Sixteen bytes: column `i / 4`, row `i % 4`. -/
abbrev Block := Vector UInt8 16

namespace Block

def zero : Block := Vector.replicate 16 0

/-- The bytewise sum of two blocks. -/
def add (a b : Block) : Block :=
  Vector.zipWith (· ^^^ ·) a b

/-- The first sixteen bytes of a run, zeros standing in for those it lacks. -/
def ofBytes (bytes : List UInt8) : Block :=
  Vector.ofFn fun i => bytes.getD i 0

/-- The first `count` blocks of a run of bytes. -/
def blocks : (count : Nat) → List UInt8 → List Block
  | 0, _ => []
  | count + 1, bytes => ofBytes (bytes.take 16) :: blocks count (bytes.drop 16)

/-- A run of bytes as blocks, the last one filled up with zeros. -/
def split (bytes : List UInt8) : List Block :=
  blocks ((bytes.length + 15) / 16) bytes

/-- The bytes of blocks in order. -/
def join (blocks : List Block) : List UInt8 :=
  blocks.flatMap Vector.toList

/-! ## The layers of a round -/

def subBytes (s : Block) : Block := s.map subByte

def unsubBytes (s : Block) : Block := s.map unsubByte

/-- Rotate row `r` to the left by `r * step` columns. -/
def rotateRows (step : Nat) (s : Block) : Block :=
  Vector.ofFn fun i => s[(i.val + 4 * step * (i.val % 4)) % 16]

def shiftRows (s : Block) : Block := rotateRows 1 s

def unshiftRows (s : Block) : Block := rotateRows 3 s

/-- Multiply every column by the circulant matrix whose first row is given. -/
def mixWith (a b c d : UInt8) (s : Block) : Block :=
  Vector.ofFn fun i =>
    mul a s[4 * (i.val / 4) + i.val % 4] ^^^
    mul b s[4 * (i.val / 4) + (i.val % 4 + 1) % 4] ^^^
    mul c s[4 * (i.val / 4) + (i.val % 4 + 2) % 4] ^^^
    mul d s[4 * (i.val / 4) + (i.val % 4 + 3) % 4]

def mixColumns (s : Block) : Block := mixWith 2 3 1 1 s

def unmixColumns (s : Block) : Block := mixWith 14 11 13 9 s

end Block

/-! ## Round keys -/

/-- The round key after `key`, with the constant of its round. -/
def nextRoundKey (constant : UInt8) (key : Block) : Block :=
  Vector.ofFn fun i =>
    let row := i.val % 4
    subByte key[12 + (i.val % 4 + 1) % 4] ^^^ (if row = 0 then constant else 0) ^^^
    key[i.val % 4] ^^^
    (if 4 ≤ i.val then key[4 + i.val % 4] else 0) ^^^
    (if 8 ≤ i.val then key[8 + i.val % 4] else 0) ^^^
    (if 12 ≤ i.val then key[12 + i.val % 4] else 0)

/-- The round keys after `key`, one for each constant. -/
def roundKeys : List UInt8 → Block → List Block
  | [], _ => []
  | constant :: constants, key =>
    let next := nextRoundKey constant key
    next :: roundKeys constants next

/-- The constants of the ten rounds: the powers of `x`. -/
def roundConstants : List UInt8 :=
  [0x01, 0x02, 0x04, 0x08, 0x10, 0x20, 0x40, 0x80, 0x1B, 0x36]

/-- A cipher set up with a key. -/
structure Cipher where
  /-- The key added before the first round. -/
  whitening : Block
  rounds : List Block

namespace Cipher

def ofKey (key : Block) : Cipher where
  whitening := key
  rounds := roundKeys roundConstants key

/-- The rounds with the given keys, the last of which mixes nothing. -/
def encryptRounds : List Block → Block → Block
  | [], s => s
  | [key], s => s.subBytes.shiftRows.add key
  | key :: keys, s => encryptRounds keys (s.subBytes.shiftRows.mixColumns.add key)

/-- The rounds with the given keys undone. -/
def decryptRounds : List Block → Block → Block
  | [], s => s
  | [key], s => (s.add key).unshiftRows.unsubBytes
  | key :: keys, s => ((decryptRounds keys s).add key).unmixColumns.unshiftRows.unsubBytes

def encrypt (cipher : Cipher) (block : Block) : Block :=
  encryptRounds cipher.rounds (block.add cipher.whitening)

def decrypt (cipher : Cipher) (block : Block) : Block :=
  (decryptRounds cipher.rounds block).add cipher.whitening

end Cipher

end Telemetry.Aes
