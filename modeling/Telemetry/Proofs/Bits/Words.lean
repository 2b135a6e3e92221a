import Mathlib.Order.Bounds.Defs
import Telemetry.Proofs.Bits.Refinement

/-!
# Numbers inside a run of bytes, by words

A machine reads a number out of a run of bytes with words of a fixed width: the bytes are folded into a double
word, which is shifted to the right, cut to one word and masked. It lays a number out with one shift of a
double word to the left. Words lose what goes past their width, and a shift by the width or more is no shift
at all. Nothing of that happens here (`Words.extract_eq`, `Words.leftAligned_eq`): sixteen bytes fill a double
word, no shift reaches its width, and a word is cut to no fewer bits than the mask keeps. What is read is then
told by the bits that the number is made of, and by nothing else (`Bits.numberAt_congr`).
-/

namespace Telemetry.Bits

namespace Words

/-- The word whose lowest `count` bits are set, all of them for 64 or more. -/
def lowMask (count : Nat) : BitVec 64 :=
  if 64 ≤ count then BitVec.allOnes 64 else (1#64 <<< count) - 1#64

/-- A shift to the right by less than the width. -/
def shiftRight? {width : Nat} (word : BitVec width) (count : Nat) : Option (BitVec width) :=
  if count < width then some (word >>> count) else none

/-- A shift to the left by less than the width. -/
def shiftLeft? {width : Nat} (word : BitVec width) (count : Nat) : Option (BitVec width) :=
  if count < width then some (word <<< count) else none

/-- The first `size` bytes folded into a double word, zeros standing in for those that are missing. -/
def accumulate (bytes : List UInt8) (size : Nat) : BitVec 128 :=
  (List.range size).foldl (fun word i => word <<< 8 ||| (bytes.getD i 0).toBitVec.setWidth 128) 0

/-- The value of `count` bits that start `shift` bits into the first `available` bytes, by words. -/
def extract (bytes : List UInt8) (count shift available : Nat) : Option (BitVec 64) :=
  if count = 0 ∨ available = 0 then some 0
  else
    let size := min available 16
    (shiftRight? (accumulate bytes size) (size * 8 - (shift + count))).map fun word =>
      word.setWidth 64 &&& lowMask count

/-- The lowest `count` bits of a word, laid out from the top bit of the first byte, by words. -/
def leftAligned (value : BitVec 64) (count : Nat) : Option (List UInt8) :=
  if count = 0 then some []
  else
    (shiftLeft? ((value &&& lowMask count).setWidth 128) (128 - count)).map fun word =>
      (bigEndianBytes 16 word.toNat).take ((count + 7) / 8)

/-! ## Masks and shifts -/

theorem toNat_lowMask (count : Nat) : (lowMask count).toNat = 2 ^ min count 64 - 1 := by
  unfold lowMask
  split
  · rename_i full
    rw [Nat.min_eq_right full, BitVec.toNat_allOnes]
  · rename_i part
    have below : 2 ^ count < 2 ^ 64 := Nat.pow_lt_pow_right (by decide) (by omega)
    have pos := Nat.two_pow_pos count
    rw [Nat.min_eq_left (by omega), BitVec.toNat_sub, BitVec.toNat_shiftLeft, BitVec.toNat_ofNat,
      Nat.shiftLeft_eq, Nat.mod_eq_of_lt (by decide : 1 < 2 ^ 64), Nat.one_mul, Nat.mod_eq_of_lt below]
    omega

/-- Masking keeps the lowest bits. -/
theorem toNat_and_lowMask (word : BitVec 64) (count : Nat) :
    (word &&& lowMask count).toNat = lowBits word.toNat count := by
  rw [BitVec.toNat_and, toNat_lowMask, Nat.and_two_pow_sub_one_eq_mod]
  rfl

theorem lowBits_mod (number count : Nat) : lowBits (number % 2 ^ 64) count = lowBits number count :=
  Nat.mod_mod_of_dvd _ (Nat.pow_dvd_pow 2 (Nat.min_le_right count 64))

theorem window_succ (size : Nat) (bytes : List UInt8) :
    window (size + 1) bytes = window size bytes ++ [bytes.getD size 0] := by
  induction size generalizing bytes with
  | zero => cases bytes <;> rfl
  | succ size ih =>
    cases bytes with
    | nil => exact congrArg (0 :: ·) (ih [])
    | cons byte rest => exact congrArg (byte :: ·) (ih rest)

theorem bigEndian_lt (bytes : List UInt8) : bigEndian bytes < 2 ^ (8 * bytes.length) := by
  have bound := value_lt (ofBytes bytes)
  rwa [← bigEndian_eq_value, length_ofBytes] at bound

/-- **Sixteen bytes fill a double word**, and fewer lose nothing in it. -/
theorem toNat_accumulate (bytes : List UInt8) {size : Nat} (few : size ≤ 16) :
    (accumulate bytes size).toNat = bigEndian (window size bytes) := by
  induction size with
  | zero => rfl
  | succ size ih =>
    have small : bigEndian (window size bytes) < 2 ^ 120 := by
      have bound := bigEndian_lt (window size bytes)
      rw [length_window] at bound
      exact bound.trans_le (Nat.pow_le_pow_right (by decide) (by omega))
    have byte : (bytes.getD size 0).toNat < 2 ^ 8 := (bytes.getD size 0).toNat_lt
    have folded : accumulate bytes (size + 1) =
        accumulate bytes size <<< 8 ||| (bytes.getD size 0).toBitVec.setWidth 128 := by
      rw [accumulate, List.range_succ, List.foldl_append]
      rfl
    have grown : bigEndian (window (size + 1) bytes) =
        bigEndian (window size bytes) * 2 ^ 8 + (bytes.getD size 0).toNat := by
      rw [window_succ, bigEndian, List.foldl_append]
      rfl
    have low : ((bytes.getD size 0).toBitVec.setWidth 128).toNat = (bytes.getD size 0).toNat := by
      rw [BitVec.toNat_setWidth]
      exact Nat.mod_eq_of_lt (byte.trans (by decide : 2 ^ 8 < 2 ^ 128))
    have high : (accumulate bytes size <<< 8).toNat = bigEndian (window size bytes) <<< 8 := by
      rw [BitVec.toNat_shiftLeft, ih (by omega), Nat.mod_eq_of_lt]
      rw [Nat.shiftLeft_eq]
      exact Nat.mul_lt_mul_of_pos_right small (by decide)
    rw [folded, BitVec.toNat_or, high, low, ← Nat.shiftLeft_add_eq_or_of_lt byte, Nat.shiftLeft_eq, grown]

/-- **Reading by words is reading the number**, whatever the bytes and the counts are. -/
theorem extract_eq (bytes : List UInt8) (count shift available : Nat) :
    (extract bytes count shift available).map BitVec.toNat = some (Bits.extract bytes count shift available) := by
  unfold extract Bits.extract
  by_cases none : count = 0 ∨ available = 0
  · rw [if_pos none, if_pos none]
    rfl
  · rw [if_neg none, if_neg none]
    have few : min available 16 ≤ 16 := Nat.min_le_right _ _
    have reach : min available 16 * 8 - (shift + count) < 128 := by omega
    dsimp only
    rw [shiftRight?, if_pos reach, Option.map_some, Option.map_some, toNat_and_lowMask, BitVec.toNat_setWidth,
      lowBits_mod, BitVec.toNat_ushiftRight, Nat.shiftRight_eq_div_pow, toNat_accumulate bytes few, Nat.pow_eq]

theorem bigEndianBytes_add (front back number : Nat) :
    bigEndianBytes (front + back) number =
      bigEndianBytes front (number / 2 ^ (8 * back)) ++ bigEndianBytes back number := by
  apply ofBytes_injective
  rw [ofBytes_append, ofBytes_bigEndianBytes, ofBytes_bigEndianBytes, ofBytes_bigEndianBytes, Nat.mul_add,
    ofNat_add]

theorem length_bigEndianBytes (size number : Nat) : (bigEndianBytes size number).length = size := by
  have bits := congrArg List.length (ofBytes_bigEndianBytes size number)
  rw [length_ofBytes, length_ofNat] at bits
  omega

theorem take_bigEndianBytes {size whole : Nat} (le : size ≤ whole) (number : Nat) :
    (bigEndianBytes whole number).take size = bigEndianBytes size (number / 2 ^ (8 * (whole - size))) := by
  obtain ⟨back, rfl⟩ := Nat.exists_eq_add_of_le le
  rw [bigEndianBytes_add, Nat.add_sub_cancel_left, List.take_left' (length_bigEndianBytes _ _)]

/-- **Laying out by words is laying the number out**, for up to as many bits as a word has. -/
theorem leftAligned_eq (value : BitVec 64) {count : Nat} (narrow : count ≤ 64) :
    leftAligned value count = some (Bits.leftAligned value.toNat count) := by
  unfold leftAligned
  by_cases none : count = 0
  · subst none
    rfl
  · let size := (count + 7) / 8
    have low : ((value &&& lowMask count).setWidth 128).toNat = lowBits value.toNat count := by
      have below := (value &&& lowMask count).isLt
      rw [BitVec.toNat_setWidth, Nat.mod_eq_of_lt (below.trans (by decide)), toNat_and_lowMask]
    have few : lowBits value.toNat count < 2 ^ count := by
      rw [lowBits_eq_mod narrow]
      exact Nat.mod_lt _ (Nat.two_pow_pos _)
    have parts : 2 ^ (128 - count) = 2 ^ (size * 8 - count) * 2 ^ (8 * (16 - size)) := by
      rw [← Nat.pow_add]
      congr 1
      omega
    have whole : lowBits value.toNat count * 2 ^ (128 - count) < 2 ^ 128 := by
      have top : 2 ^ count * 2 ^ (128 - count) = 2 ^ 128 := by
        rw [← Nat.pow_add]
        congr 1
        omega
      rw [← top]
      exact Nat.mul_lt_mul_of_pos_right few (Nat.two_pow_pos _)
    rw [if_neg none, shiftLeft?, if_pos (by omega), Option.map_some, take_bigEndianBytes (by omega),
      BitVec.toNat_shiftLeft, low, Nat.shiftLeft_eq, Nat.mod_eq_of_lt whole, parts, ← Nat.mul_assoc,
      Nat.mul_div_cancel _ (Nat.two_pow_pos _)]
    rfl

end Words

/-! ## The bits of a number -/

/-- The bits from a place on that a number of so many bits is made of. -/
def Within (start count i : Nat) : Prop :=
  start ≤ i ∧ i < start + count

/-- The bit at a place of a run of bytes, which goes on with zeros without end. -/
def bitAt (bytes : List UInt8) (i : Nat) : Bool :=
  (ofBytes bytes).getD i false

theorem getElem?_first {count i : Nat} (bits : List Bool) (inside : i < count) :
    (first count bits)[i]? = some (bits.getD i false) := by
  rw [List.getD_eq_getElem?_getD]
  by_cases given : i < bits.length
  · rw [first, List.getElem?_append_left (by rw [List.length_take]; omega), List.getElem?_take_of_lt inside,
      List.getElem?_eq_getElem given, Option.getD_some]
  · rw [first, List.getElem?_append_right (by rw [List.length_take]; omega), List.getElem?_replicate_of_lt,
      List.getElem?_eq_none (by omega), Option.getD_none]
    rw [List.length_take]
    omega

theorem getElem?_first_drop {start count i : Nat} (bytes : List UInt8) (inside : i < count) :
    (first count ((ofBytes bytes).drop start))[i]? = some (bitAt bytes (start + i)) := by
  rw [getElem?_first _ inside, List.getD_eq_getElem?_getD, List.getElem?_drop, bitAt, List.getD_eq_getElem?_getD]

/-- **A number is told by its own bits.** Runs of bytes that agree on them give the same number. -/
theorem numberAt_congr {bytes other : List UInt8} {start count : Nat}
    (same : ∀ i, Within start count i → bitAt other i = bitAt bytes i) :
    numberAt other start count = numberAt bytes start count := by
  unfold numberAt
  congr 1
  apply List.ext_getElem?
  intro i
  by_cases inside : i < count
  · rw [getElem?_first_drop other inside, getElem?_first_drop bytes inside, same (start + i) ⟨by omega, by omega⟩]
  · rw [List.getElem?_eq_none (by rw [length_first]; omega), List.getElem?_eq_none (by rw [length_first]; omega)]

/-- The bytes of a number are the first ones that reach behind its last bit. -/
theorem isLeast_bytesCovering (start count : Nat) :
    IsLeast {size | ∀ i, Within start count i → i < 8 * size} (bytesCovering start count) := by
  unfold bytesCovering
  constructor
  · rintro i ⟨after, behind⟩
    rw [if_neg (by omega)]
    omega
  · intro size covers
    by_cases none : count = 0
    · rw [if_pos none]
      exact Nat.zero_le _
    · have last := covers (start + count - 1) ⟨by omega, by omega⟩
      rw [if_neg none]
      omega

/-- Bytes further on do not matter to a bit. -/
theorem bitAt_take {size i : Nat} (bytes : List UInt8) (inside : i < 8 * size) :
    bitAt (bytes.take size) i = bitAt bytes i := by
  rcases Nat.le_total bytes.length size with short | long
  · rw [List.take_of_length_le short]
  · have parts : ofBytes bytes = ofBytes (bytes.take size) ++ ofBytes (bytes.drop size) := by
      rw [← ofBytes_append, List.take_append_drop]
    have reach : i < (ofBytes (bytes.take size)).length := by
      rw [length_ofBytes, List.length_take, Nat.min_eq_left long]
      exact inside
    rw [bitAt, bitAt, parts, List.getD_eq_getElem?_getD, List.getD_eq_getElem?_getD,
      List.getElem?_append_left reach]

variable {shift count : Nat}

/-- Numbers are read from the bytes that cover them, and from just their own bits. -/
theorem extract_bytesCovering (inside : shift < 8) (narrow : count ≤ 64) (bytes : List UInt8) :
    let read (run : List UInt8) := extract run count shift (bytesCovering shift count)
    read bytes = numberAt bytes shift count ∧
      (∀ other, (∀ i, Within shift count i → bitAt other i = bitAt bytes i) → read other = read bytes) ∧
      ∀ other, other.take (bytesCovering shift count) = bytes.take (bytesCovering shift count) →
        read other = read bytes := by
  intro read
  have number (run : List UInt8) : read run = numberAt run shift count := extract_eq_value run inside narrow
  have own (other : List UInt8) (same : ∀ i, Within shift count i → bitAt other i = bitAt bytes i) :
      read other = read bytes := by
    rw [number, number, numberAt_congr same]
  refine ⟨number bytes, own, ?_⟩
  intro other front
  apply own
  intro i place
  have covered := (isLeast_bytesCovering shift count).1 i place
  rw [← bitAt_take other covered, front, bitAt_take bytes covered]

/-- The bits of a number come first in its layout, and zeros fill up the last byte. -/
theorem leftAligned_spec (narrow : count ≤ 64) (number : Nat) :
    let size := (count + 7) / 8
    (leftAligned number count).length = size ∧
      ofBytes (leftAligned number count) =
        ofNat count number ++ List.replicate (8 * size - count) false ∧
      extract (leftAligned number count) count 0 size = number % 2 ^ count := by
  intro size
  have length : (leftAligned number count).length = size := Words.length_bigEndianBytes _ _
  obtain ⟨zeros, laid⟩ := ofBytes_leftAligned number narrow
  have padding : zeros = 8 * size - count := by
    have bits := congrArg List.length laid
    rw [length_ofBytes, length, List.length_append, length_ofNat, List.length_replicate] at bits
    omega
  have covered : bytesCovering 0 count = size := by
    unfold bytesCovering
    by_cases none : count = 0
    · rw [if_pos none]
      subst none
      rfl
    · rw [if_neg none, Nat.zero_add]
  have read := extract_eq_value (leftAligned number count) (by decide : 0 < 8) narrow
  rw [covered, List.drop_zero, first_leftAligned number narrow, value_ofNat] at read
  exact ⟨length, padding ▸ laid, read⟩

/--
**Numbers inside a run of bytes.** Let a number take up to 64 bits from some bit of the first byte on, in the
least number of bytes that cover them. Reading it gives the number that those bits spell, with zeros standing
in for bits beyond the end; no other bit and no further byte matters. Laying out a word gives so many bytes
as its bits need, with zeros behind them, and reading the layout gives the number of those bits. Double words
are wide enough for either: no shift is too far, and nothing but what the masks clear is lost.
-/
theorem extract_leftAligned_spec (inside : shift < 8) (narrow : count ≤ 64) :
    let size := bytesCovering shift count
    IsLeast {size | ∀ i, Within shift count i → i < 8 * size} size ∧
      (∀ bytes : List UInt8,
        let number := extract bytes count shift size
        number = numberAt bytes shift count ∧
          (Words.extract bytes count shift size).map BitVec.toNat = some number ∧
          (∀ other : List UInt8, (∀ i, Within shift count i → bitAt other i = bitAt bytes i) →
            extract other count shift size = number) ∧
          ∀ other : List UInt8, other.take size = bytes.take size →
            extract other count shift size = number) ∧
      ∀ word : BitVec 64,
        let layout := leftAligned word.toNat count
        Words.leftAligned word count = some layout ∧
          layout.length = (count + 7) / 8 ∧
          ofBytes layout =
            ofNat count word.toNat ++ List.replicate (8 * ((count + 7) / 8) - count) false ∧
          extract layout count 0 ((count + 7) / 8) = word.toNat % 2 ^ count := by
  intro size
  refine ⟨isLeast_bytesCovering shift count, ?_, ?_⟩
  · intro bytes number
    obtain ⟨value, own, front⟩ := extract_bytesCovering inside narrow bytes
    exact ⟨value, Words.extract_eq bytes count shift size, own, front⟩
  · intro word layout
    exact ⟨Words.leftAligned_eq word narrow, leftAligned_spec narrow word.toNat⟩

/-- A full word that starts in the middle of a byte lies in nine bytes, of which the last may be missing. -/
theorem extract_leftAligned_spec_across :
    let bytes : List UInt8 := [0xF1, 0x23, 0x45, 0x67, 0x89, 0xAB, 0xCD, 0xEF]
    4 < 8 ∧ 64 ≤ 64 ∧ bytesCovering 4 64 = 9 ∧ extract bytes 64 4 9 = 0x123456789ABCDEF0 ∧
      extract (bytes ++ [0x0F, 0xFF]) 64 4 9 = 0x123456789ABCDEF0 ∧
      extract (leftAligned 0x123456789ABCDEF0 64) 64 0 8 = 0x123456789ABCDEF0 := by
  intro bytes
  have covering : bytesCovering 4 64 = 9 := by decide
  obtain ⟨-, reading, layouts⟩ :=
    extract_leftAligned_spec (by decide : 4 < 8) (by decide : 64 ≤ 64)
  obtain ⟨number, -, own, -⟩ := reading bytes
  obtain ⟨-, -, -, back⟩ := layouts 0x123456789ABCDEF0
  rw [covering] at number own
  have value : extract bytes 64 4 9 = 0x123456789ABCDEF0 := number.trans (by decide +kernel)
  refine ⟨by decide, by decide, covering, value, ?_, back⟩
  refine (own (bytes ++ [0x0F, 0xFF]) ?_).trans value
  unfold Within
  have all : ∀ i < 68, bitAt (bytes ++ [0x0F, 0xFF]) i = bitAt bytes i := by decide +kernel
  rintro i ⟨-, behind⟩
  exact all i behind

end Telemetry.Bits
