import Mathlib.Data.List.Induction
import Mathlib.Tactic.Ring
import Telemetry.Bits.Merge

/-!
# Numbers as runs of bits

A run of bits spells a number, most significant bit first (`value`), and a number has its lowest bits
in that order (`ofNat`). The two invert each other on runs of one length. Through them the
arithmetic of bytes (`bigEndian`, `bigEndianBytes`, `window`) becomes appending, taking and dropping
bits: `extract_window` says which bits a number in a run of bytes is made of, and
`ofBytes_leftAligned` where the bits of a number are laid.
-/

namespace Telemetry.Bits

/-- The number that bits spell out, most significant first. -/
def value : List Bool → Nat
  | [] => 0
  | bit :: rest => bit.toNat * 2 ^ rest.length + value rest

/-- The lowest `count` bits of a number, most significant first. -/
def ofNat : (count number : Nat) → List Bool
  | 0, _ => []
  | count + 1, number => number.testBit count :: ofNat count number

/-- The first `count` bits of a run that goes on with zeros without end. -/
def first (count : Nat) (bits : List Bool) : List Bool :=
  bits.take count ++ List.replicate (count - bits.length) false

/-! ## The value of a run -/

@[simp] theorem value_nil : value [] = 0 := rfl

theorem value_cons (bit : Bool) (rest : List Bool) :
    value (bit :: rest) = bit.toNat * 2 ^ rest.length + value rest := rfl

theorem value_append (a b : List Bool) : value (a ++ b) = value a * 2 ^ b.length + value b := by
  induction a with
  | nil => simp
  | cons bit rest ih =>
    rw [List.cons_append, value_cons, value_cons, ih, List.length_append, pow_add]
    ring

theorem value_lt (bits : List Bool) : value bits < 2 ^ bits.length := by
  induction bits with
  | nil => decide
  | cons bit rest ih =>
    have top : bit.toNat * 2 ^ rest.length ≤ 1 * 2 ^ rest.length :=
      Nat.mul_le_mul_right _ bit.toNat_le
    rw [value_cons, List.length_cons, pow_succ]
    omega

@[simp] theorem value_replicate_false (count : Nat) : value (List.replicate count false) = 0 := by
  induction count with
  | zero => rfl
  | succ count ih => simp [List.replicate_succ, value_cons, ih]

/-- The first bits of a run spell its quotient by a power of two. -/
theorem value_take (bits : List Bool) (count : Nat) :
    value (bits.take count) = value bits / 2 ^ (bits.length - count) := by
  have parts := value_append (bits.take count) (bits.drop count)
  have low := value_lt (bits.drop count)
  rw [List.take_append_drop, List.length_drop] at parts
  rw [List.length_drop] at low
  rw [parts, Nat.mul_comm, Nat.mul_add_div (Nat.two_pow_pos _), Nat.div_eq_of_lt low, Nat.add_zero]

/-- The last bits of a run spell its remainder by a power of two. -/
theorem value_drop (bits : List Bool) (count : Nat) :
    value (bits.drop count) = value bits % 2 ^ (bits.length - count) := by
  have parts := value_append (bits.take count) (bits.drop count)
  have low := value_lt (bits.drop count)
  rw [List.take_append_drop, List.length_drop] at parts
  rw [List.length_drop] at low
  rw [parts, Nat.mul_add_mod', Nat.mod_eq_of_lt low]

/-! ## The bits of a number -/

@[simp] theorem length_ofNat (count number : Nat) : (ofNat count number).length = count := by
  induction count with
  | zero => rfl
  | succ count ih => simp [ofNat, ih]

theorem value_ofNat (count number : Nat) : value (ofNat count number) = number % 2 ^ count := by
  induction count with
  | zero => simp [ofNat, Nat.mod_one]
  | succ count ih =>
    rw [ofNat, value_cons, length_ofNat, ih, Nat.mod_pow_succ, Nat.toNat_testBit]
    ring

theorem value_ofNat_of_lt {count number : Nat} (h : number < 2 ^ count) :
    value (ofNat count number) = number := by
  rw [value_ofNat, Nat.mod_eq_of_lt h]

/-- Runs of one length that spell one number are the same. -/
theorem value_injective {a b : List Bool} (length : a.length = b.length)
    (same : value a = value b) : a = b := by
  induction a generalizing b with
  | nil => exact (List.length_eq_zero_iff.1 length.symm).symm
  | cons bit rest ih =>
    obtain _ | ⟨bit', rest'⟩ := b
    · cases length
    · have tails : rest.length = rest'.length := by simpa using length
      have low := value_lt rest
      have low' := value_lt rest'
      rw [value_cons, value_cons, ← tails] at same
      rw [← tails] at low'
      cases bit <;> cases bit' <;> simp at same
      · rw [ih tails same]
      · omega
      · omega
      · rw [ih tails same]

theorem ofNat_value (bits : List Bool) : ofNat bits.length (value bits) = bits :=
  value_injective (length_ofNat _ _) (value_ofNat_of_lt (value_lt bits))

/-- The bits of a number are those above a place followed by those below it. -/
theorem ofNat_add (high low number : Nat) :
    ofNat (high + low) number = ofNat high (number / 2 ^ low) ++ ofNat low number := by
  apply value_injective
  · simp
  · rw [value_append, value_ofNat, value_ofNat, value_ofNat, length_ofNat, Nat.add_comm high,
      pow_add, Nat.mod_mul]
    ring

/-- A multiple of a power of two ends in that many zeros. -/
theorem ofNat_mul_two_pow (high low number : Nat) :
    ofNat (high + low) (number * 2 ^ low) = ofNat high number ++ List.replicate low false := by
  apply value_injective
  · simp
  · rw [value_append, value_ofNat, value_ofNat, List.length_replicate, value_replicate_false,
      Nat.add_zero, pow_add, Nat.mul_mod_mul_right]

/-! ## Zeros without end -/

@[simp] theorem length_first (count : Nat) (bits : List Bool) : (first count bits).length = count := by
  simp [first]
  omega

theorem first_of_le {count : Nat} {bits : List Bool} (h : count ≤ bits.length) :
    first count bits = bits.take count := by
  simp [first, Nat.sub_eq_zero_of_le h]

theorem first_of_ge {count : Nat} {bits : List Bool} (h : bits.length ≤ count) :
    first count bits = bits ++ List.replicate (count - bits.length) false := by
  rw [first, List.take_of_length_le h]

@[simp] theorem first_zero (bits : List Bool) : first 0 bits = [] := by
  simp [first]

@[simp] theorem first_nil (count : Nat) : first count [] = List.replicate count false := by
  simp [first]

theorem first_append (count : Nat) (a b : List Bool) :
    first count (a ++ b) = a.take count ++ first (count - a.length) b := by
  simp only [first, List.take_append, List.length_append, List.append_assoc, Nat.sub_sub]

/-- What comes first of a run and of the zeros behind it comes first of the run. -/
theorem first_append_replicate (count zeros : Nat) (bits : List Bool) :
    first count (bits ++ List.replicate zeros false) = first count bits := by
  simp only [first, List.take_append, List.take_replicate, List.length_append,
    List.length_replicate, List.append_assoc, List.replicate_append_replicate]
  congr 2
  omega

theorem first_append_left {count : Nat} {a : List Bool} (b : List Bool) (h : a.length = count) :
    first count (a ++ b) = a := by
  rw [first_append, h, Nat.sub_self, first_zero, List.append_nil, List.take_of_length_le h.le]

theorem take_first {a b : Nat} (bits : List Bool) (h : a ≤ b) :
    (first b bits).take a = first a bits := by
  simp only [first, List.take_append, List.take_take, List.take_replicate, Nat.min_eq_left h,
    List.length_take]
  congr 2
  omega

theorem drop_first (a b : Nat) (bits : List Bool) :
    (first (a + b) bits).drop a = first b (bits.drop a) := by
  simp only [first, List.drop_append, List.length_take, List.drop_replicate, List.length_drop,
    List.drop_take, Nat.add_sub_cancel_left]
  congr 2
  omega

/-! ## Bytes -/

theorem value_ofByte (byte : UInt8) : value (ofByte byte) = byte.toNat :=
  value_ofNat_of_lt byte.toNat_lt

/-- The number that bytes spell is the one that their bits spell. -/
theorem bigEndian_eq_value (bytes : List UInt8) : bigEndian bytes = value (ofBytes bytes) := by
  induction bytes using List.reverseRecOn with
  | nil => rfl
  | append_singleton front last ih =>
    rw [ofBytes_append, ofBytes_singleton, value_append, value_ofByte, length_ofByte, ← ih]
    simp [bigEndian]

theorem ofByte_injective {a b : UInt8} (h : ofByte a = ofByte b) : a = b := by
  rw [← UInt8.toNat_inj, ← value_ofByte, ← value_ofByte, h]

theorem ofBytes_cons (byte : UInt8) (rest : List UInt8) :
    ofBytes (byte :: rest) = ofByte byte ++ ofBytes rest := rfl

theorem ofBytes_injective {a b : List UInt8} (h : ofBytes a = ofBytes b) : a = b := by
  have lengths : a.length = b.length := by
    have := congrArg List.length h
    rw [length_ofBytes, length_ofBytes] at this
    omega
  induction a generalizing b with
  | nil => exact (List.length_eq_zero_iff.1 lengths.symm).symm
  | cons byte rest ih =>
    obtain _ | ⟨byte', rest'⟩ := b
    · cases lengths
    · rw [ofBytes_cons, ofBytes_cons] at h
      obtain ⟨head, tail⟩ := List.append_inj h rfl
      rw [ofByte_injective head, ih tail (Nat.succ.inj lengths)]

/-- The bytes of a number carry its lowest bits. -/
theorem ofBytes_bigEndianBytes (size number : Nat) :
    ofBytes (bigEndianBytes size number) = ofNat (8 * size) number := by
  induction size generalizing number with
  | zero => rfl
  | succ size ih =>
    have last : ofByte (UInt8.ofNat number) = ofNat 8 number := by
      apply value_injective
      · rw [length_ofByte, length_ofNat]
      · rw [value_ofByte, value_ofNat, UInt8.toNat_ofNat']
    rw [bigEndianBytes, ofBytes_append, ih, ofBytes_singleton, last, Nat.mul_succ, ofNat_add]
    rfl

/-- A window of a run of bytes holds its first bits. -/
theorem ofBytes_window (size : Nat) (bytes : List UInt8) :
    ofBytes (window size bytes) = first (8 * size) (ofBytes bytes) := by
  induction size generalizing bytes with
  | zero => exact (first_zero _).symm
  | succ size ih =>
    rw [Nat.mul_succ, Nat.add_comm (8 * size)]
    cases bytes with
    | nil =>
      have zero : ofByte 0 = List.replicate 8 false := by decide
      have none : ofBytes [] = [] := rfl
      rw [window, ofBytes_cons, ih, zero, none, first_nil, first_nil,
        List.replicate_append_replicate]
    | cons byte rest =>
      rw [window, ofBytes_cons, ih, ofBytes_cons, first_append, length_ofByte,
        List.take_of_length_le (by simp), Nat.add_sub_cancel_left]

/-! ## Numbers inside a run of bytes -/

theorem first_first {a b : Nat} (bits : List Bool) (h : a ≤ b) :
    first a (first b bits) = first a bits := by
  rw [first_of_le (by simpa using h), take_first bits h]

/-- Dropping bits from a window that reaches far enough loses nothing behind them. -/
theorem first_drop_first {shift count size : Nat} (bits : List Bool) (h : shift + count ≤ size) :
    first count ((first size bits).drop shift) = first count (bits.drop shift) := by
  obtain ⟨more, rfl⟩ := Nat.exists_eq_add_of_le h
  rw [Nat.add_assoc, drop_first, first_first _ (Nat.le_add_right _ _)]

theorem lowBits_eq_mod {count : Nat} (h : count ≤ 64) (number : Nat) :
    lowBits number count = number % 2 ^ count := by
  rw [lowBits, maxValueBits, Nat.min_eq_left h, Nat.pow_eq]

theorem ofNat_mod (count number : Nat) : ofNat count (number % 2 ^ count) = ofNat count number := by
  apply value_injective
  · simp
  · rw [value_ofNat, value_ofNat, Nat.mod_mod]

/-- A number is read from just its own bits, whatever stands around them. -/
theorem extract_eq_value {shift count : Nat} (bytes : List UInt8) (inside : shift < 8)
    (narrow : count ≤ 64) :
    extract bytes count shift (bytesCovering shift count) =
      value (first count ((ofBytes bytes).drop shift)) := by
  unfold extract bytesCovering
  by_cases none : count = 0
  · subst none
    simp
  · let size := (shift + count + 7) / 8
    have some : 0 < size := by omega
    have few : min size 16 = size := by omega
    have reach : size * 8 - (shift + count) = 8 * size - (shift + count) := by omega
    have last : shift + count - shift = count := by omega
    simp only [none, ↓reduceIte, false_or]
    rw [if_neg (show ¬ size = 0 by omega), few, reach, lowBits_eq_mod narrow, Nat.pow_eq,
      bigEndian_eq_value, ofBytes_window]
    have above := value_take (first (8 * size) (ofBytes bytes)) (shift + count)
    have below := value_drop (first (shift + count) (ofBytes bytes)) shift
    rw [length_first, take_first _ (by omega)] at above
    rw [length_first, last, drop_first] at below
    rw [← above, ← below]

/-- A number laid out from the top of a byte is its bits and then zeros. -/
theorem ofBytes_leftAligned {count : Nat} (number : Nat) (narrow : count ≤ 64) :
    ∃ zeros, ofBytes (leftAligned number count) = ofNat count number ++ List.replicate zeros false := by
  let size := (count + 7) / 8
  have reach : size * 8 = count + (size * 8 - count) := by omega
  refine ⟨size * 8 - count, ?_⟩
  show ofBytes (bigEndianBytes size (lowBits number count * Nat.pow 2 (size * 8 - count))) = _
  rw [ofBytes_bigEndianBytes, lowBits_eq_mod narrow, Nat.pow_eq, Nat.mul_comm 8, reach,
    Nat.add_sub_cancel_left, ofNat_mul_two_pow, ofNat_mod]

/-- So the first bits of such a layout are those of the number. -/
theorem first_leftAligned {count : Nat} (number : Nat) (narrow : count ≤ 64) :
    first count (ofBytes (leftAligned number count)) = ofNat count number := by
  obtain ⟨zeros, laid⟩ := ofBytes_leftAligned number narrow
  rw [laid, first_append_left _ (length_ofNat _ _)]

end Telemetry.Bits
