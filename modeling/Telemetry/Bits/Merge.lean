import Telemetry.Bits.Window

/-!
# Merging bits into the last byte

A run of bytes that grows bit by bit ends in a byte of which only the first `used` bits are taken. The
next bits are set in what is free of that byte, and those that do not fit begin a new one
(`mergeByte`). Since bits are only ever set, this appends the right ones as long as the free bits are
zeros (`Clear`), and it leaves the free bits zeros again (`ofBytes_mergeByte`, `clear_mergeByte`).
-/

namespace Telemetry.Bits

/-- The byte whose first `count` bits are set, all of them for eight or more. -/
def highMask (count : Nat) : UInt8 :=
  if 8 ≤ count then 0xFF else ~~~(0xFF >>> UInt8.ofNat count)

/-- Set bits in the last byte of a run. -/
def orLast : List UInt8 → UInt8 → List UInt8
  | [], _ => []
  | [last], bits => [last ||| bits]
  | byte :: rest, bits => byte :: orLast rest bits

/-- Append the first `count` bits of a byte to a run of bytes that uses `used` bits of its last one. -/
def mergeByte (bytes : List UInt8) (used : Nat) (byte : UInt8) (count : Nat) : List UInt8 :=
  let kept := byte &&& highMask count
  if used = 0 then bytes ++ [kept]
  else
    let merged := orLast bytes (kept >>> UInt8.ofNat used)
    if 8 - used < count then merged ++ [kept <<< UInt8.ofNat (8 - used)] else merged

/-- How many bits are free in a last byte of which `used` are taken; none if no byte is begun. -/
def free (used : Nat) : Nat :=
  (8 - used) % 8

/-- The bits of a run of bytes up to the free ones. -/
def filled (bytes : List UInt8) (used : Nat) : List Bool :=
  (ofBytes bytes).take (8 * bytes.length - free used)

/-- The free bits are there, and they are zeros. -/
def Clear (bytes : List UInt8) (used : Nat) : Prop :=
  (ofBytes bytes).drop (8 * bytes.length - free used) = List.replicate (free used) false

/-! ## The bits of a byte -/

theorem ofByte_eq_map (byte : UInt8) :
    ofByte byte = (List.range 8).map fun i => byte.toNat.testBit (7 - i) := rfl

@[simp] theorem length_ofByte (byte : UInt8) : (ofByte byte).length = 8 := rfl

@[simp] theorem getElem_ofByte (byte : UInt8) (i : Nat) (h : i < (ofByte byte).length) :
    (ofByte byte)[i] = byte.toNat.testBit (7 - i) := by
  simp [ofByte_eq_map]

theorem toNat_shift {count : Nat} (h : count < 8) : (UInt8.ofNat count).toNat % 8 = count := by
  rw [UInt8.toNat_ofNat']
  omega

theorem testBit_highMask {count j : Nat} (hc : count ≤ 8) (hj : j < 8) :
    (highMask count).toNat.testBit j = decide (8 - count ≤ j) := by
  have all : ∀ c < 9, ∀ j < 8, (highMask c).toNat.testBit j = decide (8 - c ≤ j) := by decide
  exact all count (by omega) j hj

/-- Masking keeps the first bits of a byte and clears the others. -/
theorem ofByte_highMask (byte : UInt8) {count : Nat} (h : count ≤ 8) :
    ofByte (byte &&& highMask count) = (ofByte byte).take count ++ List.replicate (8 - count) false := by
  apply List.ext_getElem
  · simp; omega
  · intro i hi _
    have hi : i < 8 := hi
    rw [getElem_ofByte, UInt8.toNat_and, Nat.testBit_and, testBit_highMask h (by omega),
      List.getElem_append]
    by_cases inside : i < count
    · simp [show i < min count 8 by omega, show 8 - count ≤ 7 - i by omega]
    · simp [show ¬ i < min count 8 by omega, show ¬ 8 - count ≤ 7 - i by omega]

theorem ofByte_shiftRight (byte : UInt8) {count : Nat} (h : count < 8) :
    ofByte (byte >>> UInt8.ofNat count) =
      List.replicate count false ++ (ofByte byte).take (8 - count) := by
  apply List.ext_getElem
  · simp; omega
  · intro i hi _
    have hi : i < 8 := hi
    rw [getElem_ofByte, UInt8.toNat_shiftRight, toNat_shift h, Nat.testBit_shiftRight,
      List.getElem_append]
    by_cases before : i < count
    · have small : byte.toNat < 2 ^ (count + (7 - i)) :=
        Nat.lt_of_lt_of_le byte.toNat_lt (Nat.pow_le_pow_right (by decide) (by omega))
      simp [before, Nat.testBit_lt_two_pow small]
    · simp [before]
      congr 1
      omega

theorem ofByte_shiftLeft (byte : UInt8) {count : Nat} (h : count < 8) :
    ofByte (byte <<< UInt8.ofNat count) =
      (ofByte byte).drop count ++ List.replicate count false := by
  apply List.ext_getElem
  · simp; omega
  · intro i hi _
    have hi : i < 8 := hi
    rw [getElem_ofByte, UInt8.toNat_shiftLeft, toNat_shift h, Nat.testBit_mod_two_pow,
      Nat.testBit_shiftLeft, List.getElem_append]
    by_cases inside : i < 8 - count
    · simp [inside, show 7 - i < 8 by omega, show count ≤ 7 - i by omega]
      congr 1
      omega
    · simp [inside, show ¬ count ≤ 7 - i by omega]

theorem ofByte_or (a b : UInt8) : ofByte (a ||| b) = List.zipWith or (ofByte a) (ofByte b) := by
  apply List.ext_getElem
  · simp
  · intro i hi _
    simp [Nat.testBit_or]

/-! ## The last byte -/

@[simp] theorem length_ofBytes (bytes : List UInt8) :
    (ofBytes bytes).length = 8 * bytes.length := by
  induction bytes with
  | nil => rfl
  | cons byte rest ih =>
    show (ofByte byte ++ ofBytes rest).length = _
    rw [List.length_append, ih, length_ofByte, List.length_cons]
    omega

@[simp] theorem ofBytes_append (a b : List UInt8) : ofBytes (a ++ b) = ofBytes a ++ ofBytes b :=
  List.flatMap_append

@[simp] theorem ofBytes_singleton (byte : UInt8) : ofBytes [byte] = ofByte byte :=
  List.append_nil _

theorem orLast_concat (front : List UInt8) (last bits : UInt8) :
    orLast (front ++ [last]) bits = front ++ [last ||| bits] := by
  induction front with
  | nil => rfl
  | cons byte rest ih =>
    cases rest with
    | nil => rfl
    | cons next rest => exact congrArg (byte :: ·) ih

theorem clear_zero (bytes : List UInt8) : Clear bytes 0 := by
  simp [Clear, free]

/-- A byte that has been begun is there, and zeros follow its used bits. -/
theorem Clear.last {bytes : List UInt8} {used : Nat} (clear : Clear bytes used) (pos : 0 < used)
    (lt : used < 8) :
    ∃ front last, bytes = front ++ [last] ∧
      (ofByte last).drop used = List.replicate (8 - used) false := by
  have behind : free used = 8 - used := Nat.mod_eq_of_lt (by omega)
  unfold Clear at clear
  rw [behind] at clear
  rcases List.eq_nil_or_concat bytes with rfl | ⟨front, last, rfl⟩
  · have := congrArg List.length clear
    simp [ofBytes] at this
    omega
  · rw [List.concat_eq_append] at clear ⊢
    refine ⟨front, last, rfl, ?_⟩
    have within : 8 * (front ++ [last]).length - (8 - used) = (ofBytes front).length + used := by
      simp
      omega
    rwa [within, ofBytes_append, List.drop_length_add_append, ofBytes_singleton] at clear

theorem filled_append_free {bytes : List UInt8} {used : Nat} (clear : Clear bytes used) :
    ofBytes bytes = filled bytes used ++ List.replicate (free used) false := by
  rw [← clear, filled, List.take_append_drop]

theorem filled_concat (front : List UInt8) (last : UInt8) {used : Nat} (pos : 0 < used)
    (lt : used < 8) :
    filled (front ++ [last]) used = ofBytes front ++ (ofByte last).take used := by
  have behind : free used = 8 - used := Nat.mod_eq_of_lt (by omega)
  have within : 8 * (front ++ [last]).length - (8 - used) = (ofBytes front).length + used := by
    simp
    omega
  rw [filled, behind, within, ofBytes_append, ofBytes_singleton, List.take_length_add_append]

/-! ## Merging -/

/-- The bits that a merged byte brings into a byte already begun. -/
theorem ofByte_or_shiftRight {last : UInt8} {used : Nat}
    (zeros : (ofByte last).drop used = List.replicate (8 - used) false) (lt : used < 8)
    (bits : UInt8) :
    ofByte (last ||| bits >>> UInt8.ofNat used) =
      (ofByte last).take used ++ (ofByte bits).take (8 - used) := by
  have split : ofByte last = (ofByte last).take used ++ List.replicate (8 - used) false := by
    rw [← zeros, List.take_append_drop]
  rw [ofByte_or, ofByte_shiftRight _ lt]
  conv => lhs; rw [split]
  rw [List.zipWith_append (by simp; omega)]
  congr 1
  · apply List.ext_getElem
    · simp
    · intro i _ _; simp
  · apply List.ext_getElem
    · simp
    · intro i _ _; simp

/-- Merging appends the first `count` bits of a byte and fills up with zeros. -/
theorem ofBytes_mergeByte {bytes : List UInt8} {used : Nat} (clear : Clear bytes used)
    (lt : used < 8) (byte : UInt8) {count : Nat} (pos : 0 < count) (le : count ≤ 8) :
    ofBytes (mergeByte bytes used byte count) =
      filled bytes used ++ (ofByte byte).take count ++
        List.replicate (free ((used + count) % 8)) false := by
  unfold mergeByte
  by_cases fresh : used = 0
  · subst fresh
    have rest : free ((0 + count) % 8) = 8 - count := by
      unfold free
      omega
    have whole : filled bytes 0 = ofBytes bytes := by
      simp [filled, free, List.take_of_length_le]
    rw [rest, whole, List.append_assoc, ← ofByte_highMask byte le]
    simp
  · obtain ⟨front, last, rfl, zeros⟩ := clear.last (by omega) lt
    have short : ((ofByte byte).take count).length = count := by
      simp
      omega
    simp only [fresh, ↓reduceIte, orLast_concat, filled_concat front last (by omega) lt]
    split
    · have rest : free ((used + count) % 8) = (8 - count) + (8 - used) := by
        unfold free
        omega
      rw [ofBytes_append, ofBytes_append, ofBytes_singleton, ofBytes_singleton,
        ofByte_or_shiftRight zeros lt, ofByte_shiftLeft _ (by omega), ofByte_highMask byte le,
        List.take_append_of_le_length (by omega), List.drop_append_of_le_length (by omega), rest,
        ← List.replicate_append_replicate]
      conv => rhs; rw [← List.take_append_drop (8 - used) ((ofByte byte).take count)]
      simp only [List.append_assoc]
    · have rest : free ((used + count) % 8) = (8 - used) - count := by
        unfold free
        omega
      rw [ofBytes_append, ofBytes_singleton, ofByte_or_shiftRight zeros lt, ofByte_highMask byte le,
        List.take_append, short, List.take_of_length_le (by omega : ((ofByte byte).take count).length ≤ _),
        List.take_replicate, rest]
      simp only [List.append_assoc]
      congr 4
      omega

/-- Merging keeps the bits behind the used ones clear. -/
theorem clear_mergeByte {bytes : List UInt8} {used : Nat} (clear : Clear bytes used)
    (lt : used < 8) (byte : UInt8) {count : Nat} (pos : 0 < count) (le : count ≤ 8) :
    Clear (mergeByte bytes used byte count) ((used + count) % 8) := by
  have merged := ofBytes_mergeByte clear lt byte pos le
  have total := congrArg List.length merged
  rw [List.length_append, length_ofBytes, List.length_replicate] at total
  unfold Clear
  rw [merged, total, Nat.add_sub_cancel]
  exact List.drop_left ..

end Telemetry.Bits
