import Telemetry.Hex

/-!
# Hexadecimal text read back

Reading works on the bytes of a text, writing makes characters. A digit is a character of one byte, and a
text with a byte that is no part of a digit is refused, so what is read is settled by the characters: runs
of digits that in upper case are what writing makes of the bytes (`Hex.decodeDigits_eq_ok_iff`).
-/

namespace Telemetry

namespace Text

theorem hexDigit?_upperDigit : ∀ value < 16, hexDigit? (upperDigit value) = some value := by
  decide

theorem toUpper_upperDigit : ∀ value < 16, (upperDigit value).toUpper = upperDigit value := by
  decide

/-- A digit is the letter or the figure of its value, up to letter case. -/
theorem upperDigit_of_hexDigit? {c : Char} {value : Nat} (h : hexDigit? c = some value) :
    value < 16 ∧ c.toNat < 128 ∧ c.toUpper = upperDigit value := by
  have ascii : c.toNat < 128 := by
    refine Nat.lt_of_not_le fun beyond => ?_
    have small (d : Char) (low : d.toNat < 128) : ¬ c ≤ d := fun le =>
      absurd (Nat.le_trans beyond le) (Nat.not_le_of_lt low)
    simp only [hexDigit?, small '9' (by decide), small 'f' (by decide), small 'F' (by decide),
      and_false, if_false] at h
    cases h
  have all : ∀ n < 128, (hexDigit? (Char.ofNat n)).all fun value =>
      value < 16 ∧ (Char.ofNat n).toUpper = upperDigit value := by
    decide
  have here := all c.toNat ascii
  rw [Char.ofNat_toNat, h] at here
  obtain ⟨small, upper⟩ := of_decide_eq_true here
  exact ⟨small, ascii, upper⟩

/-- No digit is white space. -/
theorem isBlank_of_hexDigit? {c : Char} (digit : (hexDigit? c).isSome) : isBlank c = false := by
  obtain ⟨value, is⟩ := Option.isSome_iff_exists.mp digit
  have all : ∀ n < 128, (hexDigit? (Char.ofNat n)).isSome → isBlank (Char.ofNat n) = false := by decide
  have here := all c.toNat (upperDigit_of_hexDigit? is).2.1
  rw [Char.ofNat_toNat, is] at here
  exact here rfl

theorem filter_of_digits {digits : List Char} (h : ∀ c ∈ digits, (hexDigit? c).isSome) :
    (digits.filter fun c => !isBlank c) = digits := by
  refine List.filter_eq_self.mpr fun c inside => ?_
  rw [isBlank_of_hexDigit? (h c inside)]
  rfl

theorem hexDigit?_of_ge : ∀ n < 256, 128 ≤ n → hexDigit? (Char.ofNat n) = none := by
  decide +kernel

theorem hexDigit?_of_toUpper {c : Char} {value : Nat} (digit : (hexDigit? c).isSome) (small : value < 16)
    (upper : c.toUpper = upperDigit value) : hexDigit? c = some value := by
  obtain ⟨found, is⟩ := Option.isSome_iff_exists.mp digit
  obtain ⟨small', -, upper'⟩ := upperDigit_of_hexDigit? is
  have same := congrArg hexDigit? (upper.symm.trans upper')
  rw [hexDigit?_upperDigit value small, hexDigit?_upperDigit found small'] at same
  rw [is, same]

/-- The bytes of characters that one byte holds, and of no others, are below 128. -/
theorem utf8EncodeChar_of_lt {c : Char} (h : c.toNat < 128) :
    String.utf8EncodeChar c = [UInt8.ofNat c.toNat] := by
  have ascii : c.val.toNat ≤ 127 := Nat.le_of_lt_succ h
  unfold String.utf8EncodeChar
  exact if_pos ascii

theorem exists_utf8EncodeChar_of_ge {c : Char} (h : 128 ≤ c.toNat) :
    ∃ byte rest, String.utf8EncodeChar c = byte :: rest ∧ 128 ≤ byte.toNat := by
  have beyond : ¬ c.val.toNat ≤ 127 := Nat.not_le_of_lt h
  have high {n : Nat} (least : 128 ≤ n) (most : n < 256) : 128 ≤ (UInt8.ofNat n).toNat := by
    rw [UInt8.toNat_ofNat']
    omega
  unfold String.utf8EncodeChar
  dsimp only
  rw [if_neg beyond]
  split
  · exact ⟨_, _, rfl, high (by omega) (by omega)⟩
  · split
    · exact ⟨_, _, rfl, high (by omega) (by omega)⟩
    · exact ⟨_, _, rfl, high (by omega) (by omega)⟩

theorem flatMap_utf8EncodeChar {text : List Char} (ascii : ∀ c ∈ text, c.toNat < 128) :
    text.flatMap String.utf8EncodeChar = text.map fun c => UInt8.ofNat c.toNat := by
  induction text with
  | nil => rfl
  | cons c rest ih =>
    obtain ⟨first, others⟩ := List.forall_mem_cons.mp ascii
    rw [List.flatMap_cons, utf8EncodeChar_of_lt first, ih others]
    rfl

end Text

namespace Hex

open Text

theorem ofNat_ofNat_toNat {c : Char} (ascii : c.toNat < 128) :
    Char.ofNat (UInt8.ofNat c.toNat).toNat = c := by
  rw [UInt8.toNat_ofNat', Nat.mod_eq_of_lt (by omega), Char.ofNat_toNat]

/-- A byte is written as two digits. -/
theorem digits_lt (byte : UInt8) : byte.toNat / 16 < 16 ∧ byte.toNat % 16 < 16 := by
  have below := byte.toNat_lt
  exact ⟨by omega, by omega⟩

/-- Two digits at a time are read as a byte. -/
theorem decodePairs_cons {high low : Char} {h l : Nat} (position : Nat) (rest : List UInt8)
    (first : hexDigit? high = some h) (second : hexDigit? low = some l) :
    decodePairs position (UInt8.ofNat high.toNat :: UInt8.ofNat low.toNat :: rest) =
      (decodePairs (position + 2) rest).map (UInt8.ofNat (16 * h + l) :: ·) := by
  obtain ⟨-, ascii, -⟩ := upperDigit_of_hexDigit? first
  obtain ⟨-, ascii', -⟩ := upperDigit_of_hexDigit? second
  rw [decodePairs, ofNat_ofNat_toNat ascii, ofNat_ofNat_toNat ascii', first, second]

/-- Digits that in upper case are written for some bytes are read as these bytes. -/
theorem decodePairs_of_upper {text : List Char} {bytes : List UInt8} (position : Nat)
    (digits : ∀ c ∈ text, (hexDigit? c).isSome) (upper : text.map Char.toUpper = bytes.flatMap upperByte) :
    decodePairs position (text.map fun c => UInt8.ofNat c.toNat) = .ok bytes := by
  induction bytes generalizing text position with
  | nil =>
    cases List.map_eq_nil_iff.mp upper
    rfl
  | cons byte rest ih =>
    rw [List.flatMap_cons] at upper
    obtain ⟨high, more, rfl, first, behind⟩ := List.map_eq_cons_iff.mp upper
    obtain ⟨low, text, rfl, second, behind⟩ := List.map_eq_cons_iff.mp behind
    obtain ⟨digit, digits⟩ := List.forall_mem_cons.mp digits
    obtain ⟨digit', digits⟩ := List.forall_mem_cons.mp digits
    obtain ⟨small, small'⟩ := digits_lt byte
    have h := hexDigit?_of_toUpper digit small first
    have l := hexDigit?_of_toUpper digit' small' second
    have whole : 16 * (byte.toNat / 16) + byte.toNat % 16 = byte.toNat := Nat.div_add_mod _ _
    rw [List.map_cons, List.map_cons, decodePairs_cons position _ h l, ih (position + 2) digits behind,
      whole, UInt8.ofNat_toNat]
    rfl

/-- What is read in pairs is digits, which in upper case are what is written for the bytes. -/
theorem decodePairs_ok {position : Nat} {text bytes : List UInt8} (even : text.length % 2 = 0)
    (h : decodePairs position text = .ok bytes) :
    (∀ byte ∈ text, (hexDigit? (Char.ofNat byte.toNat)).isSome) ∧
      text.map (fun byte => (Char.ofNat byte.toNat).toUpper) = bytes.flatMap upperByte := by
  fun_induction decodePairs position text generalizing bytes with
  | case1 => cases h
  | case2 => cases h
  | case3 position high low rest digit first digit' second ih =>
    obtain ⟨small, -, upper⟩ := upperDigit_of_hexDigit? first
    obtain ⟨small', -, upper'⟩ := upperDigit_of_hexDigit? second
    cases read : decodePairs (position + 2) rest with
    | error error =>
      rw [read] at h
      cases h
    | ok more =>
      rw [read] at h
      cases h
      obtain ⟨digits, same⟩ := ih (by rw [List.length_cons, List.length_cons] at even; omega) read
      refine ⟨?_, ?_⟩
      · exact List.forall_mem_cons.mpr ⟨by rw [first]; rfl, List.forall_mem_cons.mpr
          ⟨by rw [second]; rfl, digits⟩⟩
      · have byte : (UInt8.ofNat (16 * digit + digit')).toNat = 16 * digit + digit' := by
          rw [UInt8.toNat_ofNat']
          omega
        have top : (16 * digit + digit') / 16 = digit := by omega
        have bottom : (16 * digit + digit') % 16 = digit' := by omega
        rw [List.map_cons, List.map_cons, same, upper, upper', List.flatMap_cons, upperByte, byte, top,
          bottom]
        rfl
  | case4 text position short =>
    cases h
    match text, even with
    | [], _ => exact ⟨List.forall_mem_nil _, rfl⟩
    | high :: low :: rest, _ => exact absurd rfl (short high low rest)

theorem length_flatMap_upperByte (bytes : List UInt8) :
    (bytes.flatMap upperByte).length = 2 * bytes.length := by
  induction bytes with
  | nil => rfl
  | cons byte rest ih =>
    rw [List.flatMap_cons, List.length_append, ih, List.length_cons]
    exact (Nat.mul_succ 2 _).symm ▸ Nat.add_comm _ _

/-- A text whose bytes are all digits has no character of more than one byte, as none of those begins
with a digit. -/
theorem toNat_lt_of_bytes {text : List Char} (digits : ∀ byte ∈ text.flatMap String.utf8EncodeChar,
    (hexDigit? (Char.ofNat byte.toNat)).isSome) : ∀ c ∈ text, c.toNat < 128 := by
  intro c inside
  refine Nat.lt_of_not_le fun beyond => ?_
  obtain ⟨byte, rest, encoded, high⟩ := exists_utf8EncodeChar_of_ge beyond
  have member : byte ∈ text.flatMap String.utf8EncodeChar :=
    List.mem_flatMap.mpr ⟨c, inside, encoded ▸ List.mem_cons_self⟩
  have digit := digits byte member
  rw [hexDigit?_of_ge byte.toNat byte.toNat_lt high] at digit
  cases digit

theorem toNat_lt_of_digits {text : List Char} (digits : ∀ c ∈ text, (hexDigit? c).isSome) :
    ∀ c ∈ text, c.toNat < 128 := by
  intro c inside
  obtain ⟨value, is⟩ := Option.isSome_iff_exists.mp (digits c inside)
  exact (upperDigit_of_hexDigit? is).2.1

/-- Text is read if it is not empty and its bytes are an even number and are read in pairs. -/
theorem decodeDigits_eq_ok_iff_pairs {text : List Char} {bytes : List UInt8} :
    decodeDigits text = .ok bytes ↔ text.flatMap String.utf8EncodeChar ≠ [] ∧
      (text.flatMap String.utf8EncodeChar).length % 2 = 0 ∧
      decodePairs 0 (text.flatMap String.utf8EncodeChar) = .ok bytes := by
  unfold decodeDigits
  dsimp only
  by_cases empty : text.flatMap String.utf8EncodeChar = []
  · simp [empty]
  · rw [if_neg (mt List.isEmpty_iff.mp empty)]
    by_cases odd : (text.flatMap String.utf8EncodeChar).length % 2 = 1
    · rw [if_pos odd]
      constructor
      · intro read
        cases read
      · rintro ⟨-, even, -⟩
        omega
    · rw [if_neg odd, and_iff_right empty, and_iff_right (by omega)]

/-- **What is read as bytes** is digits and nothing else, some of them, which in upper case are what is
written for the bytes. -/
theorem decodeDigits_eq_ok_iff {text : List Char} {bytes : List UInt8} :
    decodeDigits text = .ok bytes ↔ bytes ≠ [] ∧ (∀ c ∈ text, (hexDigit? c).isSome) ∧
      text.map Char.toUpper = bytes.flatMap upperByte := by
  rw [decodeDigits_eq_ok_iff_pairs]
  constructor
  · rintro ⟨nonempty, even, read⟩
    obtain ⟨digits, upper⟩ := decodePairs_ok even read
    have ascii := toNat_lt_of_bytes digits
    rw [flatMap_utf8EncodeChar ascii] at digits upper nonempty
    have same : (text.map fun c => UInt8.ofNat c.toNat).map
        (fun byte => (Char.ofNat byte.toNat).toUpper) = text.map Char.toUpper := by
      rw [List.map_map]
      exact List.map_congr_left fun c inside =>
        congrArg Char.toUpper (ofNat_ofNat_toNat (ascii c inside))
    rw [same] at upper
    refine ⟨?_, ?_, upper⟩
    · rintro rfl
      rw [List.map_eq_nil_iff.mp upper] at nonempty
      exact nonempty rfl
    · intro c inside
      have digit := digits _ (List.mem_map_of_mem inside)
      rwa [ofNat_ofNat_toNat (ascii c inside)] at digit
  · rintro ⟨nonempty, digits, upper⟩
    rw [flatMap_utf8EncodeChar (toNat_lt_of_digits digits)]
    have length := congrArg List.length upper
    rw [List.length_map, length_flatMap_upperByte] at length
    have some : 0 < bytes.length := List.length_pos_iff.mpr nonempty
    refine ⟨?_, ?_, decodePairs_of_upper 0 digits upper⟩
    · rw [← List.length_pos_iff, List.length_map]
      omega
    · rw [List.length_map]
      omega

/-! ## Reading what was written -/

theorem isSome_of_mem_upperByte {byte : UInt8} {c : Char} (h : c ∈ upperByte byte) :
    (hexDigit? c).isSome := by
  obtain ⟨high, low⟩ := digits_lt byte
  rcases List.mem_cons.mp h with rfl | h
  · rw [hexDigit?_upperDigit _ high]
    rfl
  · cases List.mem_singleton.mp h
    rw [hexDigit?_upperDigit _ low]
    rfl

theorem map_toUpper_upperByte (byte : UInt8) : (upperByte byte).map Char.toUpper = upperByte byte := by
  obtain ⟨high, low⟩ := digits_lt byte
  unfold upperByte
  rw [List.map_cons, List.map_cons, toUpper_upperDigit _ high, toUpper_upperDigit _ low]
  rfl

theorem toList_encodeUpper (bytes : List UInt8) : (encodeUpper bytes).toList = bytes.flatMap upperByte :=
  String.toList_ofList

theorem isSome_of_mem_encodeUpper {bytes : List UInt8} :
    ∀ c ∈ (encodeUpper bytes).toList, (hexDigit? c).isSome := by
  rw [toList_encodeUpper]
  intro c inside
  obtain ⟨byte, -, member⟩ := List.mem_flatMap.mp inside
  exact isSome_of_mem_upperByte member

/-- Of the digits of a text strict reading drops none. -/
theorem decodeLenient_eq (text : String) :
    decodeLenient text = decodeDigits (text.toList.filter fun c => (hexDigit? c).isSome) := by
  rw [decodeLenient, decode, String.toList_ofList]
  exact congrArg decodeDigits (filter_of_digits fun _ inside => (List.mem_filter.mp inside).2)

/-- **Bytes that are written are read back**, if there are any. -/
theorem decodeLenient_encodeUpper {bytes : List UInt8} (nonempty : bytes ≠ []) :
    decodeLenient (encodeUpper bytes) = .ok bytes := by
  have upper : (bytes.flatMap upperByte).map Char.toUpper = bytes.flatMap upperByte := by
    rw [List.map_flatMap]
    exact congrArg bytes.flatMap (funext map_toUpper_upperByte)
  rw [decodeLenient_eq, List.filter_eq_self.mpr isSome_of_mem_encodeUpper, decodeDigits_eq_ok_iff]
  refine ⟨nonempty, isSome_of_mem_encodeUpper, ?_⟩
  rw [toList_encodeUpper, upper]

/-- Bytes that are read are written as the text in upper case, without its white space. -/
theorem toList_encodeUpper_of_decode {text : String} {bytes : List UInt8} (h : decode text = .ok bytes) :
    (encodeUpper bytes).toList = (text.toList.filter fun c => !isBlank c).map Char.toUpper := by
  rw [toList_encodeUpper]
  exact (decodeDigits_eq_ok_iff.mp h).2.2.symm

theorem decode_of_decodeExactly {size : Nat} {text : String} {bytes : Vector UInt8 size}
    (h : decodeExactly size text = .ok bytes) : decode text = .ok bytes.toList := by
  unfold decodeExactly at h
  split at h
  · cases h
  · rename_i found decoded
    split at h
    · cases h
      exact decoded
    · cases h

end Hex

end Telemetry
