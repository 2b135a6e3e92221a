import Telemetry.Proofs.Hex

/-!
# The grammar of hexadecimal text

Strict reading drops white space and lenient reading drops all that is no digit; what is left is read alike.
It is empty, or takes an odd number of bytes, or is digits, or holds a character that is no digit, and each
of these cases has its own outcome (`Hex.decodeDigits_outcome`). Lenient reading leaves digits only and so
never meets the last case. Characters that are put in and letters of the other case change what is left in
nothing but its case, which the bytes do not depend on (`Hex.decodeDigits_congr`).
-/

namespace Telemetry

namespace Text

/-! ## Spellings of a text -/

/-- A hexadecimal digit of ASCII, of either case. -/
def IsHexDigit (c : Char) : Prop :=
  '0' ≤ c ∧ c ≤ '9' ∨ 'a' ≤ c ∧ c ≤ 'f' ∨ 'A' ≤ c ∧ c ≤ 'F'

instance : DecidablePred IsHexDigit := fun _ => inferInstanceAs (Decidable (_ ∨ _))

theorem isSome_hexDigit?_iff {c : Char} : (hexDigit? c).isSome ↔ IsHexDigit c := by
  unfold hexDigit? IsHexDigit
  split
  · rename_i figure
    exact iff_of_true rfl (.inl figure)
  · rename_i figure
    split
    · rename_i small
      exact iff_of_true rfl (.inr (.inl small))
    · rename_i small
      split
      · rename_i capital
        exact iff_of_true rfl (.inr (.inr capital))
      · rename_i capital
        exact iff_of_false Bool.false_ne_true (not_or.mpr ⟨figure, not_or.mpr ⟨small, capital⟩⟩)

/-- The second text is the first with characters of some kind put in anywhere. -/
inductive Inserted (kind : Char → Prop) : List Char → List Char → Prop where
  | nil : Inserted kind [] []
  | keep (c : Char) {text longer : List Char} (rest : Inserted kind text longer) :
    Inserted kind (c :: text) (c :: longer)
  | insert {c : Char} {text longer : List Char} (added : kind c) (rest : Inserted kind text longer) :
    Inserted kind text (c :: longer)

/-- Who drops characters of that kind does not see what was put in. -/
theorem Inserted.filter_eq {kind : Char → Prop} {keeps : Char → Bool} {text longer : List Char}
    (drops : ∀ c, kind c → keeps c = false) (h : Inserted kind text longer) :
    longer.filter keeps = text.filter keeps := by
  induction h with
  | nil => rfl
  | keep c rest ih => rw [List.filter_cons, List.filter_cons, ih]
  | insert added rest ih => rw [List.filter_cons_of_neg (by simp [drops _ added]), ih]

/-- Only ASCII letters have a case. -/
theorem apply_toUpper {α : Type} {f : Char → α}
    (ascii : ∀ n < 128, f (Char.ofNat n).toUpper = f (Char.ofNat n)) (c : Char) :
    f c.toUpper = f c := by
  by_cases low : c.toNat < 128
  · have here := ascii c.toNat low
    rwa [Char.ofNat_toNat] at here
  · have caseless : ¬ ('a'.val ≤ c.val ∧ c.val ≤ 'z'.val) := by
      rintro ⟨-, below⟩
      exact low (Nat.lt_of_le_of_lt (UInt32.le_iff_toNat_le.mp below) (by decide))
    exact congrArg f (dif_neg caseless)

theorem hexDigit?_toUpper : ∀ c : Char, hexDigit? c.toUpper = hexDigit? c :=
  apply_toUpper (by decide)

theorem isBlank_toUpper : ∀ c : Char, isBlank c.toUpper = isBlank c :=
  apply_toUpper (by decide)

/-- The same characters are kept of texts that differ in case, and they differ in case. -/
theorem map_toUpper_filter {keeps : Char → Bool} (caseless : ∀ c : Char, keeps c.toUpper = keeps c)
    (text : List Char) :
    (text.filter keeps).map Char.toUpper = (text.map Char.toUpper).filter keeps := by
  rw [List.filter_map]
  exact congrArg (List.map Char.toUpper) (List.filter_congr fun c _ => (caseless c).symm)

theorem map_toUpper_lowerByte (byte : UInt8) : (lowerByte byte).map Char.toUpper = upperByte byte := by
  have digits : ∀ value < 16, (lowerDigit value).toUpper = upperDigit value := by decide
  obtain ⟨high, low⟩ := Hex.digits_lt byte
  unfold lowerByte upperByte
  rw [List.map_cons, List.map_cons, digits _ high, digits _ low]
  rfl

theorem length_utf8 (text : List Char) :
    (text.flatMap String.utf8EncodeChar).length = (String.ofList text).utf8ByteSize := by
  simp [String.utf8ByteSize, List.utf8Encode]

end Text

namespace Hex

open Text

/-! ## Outcomes -/

/-- What comes of a text that is read as digits, by what the text is. -/
inductive Outcome (text : List Char) : Except HexError (List UInt8) → Prop where
  | empty (none : text = []) : Outcome text (.error .empty)
  | odd (odd : (String.ofList text).utf8ByteSize % 2 = 1) :
    Outcome text (.error (.oddLength (String.ofList text).utf8ByteSize))
  | read {bytes : List UInt8} (nonempty : bytes ≠ []) (digits : ∀ c ∈ text, IsHexDigit c)
      (upper : text.map Char.toUpper = bytes.flatMap upperByte) : Outcome text (.ok bytes)
  | refused {byte : UInt8} {position : Nat} (nonempty : text ≠ [])
      (even : (String.ofList text).utf8ByteSize % 2 = 0) (other : ∃ c ∈ text, ¬ IsHexDigit c) :
    Outcome text (.error (.invalidDigit byte position))

theorem decodePairs_of_digits {text : List UInt8} (position : Nat)
    (digits : ∀ byte ∈ text, (hexDigit? (Char.ofNat byte.toNat)).isSome) :
    ∃ bytes, decodePairs position text = .ok bytes := by
  fun_induction decodePairs position text with
  | case1 position high low rest none =>
    have digit := digits high List.mem_cons_self
    rw [none] at digit
    cases digit
  | case2 position high low rest value is none =>
    have digit := digits low (List.mem_cons_of_mem _ List.mem_cons_self)
    rw [none] at digit
    cases digit
  | case3 position high low rest value is value' is' ih =>
    obtain ⟨bytes, read⟩ := ih fun byte inside =>
      digits byte (List.mem_cons_of_mem _ (List.mem_cons_of_mem _ inside))
    exact ⟨_, by rw [read]; rfl⟩
  | case4 => exact ⟨_, rfl⟩

theorem decodePairs_error {position : Nat} {text : List UInt8} {error : HexError}
    (h : decodePairs position text = .error error) :
    ∃ byte place, error = .invalidDigit byte place := by
  fun_induction decodePairs position text with
  | case1 position high => cases h; exact ⟨high, position, rfl⟩
  | case2 position high low => cases h; exact ⟨low, position + 1, rfl⟩
  | case3 position high low rest value is value' is' ih =>
    cases read : decodePairs (position + 2) rest with
    | error first =>
      rw [read] at h ih
      cases h
      exact ih rfl
    | ok bytes =>
      rw [read] at h
      cases h
  | case4 => cases h

theorem decodeDigits_outcome (text : List Char) : Outcome text (decodeDigits text) := by
  cases read : decodeDigits text with
  | ok bytes =>
    obtain ⟨nonempty, digits, upper⟩ := decodeDigits_eq_ok_iff.mp read
    exact .read nonempty (fun c inside => isSome_hexDigit?_iff.mp (digits c inside)) upper
  | error error =>
    unfold decodeDigits at read
    simp only [length_utf8] at read
    split at read
    · rename_i none
      cases read
      refine .empty (List.eq_nil_iff_forall_not_mem.mpr fun c inside => ?_)
      have encoded := List.flatMap_eq_nil_iff.mp (List.isEmpty_iff.mp none) c inside
      exact absurd encoded String.utf8EncodeChar_ne_nil
    · rename_i nonempty
      split at read
      · rename_i odd
        cases read
        exact .odd odd
      · rename_i even
        obtain ⟨byte, place, rfl⟩ := decodePairs_error read
        refine .refused (fun none => nonempty (by rw [none]; rfl)) (by omega) ?_
        by_cases digits : ∀ c ∈ text, IsHexDigit c
        · -- Digits are bytes of their own, and digits are read.
          have isSome : ∀ c ∈ text, (hexDigit? c).isSome := fun c inside =>
            isSome_hexDigit?_iff.mpr (digits c inside)
          have ascii := toNat_lt_of_digits isSome
          rw [flatMap_utf8EncodeChar ascii] at read
          have bytes : ∀ byte ∈ text.map fun c => UInt8.ofNat c.toNat,
              (hexDigit? (Char.ofNat byte.toNat)).isSome := by
            intro byte inside
            obtain ⟨c, member, rfl⟩ := List.mem_map.mp inside
            rw [ofNat_ofNat_toNat (ascii c member)]
            exact isSome c member
          obtain ⟨_, whole⟩ := decodePairs_of_digits 0 bytes
          cases whole.symm.trans read
        · simpa using digits

section Upper

variable {text : List Char} {bytes : List UInt8} (upper : text.map Char.toUpper = bytes.flatMap upperByte)

include upper

theorem length_of_upper : text.length = 2 * bytes.length := by
  rw [← length_flatMap_upperByte, ← upper, List.length_map]

theorem ne_nil_of_upper (nonempty : bytes ≠ []) : text ≠ [] := by
  have length := length_of_upper upper
  have pos := List.length_pos_iff.mpr nonempty
  exact List.length_pos_iff.mp (by omega)

theorem isSome_of_upper : ∀ c ∈ text, (hexDigit? c).isSome := by
  intro c inside
  have member : c.toUpper ∈ bytes.flatMap upperByte := upper ▸ List.mem_map_of_mem inside
  obtain ⟨byte, -, written⟩ := List.mem_flatMap.mp member
  rw [← hexDigit?_toUpper]
  exact isSome_of_mem_upperByte written

end Upper

theorem utf8ByteSize_of_digits {text : List Char} (digits : ∀ c ∈ text, IsHexDigit c) :
    (String.ofList text).utf8ByteSize = text.length := by
  have ascii := toNat_lt_of_digits fun c inside => isSome_hexDigit?_iff.mpr (digits c inside)
  rw [← length_utf8, flatMap_utf8EncodeChar ascii, List.length_map]

namespace Outcome

variable {text : List Char} {result : Except HexError (List UInt8)} (outcome : Outcome text result)

include outcome

theorem eq_empty_iff : result = .error .empty ↔ text = [] := by
  cases outcome with
  | empty none => exact iff_of_true rfl none
  | odd odd => exact iff_of_false (by simp) fun none => by simp [none] at odd
  | read nonempty digits upper => exact iff_of_false (by simp) (ne_nil_of_upper upper nonempty)
  | refused nonempty even other => exact iff_of_false (by simp) nonempty

theorem eq_oddLength_iff {n : Nat} :
    result = .error (.oddLength n) ↔ n = (String.ofList text).utf8ByteSize ∧ n % 2 = 1 := by
  cases outcome with
  | empty none =>
    subst none
    refine iff_of_false (by simp) ?_
    rintro ⟨rfl, odd⟩
    exact absurd odd (by decide)
  | odd odd =>
    constructor
    · intro same
      cases same
      exact ⟨rfl, odd⟩
    · rintro ⟨rfl, -⟩
      rfl
  | read nonempty digits upper =>
    refine iff_of_false (by simp) ?_
    rintro ⟨rfl, odd⟩
    rw [utf8ByteSize_of_digits digits, length_of_upper upper] at odd
    omega
  | refused nonempty even other =>
    refine iff_of_false (by simp) ?_
    rintro ⟨rfl, odd⟩
    omega

theorem eq_invalidDigit_iff :
    (∃ byte position, result = .error (.invalidDigit byte position)) ↔
      text ≠ [] ∧ (String.ofList text).utf8ByteSize % 2 = 0 ∧ ∃ c ∈ text, ¬ IsHexDigit c := by
  cases outcome with
  | empty none => exact iff_of_false (by simp) fun refused => refused.1 none
  | odd odd => exact iff_of_false (by simp) fun refused => by omega
  | read nonempty digits upper =>
    refine iff_of_false (by simp) ?_
    rintro ⟨-, -, c, inside, other⟩
    exact other (digits c inside)
  | refused nonempty even other => exact iff_of_true ⟨_, _, rfl⟩ ⟨nonempty, even, other⟩

theorem ne_wrongLength (expected actual : Nat) : result ≠ .error (.wrongLength expected actual) := by
  cases outcome <;> simp

/-- Digits are read if there are some and their number is even. -/
theorem eq_ok_iff :
    (∃ bytes, result = .ok bytes) ↔ text ≠ [] ∧ text.length % 2 = 0 ∧ ∀ c ∈ text, IsHexDigit c := by
  cases outcome with
  | empty none => exact iff_of_false (by simp) fun read => read.1 none
  | odd odd =>
    refine iff_of_false (by simp) ?_
    rintro ⟨-, even, digits⟩
    rw [utf8ByteSize_of_digits digits] at odd
    omega
  | read nonempty digits upper =>
    have length := length_of_upper upper
    exact iff_of_true ⟨_, rfl⟩ ⟨ne_nil_of_upper upper nonempty, by omega, digits⟩
  | refused nonempty even other =>
    refine iff_of_false (by simp) ?_
    rintro ⟨-, -, digits⟩
    obtain ⟨c, inside, not⟩ := other
    exact not (digits c inside)

end Outcome

/-- Digits that differ in case are read alike. -/
theorem decodeDigits_congr {text other : List Char} (digits : ∀ c ∈ text, IsHexDigit c)
    (digits' : ∀ c ∈ other, IsHexDigit c) (upper : text.map Char.toUpper = other.map Char.toUpper) :
    decodeDigits text = decodeDigits other := by
  have length : text.length = other.length := by
    simpa only [List.length_map] using congrArg List.length upper
  have size : (String.ofList text).utf8ByteSize = (String.ofList other).utf8ByteSize := by
    rw [utf8ByteSize_of_digits digits, utf8ByteSize_of_digits digits', length]
  have outcome := decodeDigits_outcome text
  generalize decodeDigits text = result at outcome ⊢
  symm
  cases outcome with
  | empty none =>
    rw [none] at length
    exact (decodeDigits_outcome other).eq_empty_iff.mpr (List.eq_nil_of_length_eq_zero length.symm)
  | odd odd => exact (decodeDigits_outcome other).eq_oddLength_iff.mpr ⟨size, odd⟩
  | read nonempty _ written =>
    exact decodeDigits_eq_ok_iff.mpr
      ⟨nonempty, fun c inside => isSome_hexDigit?_iff.mpr (digits' c inside), upper ▸ written⟩
  | refused _ _ other =>
    obtain ⟨c, inside, not⟩ := other
    exact absurd (digits c inside) not

/-! ## Strict reading -/

section Strict

variable {text : String} {bytes : List UInt8}

/-- What is written between blanks, in any case, is read if blanks are put in anywhere. -/
theorem decode_of_spelling {written spelled : List Char} (nonempty : bytes ≠ [])
    (writes : (written.filter fun c => !isBlank c).map Char.toUpper = bytes.flatMap upperByte)
    (upper : spelled.map Char.toUpper = written.map Char.toUpper)
    (blanks : Inserted (fun c => isBlank c = true) spelled text.toList) : decode text = .ok bytes := by
  have caseless (c : Char) : (!isBlank c.toUpper) = !isBlank c := congrArg not (isBlank_toUpper c)
  have bare : (text.toList.filter fun c => !isBlank c).map Char.toUpper = bytes.flatMap upperByte := by
    rw [blanks.filter_eq fun c blank => by rw [blank]; rfl, map_toUpper_filter caseless, upper,
      ← map_toUpper_filter caseless, writes]
  exact decodeDigits_eq_ok_iff.mpr ⟨nonempty, isSome_of_upper bare, bare⟩

theorem filter_encodeUpper (bytes : List UInt8) :
    ((encodeUpper bytes).toList.filter fun c => !isBlank c).map Char.toUpper = bytes.flatMap upperByte := by
  rw [filter_of_digits isSome_of_mem_encodeUpper, toList_encodeUpper, List.map_flatMap]
  exact congrArg bytes.flatMap (funext map_toUpper_upperByte)

theorem filter_encodeSpaced (bytes : List UInt8) :
    ((encodeSpaced bytes).toList.filter fun c => !isBlank c).map Char.toUpper =
      bytes.flatMap upperByte := by
  have pair (byte : UInt8) : ((lowerByte byte).filter fun c => !isBlank c) = lowerByte byte := by
    have upper : (lowerByte byte).map Char.toUpper = [byte].flatMap upperByte := by
      rw [map_toUpper_lowerByte, List.flatMap_singleton]
    exact filter_of_digits (isSome_of_upper upper)
  rw [encodeSpaced, String.toList_ofList]
  induction bytes with
  | nil => rfl
  | cons byte rest ih =>
    cases rest with
    | nil =>
      simp only [List.map_cons, List.map_nil, List.intersperse_singleton, List.flatten_singleton,
        List.flatMap_singleton, pair, map_toUpper_lowerByte]
    | cons next rest =>
      rw [List.map_cons, List.map_cons, List.intersperse_cons_cons, List.flatten_cons, List.flatten_cons,
        ← List.map_cons, List.filter_append, List.filter_append, List.map_append, List.map_append, ih,
        pair, map_toUpper_lowerByte, List.flatMap_cons]
      rfl

theorem decodeExactly_eq_ok_iff {size : Nat} {held : Vector UInt8 size} :
    decodeExactly size text = .ok held ↔ decode text = .ok held.toList := by
  refine ⟨decode_of_decodeExactly, fun read => ?_⟩
  rw [decodeExactly, read]
  exact (dif_pos held.length_toList).trans
    (congrArg Except.ok (Vector.toArray_inj.mp held.toArray.toArray_toList))

theorem decodeExactly_of_error (size : Nat) {error : HexError} (h : decode text = .error error) :
    decodeExactly size text = .error error := by
  rw [decodeExactly, h]

theorem decodeExactly_eq_wrongLength_iff {size expected actual : Nat} :
    decodeExactly size text = .error (.wrongLength expected actual) ↔
      expected = size ∧ actual ≠ size ∧ ∃ bytes, decode text = .ok bytes ∧ bytes.length = actual := by
  unfold decodeExactly
  cases read : decode text with
  | error error =>
    refine iff_of_false (fun same => ?_) (by simp)
    cases same
    exact (decodeDigits_outcome _).ne_wrongLength _ _ read
  | ok bytes =>
    by_cases fits : bytes.length = size
    · simp only [dif_pos fits]
      refine iff_of_false (by simp) ?_
      rintro ⟨-, other, found, same, length⟩
      cases same
      exact other (length.symm.trans fits)
    · simp only [dif_neg fits]
      constructor
      · intro same
        cases same
        exact ⟨rfl, fits, bytes, rfl, rfl⟩
      · rintro ⟨rfl, -, found, same, rfl⟩
        cases same
        rfl

/-- **Strict reading accepts the grammar of hexadecimal text.** What counts of a text is what is left of it
without white space. Bytes are read from it if and only if it is digits, one or more and an even number, and
they are the bytes that are written as these digits in upper case. It is refused as empty, as odd by its
length in bytes, and in all other cases for a byte that is no digit. Reading a given number of bytes asks for
that number besides. So what is written for bytes, with blanks between them or without, is read as these bytes
in any letter case and with any white space. -/
theorem decode_grammar (text : String) :
    let bare := text.toList.filter fun c => !isBlank c
    let length := (String.ofList bare).utf8ByteSize
    (∀ bytes, decode text = .ok bytes ↔
      bare ≠ [] ∧ bare.length % 2 = 0 ∧ (∀ c ∈ bare, IsHexDigit c) ∧
        String.ofList (bare.map Char.toUpper) = encodeUpper bytes) ∧
    ((∃ bytes, decode text = .ok bytes) ↔
      bare ≠ [] ∧ bare.length % 2 = 0 ∧ ∀ c ∈ bare, IsHexDigit c) ∧
    (decode text = .error .empty ↔ bare = []) ∧
    (∀ n, decode text = .error (.oddLength n) ↔ n = length ∧ n % 2 = 1) ∧
    ((∃ byte position, decode text = .error (.invalidDigit byte position)) ↔
      bare ≠ [] ∧ length % 2 = 0 ∧ ∃ c ∈ bare, ¬ IsHexDigit c) ∧
    (∀ size, (∀ held : Vector UInt8 size,
        decodeExactly size text = .ok held ↔ decode text = .ok held.toList) ∧
      (∀ expected actual, decodeExactly size text = .error (.wrongLength expected actual) ↔
        expected = size ∧ actual ≠ size ∧ ∃ bytes, decode text = .ok bytes ∧ bytes.length = actual) ∧
      ∀ error, decode text = .error error → decodeExactly size text = .error error) ∧
    (∀ (bytes : List UInt8) (written : String) (spelled : List Char), bytes ≠ [] →
      written = encodeUpper bytes ∨ written = encodeSpaced bytes →
      spelled.map Char.toUpper = written.toList.map Char.toUpper →
      Inserted (fun c => isBlank c = true) spelled text.toList → decode text = .ok bytes) := by
  intro bare length
  have outcome : Outcome bare (decode text) := decodeDigits_outcome bare
  refine ⟨?_, outcome.eq_ok_iff, outcome.eq_empty_iff, fun n => outcome.eq_oddLength_iff,
    outcome.eq_invalidDigit_iff, fun size => ⟨fun held => decodeExactly_eq_ok_iff,
      fun expected actual => decodeExactly_eq_wrongLength_iff,
      fun error refused => decodeExactly_of_error size refused⟩, ?_⟩
  · intro bytes
    have written : String.ofList (bare.map Char.toUpper) = encodeUpper bytes ↔
      bare.map Char.toUpper = bytes.flatMap upperByte := String.ofList_inj
    rw [written]
    constructor
    · intro read
      obtain ⟨nonempty, even, digits⟩ := outcome.eq_ok_iff.mp ⟨bytes, read⟩
      exact ⟨nonempty, even, digits, (decodeDigits_eq_ok_iff.mp read).2.2⟩
    · rintro ⟨nonempty, -, digits, upper⟩
      refine decodeDigits_eq_ok_iff.mpr ⟨?_, isSome_of_upper upper, upper⟩
      rintro rfl
      exact nonempty (List.map_eq_nil_iff.mp upper)
  · rintro bytes written spelled nonempty (rfl | rfl) upper blanks
    · exact decode_of_spelling nonempty (filter_encodeUpper bytes) upper blanks
    · exact decode_of_spelling nonempty (filter_encodeSpaced bytes) upper blanks

example : decode "c B\u00a0b\n2" = .ok [0xCB, 0xB2] := rfl

-- The letter takes two bytes, so with the figure there are three.
example : decode "1é" = .error (.oddLength 3) := rfl

end Strict

/-! ## Lenient reading -/

section Lenient

variable {text other : String}

theorem isHexDigit_of_mem_filter (text : String) :
    ∀ c ∈ text.toList.filter fun c => (hexDigit? c).isSome, IsHexDigit c :=
  fun _ inside => isSome_hexDigit?_iff.mp (List.mem_filter.mp inside).2

theorem length_filter_digits (text : List Char) :
    (text.filter fun c => (hexDigit? c).isSome).length = text.countP fun c => IsHexDigit c := by
  rw [← List.countP_eq_length_filter]
  exact List.countP_congr fun c _ => by simp [isSome_hexDigit?_iff]

/-- Lenient reading does not see what is no digit. -/
theorem decodeLenient_of_inserted
    (others : Inserted (fun c => ¬ IsHexDigit c) text.toList other.toList) :
    decodeLenient other = decodeLenient text := by
  rw [decodeLenient_eq, decodeLenient_eq, others.filter_eq fun c not => ?_]
  rw [← Bool.not_eq_true, isSome_hexDigit?_iff]
  exact not

/-- Lenient reading does not see case. -/
theorem decodeLenient_of_upper (upper : other.toList.map Char.toUpper = text.toList.map Char.toUpper) :
    decodeLenient other = decodeLenient text := by
  have caseless (c : Char) : (hexDigit? c.toUpper).isSome = (hexDigit? c).isSome :=
    congrArg Option.isSome (hexDigit?_toUpper c)
  rw [decodeLenient_eq, decodeLenient_eq]
  refine decodeDigits_congr (isHexDigit_of_mem_filter other) (isHexDigit_of_mem_filter text) ?_
  rw [map_toUpper_filter caseless, upper, map_toUpper_filter caseless]

theorem decodeLenient_of_decode {bytes : List UInt8} (h : decode text = .ok bytes) :
    decodeLenient text = .ok bytes := by
  have digits := (decodeDigits_eq_ok_iff.mp h).2.1
  have same : (text.toList.filter fun c => (hexDigit? c).isSome) = text.toList.filter fun c => !isBlank c := by
    rw [← List.filter_eq_self.mpr digits, List.filter_filter]
    refine List.filter_congr fun c _ => ?_
    cases digit : (hexDigit? c).isSome with
    | false => rfl
    | true => rw [isBlank_of_hexDigit? digit]; rfl
  rw [decodeLenient_eq, same]
  exact h

/-- **Lenient reading extends strict reading.** It reads a text by the number of its digits: some and an even
number are read, none and an odd number are refused as such, and nothing is refused for another reason. What
strict reading reads is read as the same bytes, and so is what is written for bytes with anything put in that
is no digit. -/
theorem decodeLenient_extends (text : String) :
    let count := text.toList.countP fun c => IsHexDigit c
    (∀ byte position, decodeLenient text ≠ .error (.invalidDigit byte position)) ∧
    (∀ expected actual, decodeLenient text ≠ .error (.wrongLength expected actual)) ∧
    ((∃ bytes, decodeLenient text = .ok bytes) ↔ 0 < count ∧ count % 2 = 0) ∧
    (decodeLenient text = .error .empty ↔ count = 0) ∧
    (∀ k, decodeLenient text = .error (.oddLength k) ↔ k = count ∧ k % 2 = 1) ∧
    (∀ bytes, decode text = .ok bytes → decodeLenient text = .ok bytes) ∧
    (∀ bytes : List UInt8, bytes ≠ [] →
      Inserted (fun c => ¬ IsHexDigit c) (encodeUpper bytes).toList text.toList →
      decodeLenient text = .ok bytes) := by
  intro count
  have digits := isHexDigit_of_mem_filter text
  have length := length_filter_digits text.toList
  have outcome := decodeDigits_outcome (text.toList.filter fun c => (hexDigit? c).isSome)
  rw [← decodeLenient_eq] at outcome
  refine ⟨?_, outcome.ne_wrongLength, ?_, ?_, ?_, fun bytes => decodeLenient_of_decode, ?_⟩
  · intro byte position refused
    obtain ⟨-, -, c, inside, not⟩ := outcome.eq_invalidDigit_iff.mp ⟨byte, position, refused⟩
    exact not (digits c inside)
  · rw [outcome.eq_ok_iff, ← List.length_pos_iff, length, and_iff_left digits]
  · rw [outcome.eq_empty_iff, ← List.length_eq_zero_iff, length]
  · intro k
    rw [outcome.eq_oddLength_iff, utf8ByteSize_of_digits digits, length]
  · intro bytes nonempty others
    rw [decodeLenient_of_inserted others, decodeLenient_encodeUpper nonempty]

end Lenient

end Hex

end Telemetry
