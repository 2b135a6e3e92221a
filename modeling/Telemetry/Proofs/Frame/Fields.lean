import Telemetry.Proofs.Frame.Scalars
import Telemetry.Proofs.Frame.Trace

/-!
# Fields written and read

What an accepted field appends to a stream is read back from any buffer that begins with the bits of that
stream, whatever stood there before and whatever came later (`Field.ReadsBack`): position, key and answer
are those of the field, and the reader comes to stand where the field ends (`Field.write_readsBack`).

In the other direction the bits of a number are spelled by the number read from them
(`BitStream.ofNat_readUInt`), so that the value of a raw point or a text is written as the very bits it was
read from (`Field.body_of_read`). A truth value is the exception: any byte but zero reads as true, and only
one of them is written for it.
-/

namespace Telemetry

/-! ## Readers -/

namespace BitStream

/-- What has been written stands at the front of the buffer. -/
theorem written_prefix_bytes (s : BitStream) : s.written <+: Bits.ofBytes s.bytes :=
  ⟨_, s.ofBytes_bytes.symm⟩

/-- A reader that stands behind some bits of its buffer is ahead of the bits after them. -/
theorem ahead_of_prefix {reader : BitStream} {front bits : List Bool}
    (holds : front ++ bits <+: Bits.ofBytes reader.bytes) (place : reader.cursor = front.length) :
    ∃ rest, reader.Ahead (bits ++ rest) ∧ reader.size = (front ++ bits).length + rest.length := by
  obtain ⟨rest, whole⟩ := holds
  have size : reader.size = (front ++ bits).length + rest.length := by
    have length := congrArg List.length whole
    rw [Bits.length_ofBytes, List.length_append] at length
    exact length.symm
  refine ⟨rest, ⟨?_, ?_⟩, size⟩
  · rw [size, place, List.length_append, List.length_append, Nat.add_assoc]
  · rw [place, ← whole, List.append_assoc, List.drop_left]

/-- A number that is read spells the bits that were read, as long as they lie in the buffer. -/
theorem ofNat_readUInt {s : BitStream} {count : Nat} (narrow : count ≤ 64)
    (inside : s.cursor + count ≤ s.size) :
    Bits.ofNat count (s.readUInt count).1 = ((Bits.ofBytes s.bytes).drop s.cursor).take count ∧
      (s.readUInt count).1 < 2 ^ count := by
  have length : (((Bits.ofBytes s.bytes).drop s.cursor).take count).length = count := by
    rw [List.length_take, List.length_drop, Bits.length_ofBytes]
    exact Nat.min_eq_left (Nat.le_sub_of_add_le (by rw [Nat.add_comm]; exact inside))
  have long : count ≤ ((Bits.ofBytes s.bytes).drop s.cursor).length := by
    rw [List.length_take] at length
    omega
  rw [s.readUInt_fst narrow, ← first_drop_bytes, Bits.first_of_le long]
  have spelled := Bits.ofNat_value (((Bits.ofBytes s.bytes).drop s.cursor).take count)
  have small := Bits.value_lt (((Bits.ofBytes s.bytes).drop s.cursor).take count)
  rw [length] at spelled small
  exact ⟨spelled, small⟩

end BitStream

/-! ## Reading what was written -/

namespace FieldWrite

/-- What reading an accepted field answers. -/
def answer (w : FieldWrite) : Except FieldError Value :=
  match w.fault? with
  | some code => .error (.deviceFault code)
  | none => .ok w.echo

end FieldWrite

namespace Field

theorem read_answer {w : FieldWrite} {s : BitStream} {rest : List Bool} (accepted : w.IsAccepted)
    (h : s.Ahead (bodyBits w.body ++ rest)) :
    ∃ behind, read s w.key = (w.answer, behind) ∧ behind.Ahead rest := by
  obtain ⟨behind, value, ahead⟩ := readValue?_body accepted h
  refine ⟨behind, ?_, ahead⟩
  unfold read FieldWrite.answer
  rw [show Registry.lookup w.key = w.point from rfl, value]
  dsimp only
  rw [FieldWrite.faultCode?_echo accepted]
  cases w.fault? <;> rfl

theorem cursor_writeBody (s : BitStream) (body : Body) : (writeBody s body).cursor = s.cursor := by
  induction body generalizing s with
  | nil => rfl
  | cons part rest ih => exact (ih _).trans (s.cursor_writeUInt part.1 part.2)

theorem cursor_writeHeader (s : BitStream) (key : UInt8) (position : Option UInt8) :
    (writeHeader s key position).cursor = s.cursor :=
  (s.written_writeBits _ _).2

/-- A field as it is written under a position or without one. -/
def fieldOf (value : Value) (key : UInt8) (position : Option UInt8) : FieldWrite :=
  ⟨key, position.getD 0, value⟩

/-- An accepted field comes behind what has been written, and the cursor stays. -/
theorem write_of_accepted (s : BitStream) {value : Value} {key : UInt8} {position : Option UInt8}
    (accepted : (fieldOf value key position).IsAccepted) :
    ∃ t, write s value key position = .ok t ∧ t.cursor = s.cursor ∧
      t.written = s.written ++ (fieldOf value key position).bits position.isSome := by
  have narrow := (body_fits accepted.lookup.1 accepted).1
  refine ⟨writeBody (writeHeader s key position) (fieldOf value key position).body, ?_, ?_, ?_⟩
  · show (body (fieldOf value key position).point (fieldOf value key position).value).map _ = _
    rw [accepted]
    rfl
  · rw [cursor_writeBody, cursor_writeHeader]
  · rw [written_writeBody _ fun n c member => (narrow n c member).2, written_writeHeader,
      FieldWrite.bits, fieldOf]
    cases position <;> simp

/-- A reader of any buffer that begins with all bits of the one stream, standing where those of the other
end, comes to this position, this key and this answer, and then stands behind all bits. -/
def ReadsBack (before after : BitStream) (key : UInt8) (position : Option UInt8)
    (answer : Except FieldError Value) : Prop :=
  ∀ reader : BitStream, after.written <+: Bits.ofBytes reader.bytes →
    reader.cursor = before.written.length →
    ∃ body, Frame.readFieldHeader position.isSome reader = (position.map UInt8.toNat, key, body) ∧
      (read body key).1 = answer ∧ (read body key).2.cursor = after.written.length

/-- In particular the longer stream itself is such a buffer. -/
theorem ReadsBack.self {before after : BitStream} {key : UInt8} {position : Option UInt8}
    {answer : Except FieldError Value} (back : ReadsBack before after key position answer) :
    ∃ body, Frame.readFieldHeader position.isSome { after with cursor := before.written.length } =
        (position.map UInt8.toNat, key, body) ∧
      (read body key).1 = answer ∧ (read body key).2.cursor = after.written.length :=
  back _ after.written_prefix_bytes rfl

/-- **A field is read back from where it was written.** -/
theorem write_readsBack (s : BitStream) {value : Value} {key : UInt8} {position : Option UInt8}
    (accepted : (fieldOf value key position).IsAccepted) :
    ∃ t, write s value key position = .ok t ∧ t.cursor = s.cursor ∧
      ReadsBack s t key position (fieldOf value key position).answer := by
  obtain ⟨t, wrote, cursor, bits⟩ := write_of_accepted s accepted
  refine ⟨t, wrote, cursor, fun reader holds place => ?_⟩
  rw [bits] at holds
  obtain ⟨rest, ahead, size⟩ := BitStream.ahead_of_prefix holds place
  rw [FieldWrite.bits, List.append_assoc _ (bodyBits _)] at ahead
  obtain ⟨body, header, behind⟩ := Frame.readFieldHeader_bits accepted.key_pos_lt.2 ahead
  obtain ⟨after, answer, last⟩ := read_answer accepted behind
  have answer : read body key = ((fieldOf value key position).answer, after) := answer
  refine ⟨body, ?_, by rw [answer], ?_⟩
  · rw [header]
    cases position <;> rfl
  · -- Nothing but what follows the field is left ahead, and reading does not change the buffer.
    have skipped : body.bytes = reader.bytes := by
      have moved := Frame.readFieldHeader_rest position.isSome reader
      rw [header] at moved
      exact (congrArg BitStream.bytes moved).trans (BitStream.bytes_skip _ _)
    have kept : after.size = reader.size := by
      have same := (read_rest body key).2
      rw [answer, skipped] at same
      rw [BitStream.size, same, BitStream.size]
    have left := last.inside
    rw [kept, size] at left
    rw [answer, bits]
    exact Nat.add_right_cancel left

/-! ## Writing what was read -/

theorem bodyBits_cons (number count : Nat) (body : Body) :
    bodyBits ((number, count) :: body) = Bits.ofNat count number ++ bodyBits body := rfl

theorem bodyBits_singleton (number count : Nat) : bodyBits [(number, count)] = Bits.ofNat count number :=
  List.append_nil _

/-- Characters that are read spell the bits that were read, as long as they lie in the buffer. -/
theorem readChars_bits {count : Nat} {s : BitStream} (inside : s.cursor + 8 * count ≤ s.size) :
    bodyBits ((readChars count s).1.map fun c => (c.toNat, 8)) =
        ((Bits.ofBytes s.bytes).drop s.cursor).take (8 * count) ∧
      ∀ c ∈ (readChars count s).1, c.toNat < 256 := by
  induction count generalizing s with
  | zero => exact ⟨rfl, List.forall_mem_nil _⟩
  | succ count ih =>
    obtain ⟨spelled, small⟩ := s.ofNat_readUInt (show 8 ≤ 64 by decide) (by omega)
    have later : (s.skip 8).cursor + 8 * count ≤ (s.skip 8).size := by
      rw [BitStream.cursor_skip, BitStream.size_skip]
      omega
    obtain ⟨bits, latin⟩ := ih later
    have valid := Scalar.toNat_ofNat_of_lt small
    have chars : (readChars (count + 1) s).1 =
        Char.ofNat (s.readUInt 8).1 :: (readChars count (s.skip 8)).1 := rfl
    rw [chars]
    refine ⟨?_, List.forall_mem_cons.mpr ⟨by rw [valid]; exact small, latin⟩⟩
    rw [List.map_cons, bodyBits_cons, bits, valid, spelled, BitStream.bytes_skip, BitStream.cursor_skip,
      ← List.drop_drop, Nat.mul_succ, Nat.add_comm (8 * count), List.take_add]

theorem body_scalar {point : Descriptor} {kind : ScalarKind} (slot : point.encoding = .raw kind) {a : Scalar}
    (held : a.byteWidth = kind.byteWidth) :
    Field.body point (.scalar a) = .ok [(a.toBits, kind.bitWidth)] := by
  unfold Field.body
  rw [slot]
  exact if_pos held

/-- The value that is read of a raw point, written again, is the bits it was read from. -/
theorem body_ofBits {point : Descriptor} {kind : ScalarKind} (slot : point.encoding = .raw kind)
    {s : BitStream} (truth : kind = .bool → (s.readUInt 8).1 ≤ 1)
    (inside : s.cursor + kind.bitWidth ≤ s.size) :
    ∃ body, Field.body point (.scalar (Scalar.ofBits kind (s.readUInt kind.bitWidth).1)) = .ok body ∧
      bodyBits body = ((Bits.ofBytes s.bytes).drop s.cursor).take kind.bitWidth := by
  have narrow : kind.bitWidth ≤ 64 := by cases kind <;> decide
  obtain ⟨spelled, fits⟩ := s.ofNat_readUInt narrow inside
  have same := Scalar.toBits_ofBits fits (by rintro rfl; exact truth rfl)
  refine ⟨_, body_scalar slot (Scalar.byteWidth_ofBits _ _), ?_⟩
  rw [same, bodyBits_singleton, spelled]

/-- A text of up to 255 of the first 256 characters is its length and those characters. -/
theorem body_text {point : Descriptor} (encoding : point.encoding = .text) {text : String}
    (latin : ∀ c ∈ text.toList, c.toNat < 256) (short : text.length ≤ 255) :
    Field.body point (.text text) =
      .ok ((text.length, lengthBits) :: text.toList.map fun c => (c.toNat, 8)) := by
  have none : text.toList.find? (fun c => !Scalar.isLatin1 c) = none := by
    rw [List.find?_eq_none]
    intro c member
    simpa [Scalar.isLatin1] using latin c member
  unfold Field.body textBody
  rw [encoding]
  dsimp only
  rw [none]
  exact if_neg (by omega)

/-- The text that is read, written again, is the bits it was read from. -/
theorem body_ofList {point : Descriptor} (encoding : point.encoding = .text) {s : BitStream}
    (inside : s.cursor + 8 + 8 * (s.readUInt 8).1 ≤ s.size) :
    ∃ body, Field.body point (.text (String.ofList (readChars (s.readUInt 8).1 (s.skip 8)).1)) = .ok body ∧
      bodyBits body = ((Bits.ofBytes s.bytes).drop s.cursor).take (8 + 8 * (s.readUInt 8).1) := by
  obtain ⟨spelled, short⟩ := s.ofNat_readUInt (show 8 ≤ 64 by decide) (by omega)
  have room : (s.skip 8).cursor + 8 * (s.readUInt 8).1 ≤ (s.skip 8).size := by
    rw [BitStream.cursor_skip, BitStream.size_skip]
    exact inside
  obtain ⟨bits, latin⟩ := readChars_bits room
  let text := String.ofList (readChars (s.readUInt 8).1 (s.skip 8)).1
  have chars : text.toList = (readChars (s.readUInt 8).1 (s.skip 8)).1 := String.toList_ofList
  have count : text.length = (s.readUInt 8).1 := by
    rw [String.length_ofList, length_readChars]
  have carried := body_text encoding (chars ▸ latin) (by omega : text.length ≤ 255)
  rw [chars, count] at carried
  refine ⟨_, carried, ?_⟩
  rw [bodyBits_cons, bits, show lengthBits = 8 from rfl, spelled, BitStream.bytes_skip,
    BitStream.cursor_skip, ← List.drop_drop, List.take_add]

/-- **The value of a raw point or a text is written as the bits it was read from.** -/
theorem body_of_read {s rest : BitStream} {key : UInt8} {value : Value}
    (whole : (Registry.lookup key).encoding = .text ∨
      ∃ kind, (Registry.lookup key).encoding = .raw kind ∧ (kind = .bool → (s.readUInt 8).1 ≤ 1))
    (answer : read s key = (.ok value, rest)) (inside : rest.overran = false) :
    ∃ body, Field.body (Registry.lookup key) value = .ok body ∧
      bodyBits body = ((Bits.ofBytes s.bytes).drop s.cursor).take (rest.cursor - s.cursor) := by
  rw [BitStream.overran_eq_false_iff] at inside
  unfold read at answer
  rcases whole with text | ⟨kind, slot, truth⟩
  · rw [text, readValue?_text] at answer
    simp only [faultCode?_text, readChars_snd, BitStream.readUInt_snd, BitStream.skip_skip] at answer
    cases answer
    rw [BitStream.cursor_skip, BitStream.size_skip] at inside
    rw [BitStream.cursor_skip, Nat.add_sub_cancel_left]
    exact body_ofList text (by rw [Nat.add_assoc]; exact inside)
  · rw [slot, readValue?_raw] at answer
    dsimp only at answer
    split at answer
    · cases answer
    · cases answer
      rw [BitStream.readUInt_snd, BitStream.cursor_skip, BitStream.size_skip] at inside
      rw [BitStream.readUInt_snd, BitStream.cursor_skip, Nat.add_sub_cancel_left]
      exact body_ofBits slot truth inside

/-! ## Both directions -/

theorem fieldOf_scalar {key : UInt8} {kind : ScalarKind} (slot : (Registry.lookup key).encoding = .raw kind)
    {a : Scalar} (same : a.kind = kind) (held : a.byteWidth = kind.byteWidth) (position : Option UInt8) :
    (fieldOf (.scalar a) key position).IsAccepted ∧
      (fieldOf (.scalar a) key position).answer =
        if key = 43 ∧ a.toBits ≠ 0 then .error (.deviceFault (UInt8.ofNat a.toBits))
        else .ok (.scalar a) := by
  have carried := body_scalar slot held
  obtain ⟨accepted, body⟩ := FieldWrite.isAccepted_of_body (w := fieldOf (.scalar a) key position) carried
  have echo := FieldWrite.echo_raw (w := fieldOf (.scalar a) key position) slot body
  rw [← same, Scalar.ofBits_toBits (same ▸ held)] at echo
  have code : (fieldOf (.scalar a) key position).fault? =
      if key = 43 ∧ a.toBits ≠ 0 then some (UInt8.ofNat a.toBits) else none := by
    unfold FieldWrite.fault?
    rw [body]
    rfl
  refine ⟨accepted, ?_⟩
  unfold FieldWrite.answer
  rw [code, echo]
  by_cases fault : key = 43 ∧ a.toBits ≠ 0
  · rw [if_pos fault, if_pos fault]
  · rw [if_neg fault, if_neg fault]

theorem fieldOf_text {key : UInt8} (encoding : (Registry.lookup key).encoding = .text) {text : String}
    (latin : ∀ c ∈ text.toList, c.toNat < 256) (short : text.length ≤ 255) (position : Option UInt8) :
    (fieldOf (.text text) key position).IsAccepted ∧
      (fieldOf (.text text) key position).answer = .ok (.text text) := by
  have carried := body_text encoding latin short
  obtain ⟨accepted, -⟩ := FieldWrite.isAccepted_of_body (w := fieldOf (.text text) key position) carried
  have other : key ≠ 43 := by
    rintro rfl
    exact absurd encoding (by decide)
  have echo := FieldWrite.echo_text (w := fieldOf (.text text) key position) encoding
  refine ⟨accepted, ?_⟩
  unfold FieldWrite.answer
  rw [FieldWrite.fault?_of_ne other, echo]
  rfl

/-- **Raw fields and texts are read and written without loss.** A scalar of the kind of a raw point, of the
characters only one of the first 256, is read back as it is, wherever it was written, or as the fault that it
reports under key 43; so is a text of up to 255 such characters. What is read of such points without running
past the end, for a truth value zero or one, is written again, wherever that may be, as the very bits that
were read. -/
theorem write_read_inverse (key : UInt8) :
    (∀ (kind : ScalarKind) (a : Scalar), (Registry.lookup key).encoding = .raw kind → a.kind = kind →
      (∀ c, a = .char c → c.toNat < 256) → ∀ (s : BitStream) (position : Option UInt8),
        ∃ t, write s (.scalar a) key position = .ok t ∧ t.cursor = s.cursor ∧
          (∀ code, key = 43 → a = .uint8 code → code ≠ 0 →
            ReadsBack s t key position (.error (.deviceFault code))) ∧
          ((key = 43 → a = .uint8 0) → ReadsBack s t key position (.ok (.scalar a)))) ∧
    (∀ text : String, (Registry.lookup key).encoding = .text → (∀ c ∈ text.toList, c.toNat < 256) →
      text.length ≤ 255 → ∀ (s : BitStream) (position : Option UInt8),
        ∃ t, write s (.text text) key position = .ok t ∧ t.cursor = s.cursor ∧
          ReadsBack s t key position (.ok (.text text))) ∧
    (∀ (s rest : BitStream) (value : Value),
      ((Registry.lookup key).encoding = .text ∨
        ∃ kind, (Registry.lookup key).encoding = .raw kind ∧ (kind = .bool → (s.readUInt 8).1 ≤ 1)) →
      read s key = (.ok value, rest) → rest.overran = false →
      ∀ (u : BitStream) (position : Option UInt8), ∃ t, write u value key position = .ok t ∧
        t.written = (writeHeader u key position).written ++
          ((Bits.ofBytes s.bytes).drop s.cursor).take (rest.cursor - s.cursor)) := by
  refine ⟨?_, ?_, ?_⟩
  · intro kind a slot same latin s position
    obtain ⟨accepted, answer⟩ := fieldOf_scalar slot same (same ▸ Scalar.byteWidth_of_latin latin) position
    obtain ⟨t, wrote, cursor, back⟩ := write_readsBack s accepted
    rw [answer] at back
    refine ⟨t, wrote, cursor, ?_, ?_⟩
    · rintro code rfl rfl nonzero
      have some : (Scalar.uint8 code).toBits ≠ 0 := fun zero => nonzero (UInt8.toNat_inj.mp zero)
      rw [if_pos ⟨rfl, some⟩, show UInt8.ofNat (Scalar.uint8 code).toBits = code from UInt8.ofNat_toNat] at back
      exact back
    · intro zero
      have plain : ¬ (key = 43 ∧ a.toBits ≠ 0) := by
        rintro ⟨fault, some⟩
        rw [zero fault] at some
        exact some rfl
      rwa [if_neg plain] at back
  · intro text encoding latin short s position
    obtain ⟨accepted, answer⟩ := fieldOf_text encoding latin short position
    obtain ⟨t, wrote, cursor, back⟩ := write_readsBack s accepted
    rw [answer] at back
    exact ⟨t, wrote, cursor, back⟩
  · intro s rest value whole answer inside u position
    obtain ⟨body, carried, bits⟩ := body_of_read whole answer inside
    have registered := (Registry.lookup_of_isAssigned (isAssigned_of_body carried)).1
    have narrow := (body_fits registered carried).1
    refine ⟨writeBody (writeHeader u key position) body, ?_, ?_⟩
    · unfold write
      rw [carried]
      rfl
    · rw [written_writeBody _ fun n c member => (narrow n c member).2, bits]

/-- A fault written behind three bits under a position, and a number with a payload that is no number. -/
theorem write_read_inverse_fault :
    (∃ t body, write (BitStream.empty.writeUInt 5 3) (.scalar (.uint8 17)) 43 (some 200) = .ok t ∧
      Frame.readFieldHeader true { t with cursor := 3 } = (some 200, 43, body) ∧
      (read body 43).1 = .error (.deviceFault 17)) ∧
    ∃ t body, write (.ofBytes [0xAB]) (.scalar (.binary32 ⟨0x7FC12345⟩)) 30 none = .ok t ∧
      Frame.readFieldHeader false { t with cursor := 8 } = (none, 30, body) ∧
      (read body 30).1 = .ok (.scalar (.binary32 ⟨0x7FC12345⟩)) := by
  obtain ⟨t, wrote, -, fault, -⟩ := (write_read_inverse 43).1 .uint8 (.uint8 17) rfl rfl (by nofun)
    (BitStream.empty.writeUInt 5 3) (some 200)
  obtain ⟨u, wrote', -, -, plain⟩ := (write_read_inverse 30).1 .binary32 (.binary32 ⟨0x7FC12345⟩) rfl rfl
    (by nofun) (.ofBytes [0xAB]) none
  have place : (BitStream.empty.writeUInt 5 3).written.length = 3 := by decide +kernel
  obtain ⟨body, header, answer, -⟩ := (fault 17 rfl rfl (by decide)).self
  rw [place] at header
  obtain ⟨body', header', answer', -⟩ := (plain (by decide)).self
  exact ⟨⟨t, body, wrote, header, answer⟩, ⟨u, body', wrote', header', answer'⟩⟩

end Field

end Telemetry
