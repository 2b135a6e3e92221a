import Telemetry.Bits.Stream
import Telemetry.Proofs.Bits.Number

/-!
# Streams as lists of bits

A stream is a list of bits that grows at its end (`written`) and a number of bits read. Its buffer is
that list filled up with zeros to whole bytes (`bytes_eq_pack`), and a read sees the list as if zeros
went on behind it without end (`readUInt_fst`, `readBits_fst`). `Holds` is the relation between a
stream and what has been written and read; every operation preserves it (`Holds.apply`) and so does
any sequence of them (`Holds.run`). `run_ofBytes` is what a user of streams may rely on.
-/

namespace Telemetry

namespace Bits

/-- Bits as bytes, the last one filled up with zeros. -/
def pack (bits : List Bool) : List UInt8 :=
  let size := (bits.length + 7) / 8
  bigEndianBytes size (value (first (8 * size) bits))

/-- The whole bytes that cover some bits of a run that goes on with zeros without end. -/
def covering (bits : List Bool) (start count : Nat) : List UInt8 :=
  if count = 0 then []
  else pack (first (8 * ((start + count + 7) / 8 - start / 8)) (bits.drop (8 * (start / 8))))

theorem ofBytes_pack (bits : List Bool) :
    ofBytes (pack bits) = first (8 * ((bits.length + 7) / 8)) bits := by
  have spelled := ofNat_value (first (8 * ((bits.length + 7) / 8)) bits)
  rw [length_first] at spelled
  rw [pack, ofBytes_bigEndianBytes, spelled]

/-- Bytes are recognised by their bits. -/
theorem eq_pack {bytes : List UInt8} {bits : List Bool} {zeros : Nat} (few : zeros < 8)
    (h : ofBytes bytes = bits ++ List.replicate zeros false) : bytes = pack bits := by
  apply ofBytes_injective
  have total := congrArg List.length h
  rw [length_ofBytes, List.length_append, List.length_replicate] at total
  have size : 8 * ((bits.length + 7) / 8) = bits.length + zeros := by omega
  rw [ofBytes_pack, size, first_of_ge (Nat.le_add_right _ _), Nat.add_sub_cancel_left, h]

theorem ofBytes_drop (bytes : List UInt8) (count : Nat) :
    ofBytes (bytes.drop count) = (ofBytes bytes).drop (8 * count) := by
  induction count generalizing bytes with
  | zero => rfl
  | succ count ih =>
    cases bytes with
    | nil => simp [ofBytes]
    | cons byte rest =>
      rw [List.drop_succ_cons, ih, ofBytes_cons, Nat.mul_succ, Nat.add_comm, ← length_ofByte byte,
        List.drop_length_add_append]

/-- Of a run of bytes with zeros behind it the first byte comes first. -/
theorem first_ofBytes (count : Nat) (bytes : List UInt8) :
    first count (ofBytes bytes) =
      (ofByte (bytes.headD 0)).take count ++ first (count - 8) (ofBytes bytes.tail) := by
  have head : first count (ofBytes bytes) =
      first count (ofByte (bytes.headD 0) ++ ofBytes bytes.tail) := by
    cases bytes with
    | nil =>
      have zero : ofByte 0 ++ [] = [] ++ List.replicate 8 false := by decide
      exact ((congrArg (first count) zero).trans (first_append_replicate count 8 [])).symm
    | cons byte rest => rfl
  rw [head, first_append, length_ofByte]

@[simp] theorem length_window (size : Nat) (bytes : List UInt8) :
    (window size bytes).length = size := by
  have bits := congrArg List.length (ofBytes_window size bytes)
  rw [length_ofBytes, length_first] at bits
  omega

/-- The number in so many bits from a place on, zeros standing in for bits beyond the end. -/
def numberAt (bytes : List UInt8) (place count : Nat) : Nat :=
  value (first count ((ofBytes bytes).drop place))

theorem numberAt_lt (bytes : List UInt8) (place count : Nat) : numberAt bytes place count < 2 ^ count := by
  have bound := value_lt (first count ((ofBytes bytes).drop place))
  rwa [length_first] at bound

end Bits

namespace BitStream

/-- The bits that have been written. -/
def written (s : BitStream) : List Bool :=
  Bits.filled s.bytes s.used

theorem ofBytes_bytes (s : BitStream) :
    Bits.ofBytes s.bytes = s.written ++ List.replicate (Bits.free s.used) false :=
  Bits.filled_append_free s.clear

/-- The buffer is the written bits and nothing else. -/
theorem bytes_eq_pack (s : BitStream) : s.bytes = Bits.pack s.written :=
  Bits.eq_pack (Nat.mod_lt _ (by decide)) s.ofBytes_bytes

theorem used_eq_length_written (s : BitStream) : s.used = s.written.length % 8 := by
  have total := congrArg List.length s.ofBytes_bytes
  have := s.used_lt
  rw [Bits.length_ofBytes, List.length_append, List.length_replicate, Bits.free] at total
  omega

@[simp] theorem written_ofBytes (bytes : List UInt8) : (ofBytes bytes).written = Bits.ofBytes bytes := by
  have whole := (ofBytes bytes).ofBytes_bytes
  simpa [ofBytes, Bits.free] using whole.symm

@[simp] theorem written_empty : empty.written = [] :=
  written_ofBytes []

/-! ## Writing -/

theorem written_writeByte (s : BitStream) (byte : UInt8) {count : Nat} (pos : 0 < count)
    (le : count ≤ 8) :
    (s.writeByte byte count pos le).written = s.written ++ (Bits.ofByte byte).take count := by
  have merged := Bits.ofBytes_mergeByte s.clear s.used_lt byte pos le
  have kept := (s.writeByte byte count pos le).ofBytes_bytes
  exact (List.append_inj_left' (merged.symm.trans kept) rfl).symm

/-- Writing appends the bits, chunk by chunk, and leaves the cursor alone. -/
theorem written_writeBits (s : BitStream) (bytes : List UInt8) (count : Nat) :
    (s.writeBits bytes count).written = s.written ++ Bits.first count (Bits.ofBytes bytes) ∧
      (s.writeBits bytes count).cursor = s.cursor := by
  induction count using Nat.strongRecOn generalizing s bytes with
  | _ count ih =>
    rw [writeBits]
    split
    · rename_i none
      subst none
      simp
    · rename_i some
      obtain ⟨bits, place⟩ := ih (count - min count 8) (by omega)
        (s.writeByte (bytes.headD 0) (min count 8) (by omega) (by omega)) bytes.tail
      refine ⟨?_, place⟩
      have chunk : (Bits.ofByte (bytes.headD 0)).take (min count 8) =
          (Bits.ofByte (bytes.headD 0)).take count := by
        rw [← List.take_take, List.take_of_length_le (Bits.length_ofByte _).le]
      have rest : count - min count 8 = count - 8 := by omega
      rw [bits, written_writeByte, List.append_assoc, Bits.first_ofBytes count, chunk, rest]

theorem written_writeUInt (s : BitStream) (value : Nat) {count : Nat} (narrow : count ≤ 64) :
    (s.writeUInt value count).written = s.written ++ Bits.ofNat count value := by
  rw [writeUInt, (s.written_writeBits _ _).1, Bits.first_leftAligned value narrow]

/-- What has been written to one stream can be appended to another as a run of bits. -/
theorem written_writeBits_bytes (s other : BitStream) :
    (s.writeBits other.bytes other.written.length).written = s.written ++ other.written := by
  rw [(s.written_writeBits _ _).1, other.ofBytes_bytes, Bits.first_append_left _ rfl]

theorem cursor_writeUInt (s : BitStream) (value count : Nat) :
    (s.writeUInt value count).cursor = s.cursor :=
  (s.written_writeBits _ _).2

/-! ## Reading -/

@[simp] theorem written_skip (s : BitStream) (count : Nat) : (s.skip count).written = s.written := rfl

/-- Behind the written bits nothing but zeros is read. -/
theorem first_drop_bytes (s : BitStream) (count place : Nat) :
    Bits.first count ((Bits.ofBytes s.bytes).drop place) =
      Bits.first count (s.written.drop place) := by
  rw [s.ofBytes_bytes, List.drop_append, List.drop_replicate, Bits.first_append_replicate]

/-- The bytes that a read takes hold the bits from the byte of the cursor on. -/
theorem ofBytes_readBits (s : BitStream) (count : Nat) :
    Bits.ofBytes (s.readBits count).1 =
      Bits.first (8 * Bits.bytesCovering (s.cursor % 8) count)
        (s.written.drop (8 * (s.cursor / 8))) := by
  show Bits.ofBytes (Bits.window _ (s.bytes.drop (s.cursor / 8))) = _
  rw [Bits.ofBytes_window, Bits.ofBytes_drop, first_drop_bytes]

theorem readUInt_fst (s : BitStream) {count : Nat} (narrow : count ≤ 64) :
    (s.readUInt count).1 = Bits.value (Bits.first count (s.written.drop s.cursor)) := by
  have inside : s.cursor % 8 < 8 := Nat.mod_lt _ (by decide)
  have place : 8 * (s.cursor / 8) + s.cursor % 8 = s.cursor := Nat.div_add_mod _ _
  have length : (s.readBits count).1.length = Bits.bytesCovering (s.cursor % 8) count :=
    Bits.length_window _ _
  show Bits.extract (s.readBits count).1 count (s.cursor % 8) (s.readBits count).1.length = _
  rw [length, Bits.extract_eq_value _ inside narrow, ofBytes_readBits]
  by_cases none : count = 0
  · subst none
    simp
  · have reach : s.cursor % 8 + count ≤ 8 * Bits.bytesCovering (s.cursor % 8) count := by
      rw [Bits.bytesCovering, if_neg none]
      omega
    rw [Bits.first_drop_first _ reach, List.drop_drop, place]

/-- A number is read from the buffer and the zeros behind it. -/
theorem readUInt_eq_numberAt (s : BitStream) {count : Nat} (narrow : count ≤ 64) :
    (s.readUInt count).1 = Bits.numberAt s.bytes s.cursor count := by
  rw [s.readUInt_fst narrow, ← s.first_drop_bytes, Bits.numberAt]

theorem readBits_fst (s : BitStream) (count : Nat) :
    (s.readBits count).1 = Bits.covering s.written s.cursor count := by
  have bits := s.ofBytes_readBits count
  unfold Bits.covering
  by_cases none : count = 0
  · subst none
    rfl
  · have size : Bits.bytesCovering (s.cursor % 8) count =
        (s.cursor + count + 7) / 8 - s.cursor / 8 := by
      rw [Bits.bytesCovering, if_neg none]
      omega
    rw [if_neg none, ← size, ← bits]
    exact Bits.eq_pack (by decide : 0 < 8) (List.append_nil _).symm

/-! ## Any sequence of operations -/

/-- What can be done with a stream. -/
inductive Op where
  | writeBits (bytes : List UInt8) (count : Nat)
  | writeUInt (value count : Nat)
  | readBits (count : Nat)
  | readUInt (count : Nat)
  | skip (count : Nat)

namespace Op

/-- The stream after an operation. -/
def apply (s : BitStream) : Op → BitStream
  | writeBits bytes count => s.writeBits bytes count
  | writeUInt value count => s.writeUInt value count
  | readBits count => (s.readBits count).2
  | readUInt count => (s.readUInt count).2
  | skip count => s.skip count

/-- The bits that an operation appends. -/
def written : Op → List Bool
  | writeBits bytes count => Bits.first count (Bits.ofBytes bytes)
  | writeUInt value count => Bits.ofNat count value
  | _ => []

/-- The bits that an operation moves the cursor on by. -/
def passed : Op → Nat
  | readBits count | readUInt count | skip count => count
  | _ => 0

/-- The bits that an operation carries as one number, of which 64 are the most. -/
def carried : Op → Nat
  | writeUInt _ count | readUInt count => count
  | _ => 0

/-- The operation appends to the stream. -/
def isWrite : Op → Bool
  | writeBits .. | writeUInt .. => true
  | _ => false

end Op

/-- The stream after a sequence of operations. -/
def run (s : BitStream) (ops : List Op) : BitStream :=
  ops.foldl Op.apply s

/-- The given bits have been written to a stream and so many bits have been read. -/
structure Holds (s : BitStream) (bits : List Bool) (passed : Nat) : Prop where
  written : s.written = bits
  cursor : s.cursor = passed

namespace Holds

/-- An operation appends what it writes and passes what it reads. -/
theorem apply {s : BitStream} {bits : List Bool} {passed : Nat} (h : s.Holds bits passed) {op : Op}
    (narrow : op.carried ≤ 64) : (op.apply s).Holds (bits ++ op.written) (passed + op.passed) := by
  obtain ⟨rfl, rfl⟩ := h
  cases op with
  | writeBits bytes count => exact ⟨(s.written_writeBits _ _).1, (s.written_writeBits _ _).2⟩
  | writeUInt value count => exact ⟨s.written_writeUInt value narrow, s.cursor_writeUInt _ _⟩
  | readBits count => exact ⟨(List.append_nil _).symm, rfl⟩
  | readUInt count => exact ⟨(List.append_nil _).symm, rfl⟩
  | skip count => exact ⟨(List.append_nil _).symm, rfl⟩

/-- What is written and read adds up over a sequence of operations. -/
theorem run {s : BitStream} {bits : List Bool} {passed : Nat} (h : s.Holds bits passed)
    {ops : List Op} (narrow : ∀ op ∈ ops, op.carried ≤ 64) :
    (s.run ops).Holds (bits ++ ops.flatMap Op.written) (passed + (ops.map Op.passed).sum) := by
  induction ops generalizing s bits passed with
  | nil => simpa [BitStream.run] using h
  | cons op rest ih =>
    have step := h.apply (narrow op List.mem_cons_self)
    have steps := ih step fun op h => narrow op (List.mem_cons_of_mem _ h)
    simpa [BitStream.run, Nat.add_assoc] using steps

end Holds

/-- An operation that does not write leaves the buffer as it is. -/
theorem bytes_apply_of_read (s : BitStream) {op : Op} (reads : op.isWrite = false) :
    (op.apply s).bytes = s.bytes ∧ (op.apply s).used = s.used := by
  cases op with
  | writeBits | writeUInt => cases reads
  | readBits | readUInt | skip => exact ⟨rfl, rfl⟩

/-- An operation that writes leaves the cursor and every bit written before as they are. -/
theorem getElem_apply_of_write (s : BitStream) {op : Op} (writes : op.isWrite = true)
    (narrow : op.carried ≤ 64) :
    (op.apply s).cursor = s.cursor ∧
      ∀ i < s.written.length, (Bits.ofBytes (op.apply s).bytes)[i]? = (Bits.ofBytes s.bytes)[i]? := by
  obtain ⟨bits, place⟩ := (Holds.mk rfl rfl : s.Holds s.written s.cursor).apply narrow
  refine ⟨?_, fun i inside => ?_⟩
  · cases op with
    | writeBits | writeUInt => exact place
    | readBits | readUInt | skip => cases writes
  · rw [ofBytes_bytes, bits, ofBytes_bytes, List.append_assoc,
      List.getElem?_append_left inside, List.getElem?_append_left inside]

/--
**Streams are lists of bits.** Let `bits` be the bits of the initial bytes and of all writes so far,
and `passed` the bits read or skipped so far. The buffer is `bits` filled up with zeros, its last byte
is used as far as `bits` reach, and the cursor is at `passed`. What is read next are the bits behind
`passed`, with zeros behind the last. Reads keep the buffer; writes keep the cursor and what was
written before. Since `ops` is any sequence, this holds after every step of one.
-/
theorem run_ofBytes (bytes : List UInt8) (ops : List Op) (narrow : ∀ op ∈ ops, op.carried ≤ 64) :
    let s := (ofBytes bytes).run ops
    let bits := Bits.ofBytes bytes ++ ops.flatMap Op.written
    let passed := (ops.map Op.passed).sum
    s.bytes = Bits.pack bits ∧ s.used = bits.length % 8 ∧ s.cursor = passed ∧
      (∀ count ≤ 64, (s.readUInt count).1 = Bits.value (Bits.first count (bits.drop passed))) ∧
      (∀ count, (s.readBits count).1 = Bits.covering bits passed count) ∧
      (∀ op : Op, op.isWrite = false → (op.apply s).bytes = s.bytes ∧ (op.apply s).used = s.used) ∧
      (∀ op : Op, op.isWrite = true → op.carried ≤ 64 → (op.apply s).cursor = s.cursor ∧
        ∀ i < bits.length, (Bits.ofBytes (op.apply s).bytes)[i]? = (Bits.ofBytes s.bytes)[i]?) ∧
      empty = ofBytes [] := by
  intro s bits passed
  have start : (ofBytes bytes).Holds (Bits.ofBytes bytes) 0 := ⟨written_ofBytes bytes, rfl⟩
  obtain ⟨written, place⟩ := start.run narrow
  rw [Nat.zero_add] at place
  have written : s.written = bits := written
  have place : s.cursor = passed := place
  rw [← written, ← place]
  exact ⟨s.bytes_eq_pack, s.used_eq_length_written, rfl, fun _ narrow => s.readUInt_fst narrow,
    s.readBits_fst, fun _ reads => s.bytes_apply_of_read reads,
    fun _ writes narrow => s.getElem_apply_of_write writes narrow, rfl⟩

/-- A read within a byte, two writes across bytes and a skip, then a read past the end. -/
theorem run_ofBytes_across :
    let ops := [Op.readUInt 3, .writeUInt 5 6, .writeBits [0xF0] 9, .skip 2]
    let s := (ofBytes [0xAB]).run ops
    (∀ op ∈ ops, op.carried ≤ 64) ∧ s.bytes = [0xAB, 0x17, 0xC0] ∧ s.used = 7 ∧ s.cursor = 5 ∧
      (s.readUInt 20).1 = 0x62F80 ∧ (s.readBits 20).1 = [0xAB, 0x17, 0xC0, 0] := by
  intro ops s
  have narrow : ∀ op ∈ ops, op.carried ≤ 64 := by decide
  obtain ⟨bytes, used, cursor, number, covering, -⟩ := run_ofBytes [0xAB] ops narrow
  exact ⟨narrow, bytes.trans (by decide), used.trans (by decide), cursor.trans (by decide),
    (number 20 (by decide)).trans (by decide), (covering 20).trans (by decide)⟩

end BitStream

end Telemetry
