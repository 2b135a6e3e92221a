import Telemetry.Frame.Draft
import Telemetry.Proofs.Bits.Refinement
import Telemetry.Proofs.Point.Registry
import Telemetry.Proofs.Point.Scalar

/-!
# The bits of a frame

A frame is the bits of its header, then of each field in turn, filled up with zeros to whole bytes
(`encodeFrame_layout`). What a field is written as is settled by its point, in three ways
(`Field.body_cases`); each number of it fits the bits that it gets, and it gets at least one and at
most 64 of them (`Field.body_fits`), so a reader that knows the point can take the body apart again.
-/

namespace Telemetry

/-! ## Numbers that fit their bits -/

theorem FixedPoint.quantize_lt (r : FixedPoint) {bits : Nat} (value : Binary64) (narrow : bits ≤ 64) :
    r.quantize bits value < 2 ^ bits := by
  have below : limit bits < 2 ^ bits := by
    unfold limit
    split
    · rename_i whole
      obtain rfl : bits = 64 := by omega
      decide
    · exact Nat.sub_one_lt (Nat.two_pow_pos bits).ne'
  have clamped (x : Binary64) : x.toNatClamped (limit bits) ≤ limit bits := by
    unfold Binary64.toNatClamped
    split
    · exact Nat.zero_le _
    · split
      · exact Nat.zero_le _
      · exact Nat.le_refl _
    · exact Nat.min_le_left _ _
  exact Nat.lt_of_le_of_lt (clamped _) below

/-! ## Bodies -/

namespace Field

/-- The bits of a body. -/
def bodyBits (body : Body) : List Bool :=
  body.flatMap fun (number, count) => Bits.ofNat count number

theorem textBody_ok {label text : String} {body : Body} (h : textBody label text = .ok body) :
    (∀ c ∈ text.toList, c.toNat < 256) ∧ text.length ≤ 255 ∧
      body = (text.length, lengthBits) :: text.toList.map fun c => (c.toNat, 8) := by
  unfold textBody at h
  split at h
  · cases h
  · rename_i latin
    split at h
    · cases h
    · rename_i short
      cases h
      refine ⟨fun c member => ?_, by omega, rfl⟩
      simpa [Scalar.isLatin1] using List.find?_eq_none.mp latin c member

/-- What an accepted value is written as: steps, the bits of a scalar, or a length and characters. -/
theorem body_cases {point : Descriptor} {value : Value} {body : Body}
    (h : Field.body point value = .ok body) :
    (∃ range, point.encoding = .fixedPoint range ∧
      body = [(range.quantize range.width value.toBinary64, range.width)]) ∨
    (∃ kind bits, point.encoding = .raw kind ∧ bits < 2 ^ kind.bitWidth ∧
      body = [(bits, kind.bitWidth)]) ∨
    ∃ text, point.encoding = .text ∧ value = .text text ∧ (∀ c ∈ text.toList, c.toNat < 256) ∧
      text.length ≤ 255 ∧ body = (text.length, lengthBits) :: text.toList.map fun c => (c.toNat, 8) := by
  unfold Field.body at h
  split at h
  · cases h
  · rename_i range x steps
    cases h
    exact .inl ⟨range, steps, rfl⟩
  · rename_i range s steps
    cases h
    exact .inl ⟨range, steps, rfl⟩
  · rename_i kind s raw
    split at h
    · rename_i same
      cases h
      refine .inr (.inl ⟨kind, s.toBits, raw, Nat.lt_of_lt_of_le s.toBits_lt ?_, rfl⟩)
      have := s.byteWidth_kind_le
      exact Nat.pow_le_pow_right (by decide) (Nat.mul_le_mul_left 8 (same ▸ this))
    · cases h
  · rename_i kind x raw
    split at h
    · rename_i s held
      cases h
      have := s.toBits_lt
      rw [(Scalar.kind_ofBinary64? held).1] at this
      exact .inr (.inl ⟨kind, s.toBits, raw, this, rfl⟩)
    · cases h
  · rename_i text characters
    obtain ⟨latin, short, rfl⟩ := textBody_ok h
    exact .inr (.inr ⟨text, characters, rfl, latin, short, rfl⟩)
  · cases h

theorem isAssigned_of_body {point : Descriptor} {value : Value} {body : Body}
    (h : Field.body point value = .ok body) : point.isAssigned := by
  rcases body_cases h with ⟨_, encoding, _⟩ | ⟨_, _, encoding, _⟩ | ⟨_, encoding, _⟩ <;>
    simp [Descriptor.isAssigned, encoding]

/-- The numbers of an accepted body fit the bits that they get, which no body is without. -/
theorem body_fits {point : Descriptor} {value : Value} {body : Body} (registered : point ∈ Registry.points)
    (h : Field.body point value = .ok body) :
    (∀ number count, (number, count) ∈ body → number < 2 ^ count ∧ count ≤ 64) ∧
      0 < (bodyBits body).length := by
  obtain ⟨-, -, -, width⟩ := Registry.points_sound point registered
  rcases body_cases h with ⟨range, encoding, rfl⟩ | ⟨kind, bits, encoding, fits, rfl⟩ |
    ⟨text, -, -, latin, short, rfl⟩
  · obtain ⟨wide, narrow⟩ := width range.width (by simp [Descriptor.bitCount?, encoding])
    have pos : 0 < range.width := Nat.lt_of_lt_of_le (by decide) wide
    refine ⟨fun number count member => ?_, by simpa [bodyBits] using pos⟩
    cases List.mem_singleton.mp member
    exact ⟨range.quantize_lt _ narrow, narrow⟩
  · obtain ⟨wide, narrow⟩ := width kind.bitWidth (by simp [Descriptor.bitCount?, encoding])
    have pos : 0 < kind.bitWidth := Nat.lt_of_lt_of_le (by decide) wide
    refine ⟨fun number count member => ?_, by simpa [bodyBits] using pos⟩
    cases List.mem_singleton.mp member
    exact ⟨fits, narrow⟩
  · refine ⟨fun number count member => ?_, by simp [bodyBits, lengthBits]⟩
    rcases List.mem_cons.mp member with same | member
    · cases same
      exact ⟨Nat.lt_succ_of_le short, by decide⟩
    · obtain ⟨c, inside, same⟩ := List.mem_map.mp member
      cases same
      exact ⟨latin c inside, by decide⟩

end Field

/-! ## Fields -/

namespace FieldWrite

/-- The point of a field. -/
def point (w : FieldWrite) : Descriptor :=
  Registry.lookup w.key

/-- What the value is written as; nothing for a field that is refused. -/
def body (w : FieldWrite) : Field.Body :=
  (Field.body w.point w.value).toOption.getD []

/-- The point takes the value. -/
def IsAccepted (w : FieldWrite) : Prop :=
  Field.body w.point w.value = .ok w.body

/-- The bits of a field: its position where fields carry one, its key and its body. -/
def bits (positional : Bool) (w : FieldWrite) : List Bool :=
  (if positional then Bits.ofNat 8 w.position.toNat else []) ++ Bits.ofNat 6 w.key.toNat ++
    Field.bodyBits w.body

theorem isAccepted_of_body {w : FieldWrite} {body : Field.Body}
    (carried : Field.body w.point w.value = .ok body) : w.IsAccepted ∧ w.body = body := by
  have same : w.body = body := by
    rw [FieldWrite.body, carried]
    rfl
  exact ⟨by rw [IsAccepted, same, carried], same⟩

theorem IsAccepted.lookup {w : FieldWrite} (h : w.IsAccepted) :
    w.point ∈ Registry.points ∧ w.point.key = w.key :=
  Registry.lookup_of_isAssigned (Field.isAssigned_of_body h)

/-- The key of an accepted field fits its bits and does not end the fields. -/
theorem IsAccepted.key_pos_lt {w : FieldWrite} (h : w.IsAccepted) : 0 < w.key.toNat ∧ w.key.toNat < 64 := by
  obtain ⟨registered, named⟩ := h.lookup
  obtain ⟨-, pos, small, -⟩ := Registry.points_sound _ registered
  rw [named] at pos small
  exact ⟨pos, small⟩

end FieldWrite

namespace Field

theorem written_writeBody (s : BitStream) {body : Body}
    (narrow : ∀ number count, (number, count) ∈ body → count ≤ 64) :
    (writeBody s body).written = s.written ++ bodyBits body := by
  induction body generalizing s with
  | nil => simp [writeBody, bodyBits]
  | cons part rest ih =>
    obtain ⟨number, count⟩ := part
    have fits := narrow number count (List.mem_cons_self ..)
    have later := ih (s.writeUInt number count) fun n c member => narrow n c (List.mem_cons_of_mem _ member)
    rw [s.written_writeUInt number fits, List.append_assoc] at later
    exact later

theorem written_headerStream (key : UInt8) (position : Option UInt8) :
    (headerStream key position).written =
      (match position with | some position => Bits.ofNat 8 position.toNat | none => []) ++
      Bits.ofNat 6 key.toNat := by
  cases position with
  | none =>
    show (BitStream.empty.writeUInt key.toNat 6).written = _
    rw [BitStream.written_writeUInt _ _ (by decide), BitStream.written_empty]
  | some position =>
    show ((BitStream.empty.writeUInt position.toNat 8).writeUInt key.toNat 6).written = _
    rw [BitStream.written_writeUInt _ _ (by decide), BitStream.written_writeUInt _ _ (by decide),
      BitStream.written_empty, List.nil_append]

/-- As many bits are appended of the stream in which a header is put together as it holds. -/
theorem written_writeHeader (s : BitStream) (key : UInt8) (position : Option UInt8) :
    (writeHeader s key position).written = s.written ++
      (match position with | some position => Bits.ofNat 8 position.toNat | none => []) ++
      Bits.ofNat 6 key.toNat := by
  have length : headerBits position.isSome = (headerStream key position).written.length := by
    rw [written_headerStream]
    cases position <;> simp [headerBits, keyBits, positionBits]
  rw [writeHeader, length, BitStream.written_writeBits_bytes, written_headerStream, List.append_assoc]

end Field

/-! ## Frames -/

/-- The bits of a header. -/
def FrameHeader.bits (header : FrameHeader) : List Bool :=
  Bits.ofNat 8 header.flags.byte.toNat ++
    match header.messageId with
    | some id => Bits.ofNat 8 id.toNat
    | none => []

theorem FrameHeader.written_write (header : FrameHeader) (s : BitStream) :
    (header.write s).written = s.written ++ header.bits := by
  obtain ⟨flags, id⟩ := header
  cases id with
  | none =>
    simp only [bits, List.append_nil]
    exact s.written_writeUInt flags.byte.toNat (by decide)
  | some id =>
    show ((s.writeUInt flags.byte.toNat 8).writeUInt id.toNat 8).written = _
    rw [BitStream.written_writeUInt _ _ (by decide), BitStream.written_writeUInt _ _ (by decide),
      List.append_assoc]
    rfl

namespace Draft

/-- A field that a draft takes is accepted, and its bits come behind those of the draft. -/
theorem push_ok {draft longer : Draft} {w : FieldWrite} (h : draft.push w = .ok longer) :
    w.IsAccepted ∧ longer.header = draft.header ∧
      longer.stream.written = draft.stream.written ++ w.bits draft.header.flags.isPositional := by
  unfold push Field.write at h
  cases carried : Field.body w.point w.value with
  | error error =>
    rw [show Registry.lookup w.key = w.point from rfl, carried] at h
    cases h
  | ok body =>
    rw [show Registry.lookup w.key = w.point from rfl, carried] at h
    cases h
    obtain ⟨accepted, same⟩ := FieldWrite.isAccepted_of_body carried
    refine ⟨accepted, rfl, ?_⟩
    have narrow := (Field.body_fits accepted.lookup.1 carried).1
    rw [Field.written_writeBody _ fun n c member => (narrow n c member).2, Field.written_writeHeader,
      FieldWrite.bits, same, position?]
    cases draft.header.flags.isPositional <;> simp

theorem pushAll_ok {draft longer : Draft} {writes : List FieldWrite}
    (h : draft.pushAll writes = .ok longer) :
    (∀ w ∈ writes, w.IsAccepted) ∧
      longer.stream.written = draft.stream.written ++
        writes.flatMap (FieldWrite.bits draft.header.flags.isPositional) := by
  induction writes generalizing draft with
  | nil => cases h; simp
  | cons w rest ih =>
    unfold pushAll at h
    split at h
    · rename_i next pushed
      obtain ⟨accepted, header, bits⟩ := push_ok pushed
      obtain ⟨others, later⟩ := ih h
      refine ⟨List.forall_mem_cons.mpr ⟨accepted, others⟩, ?_⟩
      rw [later, bits, header, List.flatMap_cons, List.append_assoc]
    · cases h

theorem push_of_accepted (draft : Draft) {w : FieldWrite} (accepted : w.IsAccepted) :
    ∃ longer, draft.push w = .ok longer := by
  unfold push Field.write
  rw [show Registry.lookup w.key = w.point from rfl, accepted]
  exact ⟨_, rfl⟩

theorem pushAll_of_accepted (draft : Draft) {writes : List FieldWrite}
    (accepted : ∀ w ∈ writes, w.IsAccepted) : ∃ longer, draft.pushAll writes = .ok longer := by
  induction writes generalizing draft with
  | nil => exact ⟨draft, rfl⟩
  | cons w rest ih =>
    obtain ⟨first, others⟩ := List.forall_mem_cons.mp accepted
    obtain ⟨longer, pushed⟩ := push_of_accepted draft first
    rw [pushAll, pushed]
    exact ih longer others

theorem written_opening (header : FrameHeader) : (opening header).stream.written = header.bits := by
  show (header.write .empty).written = _
  rw [FrameHeader.written_write, BitStream.empty, BitStream.written_ofBytes]
  rfl

/-- Fewer than eight zeros fill up the last byte of a draft. -/
theorem ofBytes_bytes (draft : Draft) :
    ∃ padding < 8, Bits.ofBytes draft.bytes =
      draft.stream.written ++ List.replicate padding false :=
  ⟨Bits.free draft.stream.used, Nat.mod_lt _ (by decide), draft.stream.ofBytes_bytes⟩

end Draft

theorem encodeFrame_of_accepted (header : FrameHeader) {writes : List FieldWrite}
    (accepted : ∀ w ∈ writes, w.IsAccepted) : ∃ bytes, encodeFrame header writes = .ok bytes := by
  obtain ⟨draft, made⟩ := (Draft.opening header).pushAll_of_accepted accepted
  refine ⟨draft.bytes, ?_⟩
  rw [encodeFrame, made]
  rfl

/-- **The layout of a frame.** Header and fields follow each other without gaps, and fewer than eight
zeros fill up the last byte. -/
theorem encodeFrame_layout {header : FrameHeader} {writes : List FieldWrite} {bytes : List UInt8}
    (h : encodeFrame header writes = .ok bytes) :
    (∀ w ∈ writes, w.IsAccepted) ∧ ∃ padding < 8,
      Bits.ofBytes bytes = header.bits ++ writes.flatMap (FieldWrite.bits header.flags.isPositional) ++
        List.replicate padding false := by
  unfold encodeFrame at h
  cases pushed : (Draft.opening header).pushAll writes with
  | error error => rw [pushed] at h; cases h
  | ok draft =>
    rw [pushed] at h
    cases h
    obtain ⟨accepted, bits⟩ := Draft.pushAll_ok pushed
    obtain ⟨padding, few, filled⟩ := draft.ofBytes_bytes
    refine ⟨accepted, padding, few, ?_⟩
    rw [filled, bits, Draft.written_opening]
    rfl

end Telemetry
