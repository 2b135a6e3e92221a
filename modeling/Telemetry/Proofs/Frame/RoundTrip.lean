import Telemetry.Frame.Reading
import Telemetry.Proofs.Bits.Ahead
import Telemetry.Proofs.Frame.Layout

/-!
# Reading a frame back

A reader that is ahead of the bits of a field delivers the field and is ahead of what follows it
(`Frame.nextField_bits`); between fields it keeps, for every key, the count of the fields so far
(`Frame.Progress.Counts`). So it delivers field after field until only the filling of the last byte
lies ahead, which is too short for another field or reads as the end marker
(`Frame.readFields_bits`).
-/

namespace Telemetry

/-! ## What a field comes back as -/

namespace FieldWrite

/-- The value that an accepted field is read as: a number in the steps of its range, the scalar whose
bits were written, or the same text. -/
def echo (w : FieldWrite) : Value :=
  match w.point.encoding, w.body with
  | .fixedPoint range, _ => .number (range.dequantize (range.quantize range.width w.value.toBinary64))
  | .raw kind, [(bits, _)] => .scalar (Scalar.ofBits kind bits)
  | _, _ => w.value

theorem echo_fixedPoint {w : FieldWrite} {range : FixedPoint} (h : w.point.encoding = .fixedPoint range) :
    w.echo = .number (range.dequantize (range.quantize range.width w.value.toBinary64)) := by
  rw [echo, h]

theorem echo_raw {w : FieldWrite} {kind : ScalarKind} {bits count : Nat}
    (h : w.point.encoding = .raw kind) (body : w.body = [(bits, count)]) :
    w.echo = .scalar (Scalar.ofBits kind bits) := by
  rw [echo, h, body]

theorem echo_text {w : FieldWrite} (h : w.point.encoding = .text) : w.echo = w.value := by
  rw [echo, h]

/-- The fault that an accepted field reports: under key 43, the number written unless it is zero. -/
def fault? (w : FieldWrite) : Option UInt8 :=
  match w.body with
  | [(code, _)] => if w.key = 43 ∧ code ≠ 0 then some (UInt8.ofNat code) else none
  | _ => none

theorem fault?_of_ne {w : FieldWrite} (other : w.key ≠ 43) : w.fault? = none := by
  unfold fault?
  split
  · exact if_neg fun both => other both.1
  · rfl

theorem faultCode?_of_ne {key : UInt8} (other : key ≠ 43) (value : Value) :
    Field.faultCode? key value = none := by
  unfold Field.faultCode?
  split
  · exact if_neg fun both => other both.1
  · rfl

theorem faultCode?_echo {w : FieldWrite} (accepted : w.IsAccepted) :
    Field.faultCode? w.key w.echo = w.fault? := by
  by_cases here : w.key = 43
  · -- The point of key 43 is a byte, so what is read is the number that was written.
    have encoding : w.point.encoding = .raw .uint8 := by
      rw [point, here]
      rfl
    rcases Field.body_cases accepted with ⟨range, other, -⟩ | ⟨kind, code, same, fits, body⟩ |
      ⟨text, other, -⟩
    · cases encoding.symm.trans other
    · cases encoding.symm.trans same
      have nonzero : UInt8.ofNat code ≠ 0 ↔ code ≠ 0 := by
        rw [ne_eq, ne_eq, ← UInt8.toNat_inj, UInt8.toNat_ofNat_of_lt' fits]
        rfl
      rw [echo_raw encoding body, fault?, body]
      simp only [Scalar.ofBits, Field.faultCode?, Registry.faultKey, here, nonzero]
    · cases encoding.symm.trans other
  · rw [faultCode?_of_ne here, fault?_of_ne here]

/-- What an accepted field is delivered as under an index. -/
def reading (w : FieldWrite) (index : Nat) : Reading :=
  match w.fault? with
  | some code =>
    { name := s!"{w.point.label}_{index}"
      key := w.key
      index := index
      value := Binary64.zero false
      text := none
      error := some (.deviceFault code) }
  | none =>
    { name := s!"{w.point.label}_{index}"
      key := w.key
      index := index
      value := w.echo.toBinary64
      text := match w.echo with
        | .text text => some text
        | _ => none
      error := none }

theorem reading_name (w : FieldWrite) (index : Nat) :
    (w.reading index).name = s!"{w.point.label}_{index}" ∧ (w.reading index).key = w.key := by
  unfold reading
  split <;> exact ⟨rfl, rfl⟩

/-- A text is delivered as it was written. -/
theorem reading_text {w : FieldWrite} {text : String} (encoding : w.point.encoding = .text)
    (value : w.value = .text text) (index : Nat) : (w.reading index).text = some text := by
  have other : w.key ≠ 43 := by
    intro fault
    rw [point, fault] at encoding
    exact absurd encoding (by decide)
  unfold reading
  rw [fault?_of_ne other, echo_text encoding, value]

/-- The index of a field behind others. -/
def indexAfter (positional : Bool) (before : List FieldWrite) (w : FieldWrite) : Nat :=
  if positional then w.position.toNat else before.countP (fun v => v.key = w.key) + 1

end FieldWrite

namespace Field

/-! ## Bodies -/

theorem readValue?_fixedPoint (s : BitStream) (range : FixedPoint) :
    readValue? s (.fixedPoint range) =
      some (.number (range.dequantize (s.readUInt range.width).1), (s.readUInt range.width).2) := by
  rcases read : s.readUInt range.width with ⟨steps, behind⟩
  simp only [readValue?, read]

theorem readValue?_raw (s : BitStream) (kind : ScalarKind) :
    readValue? s (.raw kind) =
      some (.scalar (Scalar.ofBits kind (s.readUInt kind.bitWidth).1), (s.readUInt kind.bitWidth).2) :=
  rfl

theorem readValue?_text (s : BitStream) :
    readValue? s .text =
      some (.text (String.ofList
        (readChars (s.readUInt lengthBits).1 (s.readUInt lengthBits).2).1),
        (readChars (s.readUInt lengthBits).1 (s.readUInt lengthBits).2).2) := by
  rcases read : s.readUInt lengthBits with ⟨count, behind⟩
  simp only [readValue?, read]

theorem readChars_ahead {chars : List Char} {s : BitStream} {rest : List Bool}
    (latin : ∀ c ∈ chars, c.toNat < 256)
    (h : s.Ahead (bodyBits (chars.map fun c => (c.toNat, 8)) ++ rest)) :
    (readChars chars.length s).1 = chars ∧ (readChars chars.length s).2.Ahead rest := by
  induction chars generalizing s with
  | nil => exact ⟨rfl, h⟩
  | cons c chars ih =>
    obtain ⟨fits, others⟩ := List.forall_mem_cons.mp latin
    rw [List.map_cons, bodyBits, List.flatMap_cons, ← bodyBits, List.append_assoc] at h
    obtain ⟨same, behind⟩ := h.readUInt (by decide) fits
    obtain ⟨later, behind⟩ := ih others behind
    refine ⟨?_, behind⟩
    show Char.ofNat (s.readUInt 8).1 :: (readChars chars.length (s.readUInt 8).2).1 = _
    rw [same, later, Char.ofNat_toNat]

theorem readValue?_body {w : FieldWrite} {s : BitStream} {rest : List Bool} (accepted : w.IsAccepted)
    (h : s.Ahead (bodyBits w.body ++ rest)) :
    ∃ behind, readValue? s w.point.encoding = some (w.echo, behind) ∧ behind.Ahead rest := by
  have fits := (body_fits accepted.lookup.1 accepted).1
  rcases body_cases accepted with ⟨range, encoding, body⟩ | ⟨kind, bits, encoding, -, body⟩ |
    ⟨text, encoding, value, latin, -, body⟩
  · obtain ⟨below, narrow⟩ := fits _ _ (body ▸ List.mem_singleton.mpr rfl)
    rw [body, bodyBits, List.flatMap_singleton] at h
    obtain ⟨same, behind⟩ := h.readUInt narrow below
    refine ⟨_, ?_, behind⟩
    rw [encoding, FieldWrite.echo_fixedPoint encoding, readValue?_fixedPoint, same]
  · obtain ⟨below, narrow⟩ := fits _ _ (body ▸ List.mem_singleton.mpr rfl)
    rw [body, bodyBits, List.flatMap_singleton] at h
    obtain ⟨same, behind⟩ := h.readUInt narrow below
    refine ⟨_, ?_, behind⟩
    rw [encoding, FieldWrite.echo_raw encoding body, readValue?_raw, same]
  · obtain ⟨below, narrow⟩ := fits _ _ (body ▸ List.mem_cons_self ..)
    rw [body, bodyBits, List.flatMap_cons, ← bodyBits, List.append_assoc] at h
    obtain ⟨count, behind⟩ := h.readUInt narrow below
    obtain ⟨chars, behind⟩ := readChars_ahead latin behind
    refine ⟨_, ?_, behind⟩
    rw [← String.length_toList] at count
    rw [encoding, FieldWrite.echo_text encoding, value, readValue?_text, count, chars,
      String.ofList_toList]

/-- An accepted field is read as its echo, unless that is a fault of the device. -/
theorem read_body {w : FieldWrite} {s : BitStream} {rest : List Bool} (accepted : w.IsAccepted)
    (h : s.Ahead (bodyBits w.body ++ rest)) (index : Nat) :
    Reading.ofResult w.point.label w.key index (read s w.key).1 = w.reading index ∧
      (read s w.key).2.Ahead rest := by
  obtain ⟨behind, value, ahead⟩ := readValue?_body accepted h
  unfold read FieldWrite.reading
  rw [show Registry.lookup w.key = w.point from rfl, value]
  dsimp only
  rw [FieldWrite.faultCode?_echo accepted]
  cases w.fault? with
  | some code => exact ⟨rfl, ahead⟩
  | none => refine ⟨?_, ahead⟩; cases w.echo <;> rfl

end Field

/-! ## Headers -/

theorem FrameHeader.read_bits {header : FrameHeader} {s : BitStream} {rest : List Bool}
    (announced : header.flags.hasMessageId = header.messageId.isSome)
    (h : s.Ahead (header.bits ++ rest)) :
    (read .fromFlags s).1 = header ∧ (read .fromFlags s).2.Ahead rest := by
  obtain ⟨⟨byte⟩, id⟩ := header
  rw [bits, List.append_assoc] at h
  obtain ⟨flags, behind⟩ := h.readUInt (by decide) byte.toNat_lt
  unfold read
  simp only [flagsBits, flags, UInt8.ofNat_toNat, Framing.expectsMessageId]
  cases id with
  | none =>
    rw [announced]
    exact ⟨rfl, behind⟩
  | some id =>
    obtain ⟨same, behind⟩ := behind.readUInt (by decide) id.toNat_lt
    rw [announced]
    refine ⟨?_, behind⟩
    show (⟨⟨byte⟩, some (UInt8.ofNat (BitStream.readUInt _ 8).1)⟩ : FrameHeader) = _
    rw [same, UInt8.ofNat_toNat]

namespace Frame

theorem readFieldHeader_false (s : BitStream) :
    readFieldHeader false s = (none, UInt8.ofNat (s.readUInt 6).1, (s.readUInt 6).2) :=
  rfl

theorem readFieldHeader_true (s : BitStream) :
    readFieldHeader true s =
      (some (s.readUInt 8).1, UInt8.ofNat ((s.readUInt 8).2.readUInt 6).1,
        ((s.readUInt 8).2.readUInt 6).2) :=
  rfl

theorem readFieldHeader_bits {positional : Bool} {position key : UInt8} {s : BitStream}
    {rest : List Bool} (small : key.toNat < 64)
    (h : s.Ahead ((if positional then Bits.ofNat 8 position.toNat else []) ++
      Bits.ofNat 6 key.toNat ++ rest)) :
    ∃ body, readFieldHeader positional s =
      (if positional then some position.toNat else none, key, body) ∧ body.Ahead rest := by
  rw [List.append_assoc] at h
  cases positional with
  | false =>
    obtain ⟨same, behind⟩ := h.readUInt (by decide) small
    refine ⟨_, ?_, behind⟩
    rw [readFieldHeader_false, same, UInt8.ofNat_toNat]
    rfl
  | true =>
    obtain ⟨place, behind⟩ := h.readUInt (by decide) position.toNat_lt
    obtain ⟨same, behind⟩ := behind.readUInt (by decide) small
    refine ⟨_, ?_, behind⟩
    rw [readFieldHeader_true, same, place, UInt8.ofNat_toNat]
    rfl

/-! ## Counts -/

namespace Progress

/-- Without a position a field counts for its own key. -/
theorem count_index (p : Progress) {key : UInt8} (small : key.toNat < 64) (other : UInt8) :
    (p.index key none).2.count other = p.count other + if key = other then 1 else 0 := by
  have place : key = other ↔ key.toNat = other.toNat := UInt8.toNat_inj.symm
  simp only [index, count, place]
  by_cases same : key.toNat = other.toNat
  · rw [if_pos same, ← same, Vector.getElem?_setIfInBounds_self, if_pos small]
    rfl
  · rw [if_neg same, Vector.getElem?_setIfInBounds_ne same, Nat.add_zero]

/-- The counts are those of fields without positions that have been read. -/
def Counts (p : Progress) (before : List FieldWrite) : Prop :=
  ∀ key : UInt8, key.toNat < 64 → p.count key = before.countP fun w => w.key = key

theorem counts_start (announced : List Delivery) : (start announced).Counts [] := by
  intro key small
  simp [count, start, small]

theorem Counts.index {p : Progress} {before : List FieldWrite} (h : p.Counts before) {w : FieldWrite}
    (small : w.key.toNat < 64) :
    (p.index w.key none).1 = w.indexAfter false before ∧ (p.index w.key none).2.Counts (before ++ [w]) := by
  refine ⟨congrArg (· + 1) (h w.key small), fun key bounded => ?_⟩
  rw [count_index p small, h key bounded, List.countP_append, List.countP_singleton]
  simp only [decide_eq_true_eq]

end Progress

/-! ## Fields -/

/-- **A field is read back**: it is delivered under its index, and what follows it is next. -/
theorem nextField_bits {positional : Bool} {before : List FieldWrite} {w : FieldWrite} {p : Progress}
    {s : BitStream} {rest : List Bool} (accepted : w.IsAccepted)
    (counts : positional = false → p.Counts before) (h : s.Ahead (w.bits positional ++ rest)) :
    ∃ q behind, nextField positional p s = .ok (q, behind) ∧ behind.Ahead rest ∧
      q.deliveries = p.deliveries ++ [.field (w.reading (w.indexAfter positional before))] ∧
      q.fields = p.fields + 1 ∧ (positional = false → q.Counts (before ++ [w])) := by
  have small := accepted.key_pos_lt.2
  have pos := (Field.body_fits accepted.lookup.1 accepted).2
  have wide : s.canContinue (Field.headerBits positional) := by
    rw [h.canContinue_iff, FieldWrite.bits]
    cases positional <;> simp [Field.headerBits, Field.keyBits, Field.positionBits] <;> omega
  rw [FieldWrite.bits, List.append_assoc] at h
  obtain ⟨body, header, ahead⟩ := readFieldHeader_bits small h
  have assigned := Field.isAssigned_of_body accepted
  have point : Registry.lookup w.key = w.point := rfl
  unfold nextField
  rw [if_pos wide, header]
  -- With a position the counts are not looked at, and without one they give the index.
  simp only [point, assigned, Bool.not_true, Bool.false_eq_true, if_false]
  cases positional with
  | true =>
    obtain ⟨same, behind⟩ := Field.read_body accepted ahead w.position.toNat
    refine ⟨_, _, rfl, behind, ?_, rfl, fun sequential => absurd sequential (by decide)⟩
    exact congrArg (p.deliveries ++ [.field ·]) same
  | false =>
    obtain ⟨index, later⟩ := (counts rfl).index small
    obtain ⟨same, behind⟩ := Field.read_body accepted ahead (w.indexAfter false before)
    refine ⟨_, _, rfl, behind, ?_, rfl, fun _ => later⟩
    rw [← same, ← index]
    rfl

/-- How a frame ends whose last byte is filled up with so many zeros. -/
def endingAfter (positional : Bool) (padding : Nat) : FrameEnd :=
  if positional = false ∧ padding = 7 then .endMarker else .exhausted padding

/-- The filling is too short for a field, unless seven zeros read as the key of the end marker. -/
theorem nextField_padding {positional : Bool} {p : Progress} {s : BitStream} {padding : Nat}
    (few : padding < 8) (h : s.Ahead (List.replicate padding false)) :
    nextField positional p s = .error (endingAfter positional padding) := by
  have continues := h.canContinue_iff (Field.headerBits positional)
  rw [List.length_replicate] at continues
  unfold nextField endingAfter
  by_cases marker : positional = false ∧ padding = 7
  · -- Six of the seven zeros are the key of the end marker.
    obtain ⟨rfl, rfl⟩ := marker
    have split : List.replicate 7 false = Bits.ofNat 6 0 ++ [false] := by decide
    rw [split] at h
    obtain ⟨zero, -⟩ := h.readUInt (by decide) (by decide)
    rw [if_pos (continues.mpr (by decide)), if_pos ⟨rfl, rfl⟩, readFieldHeader_false, zero]
    rfl
  · have short : ¬ s.canContinue (Field.headerBits positional) = true := by
      rw [continues]
      cases positional <;> simp [Field.headerBits, Field.keyBits, Field.positionBits] at marker ⊢ <;>
        omega
    rw [if_neg short, if_neg marker, h.remaining, List.length_replicate]

/-! ## Frames -/

/-- What fields behind others are delivered as. -/
def readingsAfter (positional : Bool) : (before writes : List FieldWrite) → List Reading
  | _, [] => []
  | before, w :: rest =>
    w.reading (w.indexAfter positional before) :: readingsAfter positional (before ++ [w]) rest

theorem getElem?_readingsAfter (positional : Bool) (before writes : List FieldWrite) (i : Nat) :
    (readingsAfter positional before writes)[i]? =
      writes[i]?.map fun w => w.reading (w.indexAfter positional (before ++ writes.take i)) := by
  induction writes generalizing before i with
  | nil => rfl
  | cons w rest ih =>
    cases i with
    | zero => simp [readingsAfter]
    | succ i => simp [readingsAfter, ih]

theorem length_readingsAfter (positional : Bool) (before writes : List FieldWrite) :
    (readingsAfter positional before writes).length = writes.length := by
  induction writes generalizing before with
  | nil => rfl
  | cons w rest ih => rw [readingsAfter, List.length_cons, ih, List.length_cons]

/-- Field after field is read, up to where no field can be. -/
theorem readFields_before {positional : Bool} {before writes : List FieldWrite} {p : Progress}
    {s : BitStream} {behind : List Bool} {ending : FrameEnd} (accepted : ∀ w ∈ writes, w.IsAccepted)
    (counts : positional = false → p.Counts before)
    (last : ∀ (q : Progress) (t : BitStream), t.Ahead behind → nextField positional q t = .error ending)
    (h : s.Ahead (writes.flatMap (FieldWrite.bits positional) ++ behind)) :
    ∃ q, readFields positional Sink.collect s p = (q, ending) ∧
      q.deliveries = p.deliveries ++ (readingsAfter positional before writes).map .field ∧
      q.fields = p.fields + writes.length := by
  induction writes generalizing before p s with
  | nil =>
    refine ⟨p, readFields_of_error (last p s h), ?_, rfl⟩
    simp [readingsAfter]
  | cons w rest ih =>
    obtain ⟨first, others⟩ := List.forall_mem_cons.mp accepted
    rw [List.flatMap_cons, List.append_assoc] at h
    obtain ⟨q, t, next, ahead, delivered, counted, counts⟩ := nextField_bits first counts h
    obtain ⟨r, later, all, total⟩ := ih others counts ahead
    refine ⟨r, ?_, ?_, ?_⟩
    · rw [readFields_of_ok next, ahead.not_overran]
      exact later
    · rw [all, delivered, readingsAfter, List.map_cons, List.append_assoc]
      rfl
    · rw [total, counted, List.length_cons]
      omega

/-- **The fields of a frame are read back**, all of them and nothing else. -/
theorem readFields_bits {positional : Bool} {before writes : List FieldWrite} {p : Progress}
    {s : BitStream} {padding : Nat} (accepted : ∀ w ∈ writes, w.IsAccepted)
    (counts : positional = false → p.Counts before) (few : padding < 8)
    (h : s.Ahead (writes.flatMap (FieldWrite.bits positional) ++ List.replicate padding false)) :
    ∃ q, readFields positional Sink.collect s p = (q, endingAfter positional padding) ∧
      q.deliveries = p.deliveries ++ (readingsAfter positional before writes).map .field ∧
      q.fields = p.fields + writes.length :=
  readFields_before accepted counts (fun _ _ => nextField_padding few) h

end Frame

/-- What a sink is handed of fields is the fields. -/
theorem Delivery.readings_append (announced : List Delivery) (fields : List Reading) :
    readings (announced ++ fields.map .field) = readings announced ++ fields := by
  rw [readings, List.filterMap_append, List.filterMap_map]
  exact congrArg (readings announced ++ ·) List.filterMap_some

theorem eq_ok_of_toOption {ε α : Type} {result : Except ε α} {value : α}
    (h : result.toOption = some value) : result = .ok value := by
  cases result with
  | error => cases h
  | ok => cases h; rfl

/-- **A frame is read back.** Decoding an encoded frame gives its header and its fields in order, each
under its position or, without positions, its count among the fields of its key, and ends on the
filling of the last byte. -/
theorem decodeFrame_encodeFrame {header : FrameHeader} {writes : List FieldWrite} {bytes : List UInt8}
    (announced : header.flags.hasMessageId = header.messageId.isSome)
    (encoded : encodeFrame header writes = .ok bytes) :
    (decodeFrame .fromFlags bytes).header = header ∧
    (decodeFrame .fromFlags bytes).summary.fields = writes.length ∧
    (decodeFrame .fromFlags bytes).readings.length = writes.length ∧
    (∀ i (inside : i < writes.length), (decodeFrame .fromFlags bytes).readings[i]? =
      some (writes[i].reading
        (if header.flags.isPositional then writes[i].position.toNat
         else (writes.take (i + 1)).countP fun w => w.key = writes[i].key))) ∧
    ∃ padding < 8,
      Bits.ofBytes bytes = header.bits ++ writes.flatMap (FieldWrite.bits header.flags.isPositional) ++
        List.replicate padding false ∧
      (decodeFrame .fromFlags bytes).ending =
        if header.flags.isPositional = false ∧ padding = 7 then .endMarker else .exhausted padding := by
  obtain ⟨accepted, padding, few, layout⟩ := encodeFrame_layout encoded
  have ahead := BitStream.ahead_ofBytes bytes
  rw [layout, List.append_assoc] at ahead
  obtain ⟨front, behind⟩ := FrameHeader.read_bits announced ahead
  rcases read : FrameHeader.read .fromFlags (.ofBytes bytes) with ⟨found, s⟩
  rw [read] at front behind
  subst front
  obtain ⟨q, run, delivered, total⟩ := Frame.readFields_bits accepted
    (fun _ => Frame.Progress.counts_start (if found.messageId.isSome then [.messageId found] else []))
    few behind
  have whole : decodeFrame .fromFlags bytes =
      ⟨q.deliveries, ⟨found, q.fields, q.errors, Frame.endingAfter found.flags.isPositional padding⟩⟩ := by
    simp only [decodeFrame, Frame.read, read, behind.not_overran, run]
    rfl
  have readings : (decodeFrame .fromFlags bytes).readings =
      Frame.readingsAfter found.flags.isPositional [] writes := by
    rw [whole, FrameReading.readings, delivered, Delivery.readings_append]
    cases found.messageId <;> rfl
  refine ⟨by rw [whole]; rfl, ?_, ?_, fun i inside => ?_, padding, few, layout, ?_⟩
  · rw [whole]
    exact total.trans (Nat.zero_add _)
  · rw [readings, Frame.length_readingsAfter]
  · rw [readings, Frame.getElem?_readingsAfter, List.getElem?_eq_getElem inside, List.nil_append,
      List.take_succ_eq_append_getElem inside, List.countP_append, List.countP_singleton]
    simp [FieldWrite.indexAfter]
  · rw [whole]
    rfl

theorem decodeFrame_encodeFrame_request :
    ∃ bytes, encodeFrame (.request 7) [⟨1, 0, .number ⟨0x4035800000000000⟩⟩, ⟨32, 0, .text "hé"⟩,
        ⟨43, 0, .scalar (.uint8 5)⟩, ⟨1, 0, .scalar (.int16 (-3))⟩] = .ok bytes ∧
      (decodeFrame .fromFlags bytes).header = .request 7 ∧
      (decodeFrame .fromFlags bytes).summary.fields = 4 := by
  have encoded : encodeFrame (.request 7) [⟨1, 0, .number ⟨0x4035800000000000⟩⟩, ⟨32, 0, .text "hé"⟩,
      ⟨43, 0, .scalar (.uint8 5)⟩, ⟨1, 0, .scalar (.int16 (-3))⟩] =
        .ok [2, 7, 4, 207, 212, 0, 77, 29, 53, 130, 130, 65, 160] :=
    eq_ok_of_toOption (by decide +kernel)
  obtain ⟨header, fields, -⟩ := decodeFrame_encodeFrame (by decide) encoded
  exact ⟨_, encoded, header, fields⟩

end Telemetry
