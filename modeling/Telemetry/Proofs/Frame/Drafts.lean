import Telemetry.Proofs.Frame.Trace

/-!
# Frames under construction

A call on a draft is refused, and then the draft goes on as it was, or its bits come behind those of the
draft (`Draft.Call.apply_cases`). Which of the two depends on the field alone, so any calls leave the bits
of the header and of those that were taken, in order (`Draft.run_written`). Behind the fields up to the
first end marker there is that marker or the filling of the last byte, and neither lets a reader go on: a
marker is a header of zeros, and without anything behind it there is no room for it to be read
(`Frame.nextField_marker`).
-/

namespace Telemetry

namespace Frame

/-! ## Reading the bits of fields -/

section Bits

variable {positional : Bool} {p : Progress} {s : BitStream} {rest : List Bool}

/-- An end marker is a field header of zeros; with nothing behind it, it passes for filling. -/
theorem nextField_marker (h : s.Ahead (List.replicate (Field.headerBits positional) false ++ rest)) :
    nextField positional p s =
      .error (if rest = [] then .exhausted (Field.headerBits positional) else .endMarker) := by
  have continues := h.canContinue_iff (Field.headerBits positional)
  rw [List.length_append, List.length_replicate] at continues
  -- A reader goes on only with more than a field header ahead, so it never reads a marker at the very end.
  by_cases none : rest = []
  · have short : ¬ s.canContinue (Field.headerBits positional) = true := by
      rw [continues, none, List.length_nil]
      omega
    rw [if_pos none, nextField_of_short short, h.remaining, none, List.append_nil,
      List.length_replicate]
  · have some : 0 < rest.length := List.length_pos_iff.mpr none
    have zeros : List.replicate (Field.headerBits positional) false =
        (if positional then Bits.ofNat 8 (0 : UInt8).toNat else []) ++
          Bits.ofNat 6 (0 : UInt8).toNat := by
      cases positional <;> decide
    rw [zeros] at h
    obtain ⟨body, header, -⟩ := readFieldHeader_bits (by decide) h
    have key : fieldKey positional s = Registry.endKey := by
      rw [fieldKey, header]
      rfl
    have unassigned : ¬ (Registry.lookup (fieldKey positional s)).isAssigned = true := by
      rw [key]
      decide
    rw [nextField_of_unassigned (continues.mpr (by omega)) unassigned, if_pos key, if_neg none]

/-- What is read of bits that are laid out as a header, fields and something that is no field. -/
theorem decodeFrame_of_bits {header : FrameHeader} {writes : List FieldWrite} {bytes : List UInt8}
    {ending : FrameEnd} (announced : header.flags.hasMessageId = header.messageId.isSome)
    (accepted : ∀ w ∈ writes, w.IsAccepted)
    (layout : Bits.ofBytes bytes =
      header.bits ++ (writes.flatMap (FieldWrite.bits header.flags.isPositional) ++ rest))
    (last : ∀ (p : Progress) (s : BitStream), s.Ahead rest →
      nextField header.flags.isPositional p s = .error ending) :
    (decodeFrame .fromFlags bytes).readings = readingsAfter header.flags.isPositional [] writes ∧
      (decodeFrame .fromFlags bytes).ending = ending := by
  have ahead := BitStream.ahead_ofBytes bytes
  rw [layout] at ahead
  obtain ⟨front, behind⟩ := FrameHeader.read_bits announced ahead
  rw [FrameHeader.read_eq] at front behind
  have front : FrameHeader.ofPayload .fromFlags bytes = header := front
  have behind : (afterHeader .fromFlags bytes).Ahead _ := behind
  obtain ⟨q, run, delivered, -⟩ := readFields_before accepted
    (fun _ => Progress.counts_start (announcement .fromFlags bytes)) last behind
  obtain ⟨handed, ended⟩ := read_of_inside Sink.collect behind.not_overran
  rw [front, opening, run] at handed ended
  exact ⟨readings_of_deliveries (handed.trans delivered), ended⟩

end Bits

end Frame

namespace Draft

/-! ## Calls -/

/-- What can be asked of a draft: to add a field, with a value of any sort, or the end marker. -/
inductive Call where
  | push (field : FieldWrite)
  | pushEnd
deriving DecidableEq, Repr

/-- Add a field in place. What is written outlives an error, so the order of the steps matters. -/
def pushSteps (field : FieldWrite) : ExceptT FieldError (StateM Draft) Unit := do
  let body ← MonadExcept.ofExcept (Field.body (Registry.lookup field.key) field.value)
  modify fun draft =>
    { draft with stream := Field.writeHeader draft.stream field.key (draft.position? field.position) }
  modify fun draft => { draft with stream := Field.writeBody draft.stream body }

namespace Call

def steps : Call → ExceptT FieldError (StateM Draft) Unit
  | push field => pushSteps field
  | pushEnd => modify Draft.pushEnd

/-- What a call answers, and the draft after it. -/
def apply (draft : Draft) (call : Call) : Except FieldError Unit × Draft :=
  call.steps.run.run draft

/-- Whether a call is taken depends on the field alone, not on the draft. -/
def isTaken : Call → Bool
  | push field => (Field.body field.point field.value).isOk
  | pushEnd => true

/-- The bits that a call appends if it is taken. -/
def bits (positional : Bool) : Call → List Bool
  | push field => field.bits positional
  | pushEnd => List.replicate (Field.headerBits positional) false

/-- The fields of some calls up to the first end marker. -/
def fieldsBeforeEnd : List Call → List FieldWrite
  | [] => []
  | push field :: later => field :: fieldsBeforeEnd later
  | pushEnd :: _ => []

theorem isTaken_push_iff (field : FieldWrite) : (push field).isTaken = true ↔ field.IsAccepted := by
  unfold isTaken FieldWrite.IsAccepted FieldWrite.body
  cases carried : Field.body field.point field.value <;>
    simp [carried, Except.isOk, Except.toBool, Except.toOption]

/-- Adding a field in place comes to the same as adding it to a draft that is kept if that fails. -/
theorem apply_push (draft : Draft) (field : FieldWrite) :
    (push field).apply draft =
      match draft.push field with
      | .ok longer => (.ok (), longer)
      | .error error => (.error error, draft) := by
  show (pushSteps field).run.run draft = _
  unfold pushSteps Draft.push Field.write
  cases Field.body (Registry.lookup field.key) field.value <;> rfl

end Call

theorem written_pushEnd (draft : Draft) :
    draft.pushEnd.stream.written =
      draft.stream.written ++ Call.pushEnd.bits draft.header.flags.isPositional := by
  unfold pushEnd
  dsimp only
  rw [BitStream.written_writeUInt _ _ (by decide)]
  split
  · rename_i positional
    rw [BitStream.written_writeUInt _ _ (by decide), positional, List.append_assoc]
    rfl
  · rename_i plain
    rw [Bool.eq_false_iff.mpr plain]
    rfl

/-- **A call is refused or taken.** It is refused and the draft goes on as it was, or it is taken and its
bits come behind those of the draft. -/
theorem Call.apply_cases (draft : Draft) (call : Call) :
    (call.isTaken = false ∧ ∃ error, call.apply draft = (.error error, draft)) ∨
    (call.isTaken = true ∧ ∃ longer, call.apply draft = (.ok (), longer) ∧
      longer.header = draft.header ∧
      longer.stream.written = draft.stream.written ++ call.bits draft.header.flags.isPositional) := by
  cases call with
  | pushEnd => exact .inr ⟨rfl, draft.pushEnd, rfl, rfl, written_pushEnd draft⟩
  | push field =>
    rw [apply_push]
    cases pushed : draft.push field with
    | error error =>
      refine .inl ⟨Bool.eq_false_iff.mpr fun taken => ?_, error, rfl⟩
      obtain ⟨longer, made⟩ := push_of_accepted draft ((isTaken_push_iff field).mp taken)
      cases made.symm.trans pushed
    | ok longer =>
      obtain ⟨accepted, header, bits⟩ := push_ok pushed
      exact .inr ⟨(isTaken_push_iff field).mpr accepted, longer, rfl, header, bits⟩

/-! ## Runs -/

/-- The calls in order, each with its answer, and the draft behind them. -/
def run (draft : Draft) : List Call → List (Call × Except FieldError Unit) × Draft
  | [] => ([], draft)
  | call :: later =>
    let (answer, next) := call.apply draft
    let (answers, last) := next.run later
    ((call, answer) :: answers, last)

/-- The calls that were answered without an error. -/
def taken (answers : List (Call × Except FieldError Unit)) : List Call :=
  (answers.filter fun (_, answer) => answer.isOk).map Prod.fst

theorem run_cons (draft : Draft) (call : Call) (later : List Call) :
    draft.run (call :: later) =
      ((call, (call.apply draft).1) :: ((call.apply draft).2.run later).1,
        ((call.apply draft).2.run later).2) := rfl

theorem taken_run (draft : Draft) (calls : List Call) :
    taken (draft.run calls).1 = calls.filter Call.isTaken := by
  induction calls generalizing draft with
  | nil => rfl
  | cons call later ih =>
    rcases call.apply_cases draft with ⟨refused, error, answer⟩ | ⟨took, longer, answer, -⟩
    · rw [run_cons, answer, List.filter_cons_of_neg (by simp [refused]), ← ih draft]
      rfl
    · rw [run_cons, answer, List.filter_cons_of_pos took, ← ih longer]
      rfl

/-- Without the calls that are refused a run is the same, and nothing is refused. -/
theorem run_filter (draft : Draft) (calls : List Call) :
    draft.run (calls.filter Call.isTaken) =
      ((calls.filter Call.isTaken).map fun call => (call, .ok ()), (draft.run calls).2) := by
  induction calls generalizing draft with
  | nil => rfl
  | cons call later ih =>
    rcases call.apply_cases draft with ⟨refused, error, answer⟩ | ⟨took, longer, answer, -⟩
    · rw [List.filter_cons_of_neg (by simp [refused]), ih draft, run_cons, answer]
    · rw [List.filter_cons_of_pos took, run_cons, run_cons, answer, ih longer]
      rfl

/-- Bits are only ever added to a draft, and those of the calls that are taken are what is added. -/
theorem run_written (draft : Draft) (calls : List Call) :
    (draft.run calls).2.header = draft.header ∧
      (draft.run calls).2.stream.written = draft.stream.written ++
        (calls.filter Call.isTaken).flatMap (Call.bits draft.header.flags.isPositional) := by
  induction calls generalizing draft with
  | nil => exact ⟨rfl, (List.append_nil _).symm⟩
  | cons call later ih =>
    rw [run_cons]
    rcases call.apply_cases draft with ⟨refused, error, answer⟩ | ⟨took, longer, answer, header, bits⟩
    · rw [answer, List.filter_cons_of_neg (by simp [refused])]
      exact ih draft
    · obtain ⟨same, later⟩ := ih longer
      rw [answer, List.filter_cons_of_pos took, List.flatMap_cons, ← List.append_assoc, ← bits,
        ← header]
      exact ⟨same, later⟩

/-! ## Fields behind an end marker -/

namespace Call

/-- Behind the fields up to the first end marker there is nothing, or that marker and more. -/
theorem flatMap_bits_cases (positional : Bool) (calls : List Call) :
    ∃ behind, calls.flatMap (bits positional) =
        (fieldsBeforeEnd calls).flatMap (FieldWrite.bits positional) ++ behind ∧
      (behind = [] ∨
        ∃ more, behind = List.replicate (Field.headerBits positional) false ++ more) := by
  induction calls with
  | nil => exact ⟨[], rfl, .inl rfl⟩
  | cons call later ih =>
    cases call with
    | pushEnd => exact ⟨_, rfl, .inr ⟨later.flatMap (bits positional), rfl⟩⟩
    | push field =>
      obtain ⟨behind, same, stops⟩ := ih
      refine ⟨behind, ?_, stops⟩
      rw [List.flatMap_cons, same, fieldsBeforeEnd, List.flatMap_cons, List.append_assoc]
      rfl

theorem fieldsBeforeEnd_accepted {calls : List Call} (taken : ∀ call ∈ calls, call.isTaken = true) :
    ∀ field ∈ fieldsBeforeEnd calls, field.IsAccepted := by
  induction calls with
  | nil => exact List.forall_mem_nil _
  | cons call later ih =>
    obtain ⟨first, others⟩ := List.forall_mem_cons.mp taken
    cases call with
    | pushEnd => exact List.forall_mem_nil _
    | push field => exact List.forall_mem_cons.mpr ⟨(isTaken_push_iff field).mp first, ih others⟩

end Call

end Draft

/-- The header of a frame that was encoded is read again. -/
theorem header_of_encoded {header : FrameHeader} {writes : List FieldWrite} {bytes : List UInt8}
    (announced : header.flags.hasMessageId = header.messageId.isSome)
    (encoded : encodeFrame header writes = .ok bytes) :
    (decodeFrame .fromFlags bytes).header = header := by
  obtain ⟨-, padding, -, layout⟩ := encodeFrame_layout encoded
  have ahead := BitStream.ahead_ofBytes bytes
  rw [layout, List.append_assoc] at ahead
  have front := (FrameHeader.read_bits announced ahead).1
  rw [FrameHeader.read_eq] at front
  exact (Frame.header_read .fromFlags Sink.collect bytes).trans front

theorem decodeFrame_of_encoded {header : FrameHeader} {writes : List FieldWrite} {bytes : List UInt8}
    (announced : header.flags.hasMessageId = header.messageId.isSome)
    (encoded : encodeFrame header writes = .ok bytes) :
    (decodeFrame .fromFlags bytes).readings =
      Frame.readingsAfter header.flags.isPositional [] writes := by
  obtain ⟨accepted, padding, few, layout⟩ := encodeFrame_layout encoded
  rw [List.append_assoc] at layout
  exact (Frame.decodeFrame_of_bits announced accepted layout fun _ _ ahead =>
    Frame.nextField_padding few ahead).1

namespace Draft

/-- Of a draft the fields up to the first end marker are read, whatever was called behind it. -/
theorem decodeFrame_of_calls {header : FrameHeader} {calls : List Call} {bytes : List UInt8}
    {padding : Nat} (announced : header.flags.hasMessageId = header.messageId.isSome)
    (taken : ∀ call ∈ calls, call.isTaken = true) (few : padding < 8)
    (layout : Bits.ofBytes bytes = header.bits ++
      calls.flatMap (Call.bits header.flags.isPositional) ++ List.replicate padding false) :
    (decodeFrame .fromFlags bytes).readings =
        Frame.readingsAfter header.flags.isPositional [] (Call.fieldsBeforeEnd calls) ∧
      ((decodeFrame .fromFlags bytes).ending = .endMarker ∨
        ∃ trailing, (decodeFrame .fromFlags bytes).ending = .exhausted trailing) := by
  have accepted := Call.fieldsBeforeEnd_accepted taken
  obtain ⟨behind, same, nothing | ⟨more, marker⟩⟩ :=
    Call.flatMap_bits_cases header.flags.isPositional calls
  · rw [same, nothing, List.append_nil, List.append_assoc] at layout
    obtain ⟨readings, ending⟩ := Frame.decodeFrame_of_bits announced accepted layout
      fun _ _ ahead => Frame.nextField_padding few ahead
    refine ⟨readings, ?_⟩
    rw [ending, Frame.endingAfter]
    split
    · exact .inl rfl
    · exact .inr ⟨padding, rfl⟩
  · simp only [same, marker, List.append_assoc] at layout
    obtain ⟨readings, ending⟩ := Frame.decodeFrame_of_bits announced accepted layout
      fun _ _ ahead => Frame.nextField_marker ahead
    refine ⟨readings, ?_⟩
    rw [ending]
    split
    · exact .inr ⟨_, rfl⟩
    · exact .inl rfl

/-- **Frames under construction.** Whatever is called on a draft that opens with a header, in whatever
order, the draft keeps the header and is its bits and those of the calls that were taken, in order, filled
up with zeros to a byte. A call that is refused leaves a draft as it was, and without such calls the run
comes to the same draft. A reader is delivered what it is of the fields up to the first end marker,
encoded on their own, whatever was added behind the marker, and ends on a marker or on filling. -/
theorem run_opening {header : FrameHeader}
    (announced : header.flags.hasMessageId = header.messageId.isSome) (calls : List Call) :
    let positional := header.flags.isPositional
    let accepted := taken ((opening header).run calls).1
    let draft := ((opening header).run calls).2
    draft.header = header ∧
    (∃ padding < 8, Bits.ofBytes draft.bytes =
      header.bits ++ accepted.flatMap (Call.bits positional) ++ List.replicate padding false) ∧
    (∀ (any : Draft) (call : Call) (error : FieldError),
      (call.apply any).1 = .error error → (call.apply any).2 = any) ∧
    (opening header).run accepted = (accepted.map fun call => (call, .ok ()), draft) ∧
    (∃ bytes, encodeFrame header (Call.fieldsBeforeEnd accepted) = .ok bytes ∧
      (decodeFrame .fromFlags draft.bytes).readings = (decodeFrame .fromFlags bytes).readings) ∧
    ((decodeFrame .fromFlags draft.bytes).ending = .endMarker ∨
      ∃ trailing, (decodeFrame .fromFlags draft.bytes).ending = .exhausted trailing) := by
  intro positional accepted draft
  have only : accepted = calls.filter Call.isTaken := taken_run _ calls
  have took : ∀ call ∈ accepted, call.isTaken = true := by
    intro call inside
    rw [only] at inside
    exact (List.mem_filter.mp inside).2
  obtain ⟨kept, bits⟩ := run_written (opening header) calls
  rw [written_opening, ← only] at bits
  obtain ⟨padding, few, layout⟩ := draft.ofBytes_bytes
  rw [show draft.stream.written = _ from bits] at layout
  obtain ⟨readings, ending⟩ := decodeFrame_of_calls announced took few layout
  refine ⟨kept, ⟨padding, few, layout⟩, ?_, ?_, ?_, ending⟩
  · intro any call error answered
    rcases call.apply_cases any with ⟨-, other, refused⟩ | ⟨-, longer, answer, -⟩
    · rw [refused]
    · rw [answer] at answered
      cases answered
  · rw [only]
    exact run_filter (opening header) calls
  · obtain ⟨bytes, encoded⟩ := encodeFrame_of_accepted header (Call.fieldsBeforeEnd_accepted took)
    exact ⟨bytes, encoded, readings.trans (decodeFrame_of_encoded announced encoded).symm⟩

theorem run_opening_request :
    let calls : List Call := [.push ⟨1, 0, .number ⟨0x4035800000000000⟩⟩, .push ⟨32, 0, .text "Ω"⟩, .pushEnd,
      .push ⟨43, 0, .scalar (.uint8 5)⟩]
    let draft := ((opening (.request 7)).run calls).2
    draft.header = .request 7 ∧ draft.bytes = [2, 7, 4, 207, 208, 21, 130, 128] ∧
    ∃ bytes, encodeFrame (.request 7) [⟨1, 0, .number ⟨0x4035800000000000⟩⟩] = .ok bytes ∧
      (decodeFrame .fromFlags draft.bytes).readings = (decodeFrame .fromFlags bytes).readings := by
  intro calls draft
  have fields : Call.fieldsBeforeEnd (taken ((opening (.request 7)).run calls).1) =
      [⟨1, 0, .number ⟨0x4035800000000000⟩⟩] := by
    decide +kernel
  have bytes : draft.bytes = [2, 7, 4, 207, 208, 21, 130, 128] := by decide +kernel
  have announced : (FrameHeader.request 7).flags.hasMessageId =
      (FrameHeader.request 7).messageId.isSome := rfl
  obtain ⟨kept, -, -, -, same, -⟩ := run_opening announced calls
  rw [fields] at same
  exact ⟨kept, bytes, same⟩

end Draft

end Telemetry
