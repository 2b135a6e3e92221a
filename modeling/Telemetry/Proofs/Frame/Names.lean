import Mathlib.Data.List.Nodup
import Telemetry.Proofs.Frame.Stopping

/-!
# Names and errors of the fields of a frame

The fields of a frame stand one behind the other, and each is told by what stands at its place and by the
fields before it (`Frame.readingAt`, `Frame.Progress.Lists`): its key, its position or its place among the
fields of its key, and its body, which is an error only where a device reports a fault. Since a label is
ended by the last underscore of a name, whatever underscores and digits it has itself, a name tells the key
and the index (`Reading.name_eq_iff`); and as the indices of a key count up, no two fields without positions
have one name (`Frame.decodeFrame_names`).
-/

namespace Telemetry

/-! ## Names -/

namespace Reading

/-- A name ends in its index, which has no underscore. -/
theorem toList_name (label : String) (index : Nat) :
    (s!"{label}_{index}").toList = label.toList ++ '_' :: Nat.toDigits 10 index := by
  simp [toString]

/-- What stands on both sides of the last mark is told by the whole. -/
theorem append_mark_inj {α : Type} {mark : α} {a b x y : List α} (left : mark ∉ x) (right : mark ∉ y)
    (same : a ++ mark :: x = b ++ mark :: y) : a = b ∧ x = y := by
  rcases List.append_eq_append_iff.mp same with ⟨more, front, behind⟩ | ⟨more, front, behind⟩
  · cases more with
    | nil => simp_all
    | cons first rest =>
      -- Then the other mark would stand behind this one.
      obtain ⟨-, rfl⟩ := List.cons.inj behind
      exact absurd (List.mem_append_right rest (List.mem_cons_self ..)) left
  · cases more with
    | nil => simp_all
    | cons first rest =>
      obtain ⟨-, rfl⟩ := List.cons.inj behind
      exact absurd (List.mem_append_right rest (List.mem_cons_self ..)) right

theorem name_inj {a b : String} {m n : Nat} (same : s!"{a}_{m}" = s!"{b}_{n}") : a = b ∧ m = n := by
  have chars := congrArg String.toList same
  rw [toList_name, toList_name] at chars
  obtain ⟨labels, digits⟩ :=
    append_mark_inj Nat.underscore_not_in_toDigits Nat.underscore_not_in_toDigits chars
  have value := congrArg (fun chars => Nat.ofDigitChars 10 chars 0) digits
  simp only [Nat.ofDigitChars_ten_toDigits] at value
  exact ⟨String.toList_inj.mp labels, value⟩

/-- A reading is named for its point and its index. -/
structure IsNamed (reading : Reading) : Prop where
  assigned : (Registry.lookup reading.key).isAssigned = true
  name : reading.name = s!"{(Registry.lookup reading.key).label}_{reading.index}"

/-- Names tell the key and the index. -/
theorem name_eq_iff {a b : Reading} (left : a.IsNamed) (right : b.IsNamed) :
    a.name = b.name ↔ a.key = b.key ∧ a.index = b.index := by
  constructor
  · intro same
    rw [left.name, right.name] at same
    obtain ⟨labels, indices⟩ := name_inj same
    obtain ⟨registered, key⟩ := Registry.lookup_of_isAssigned left.assigned
    obtain ⟨registered', key'⟩ := Registry.lookup_of_isAssigned right.assigned
    rw [← Registry.key_eq_iff_label_eq registered registered', key, key'] at labels
    exact ⟨labels, indices⟩
  · rintro ⟨key, index⟩
    rw [left.name, right.name, key, index]

end Reading

namespace Frame

/-! ## Fields at their places -/

section Place

variable {positional : Bool} {start s t : BitStream} {p q : Progress}

theorem fieldPosition_eq (positional : Bool) (s : BitStream) :
    fieldPosition positional s = if positional then some (Bits.numberAt s.bytes s.cursor 8) else none := by
  cases positional with
  | false => rfl
  | true => exact congrArg some (s.readUInt_eq_numberAt (by decide))

/-- The field that stands at the cursor of a stream, behind other fields. -/
def readingAt (positional : Bool) (before : List Reading) (s : BitStream) : Reading :=
  let key := fieldKey positional s
  .ofResult (Registry.lookup key).label key
    ((fieldPosition positional s).getD (before.countP (fun reading => reading.key = key) + 1))
    (Field.read (s.skip (Field.headerBits positional)) key).1

/-- A reading is the field that stands behind others, with its header inside the frame. -/
structure Stands (positional : Bool) (start : BitStream) (before : List Reading) (reading : Reading) :
    Prop where
  inside : start.cursor + span positional before + Field.headerBits positional < start.size
  assigned : (Registry.lookup reading.key).isAssigned = true
  here : reading = readingAt positional before (start.skip (span positional before))

/-- What has been delivered are the fields that stand one behind the other from a place on, and the counts
are theirs. -/
structure Progress.Lists (p : Progress) (positional : Bool) (start s : BitStream) : Prop where
  stream : s = start.skip (span positional (Delivery.readings p.deliveries))
  fields : ∀ before reading, before ++ [reading] <+: Delivery.readings p.deliveries →
    Stands positional start before reading
  counts : positional = false → ∀ key : UInt8, key.toNat < 64 →
    p.count key = (Delivery.readings p.deliveries).countP fun reading => reading.key = key

/-- The index of the next field is told by the fields before it. -/
theorem Progress.Lists.index (h : p.Lists positional start s) :
    (p.index (fieldKey positional s) (fieldPosition positional s)).1 =
      (fieldPosition positional s).getD ((Delivery.readings p.deliveries).countP
        (fun reading => reading.key = fieldKey positional s) + 1) := by
  rw [fieldPosition_eq]
  cases positional with
  | false => exact congrArg (· + 1) (h.counts rfl _ (toNat_fieldKey_eq _ _).2)
  | true => rfl

/-- **Each step lists one more field.** -/
theorem Progress.Lists.next (h : p.Lists positional start s)
    (step : nextField positional p s = .ok (q, t)) : q.Lists positional start t := by
  obtain ⟨ahead, assigned, taken, delivered, -, moved⟩ := nextField_ok step
  rw [BitStream.canContinue_iff_lt] at ahead
  have here : p.reading (fieldKey positional s) (fieldPosition positional s)
      (Field.read (s.skip (Field.headerBits positional)) (fieldKey positional s)).1 =
        readingAt positional (Delivery.readings p.deliveries) s := by
    unfold Progress.reading readingAt
    rw [h.index]
  rw [here] at delivered moved
  have listed : Delivery.readings q.deliveries = Delivery.readings p.deliveries ++
      [readingAt positional (Delivery.readings p.deliveries) s] := by
    rw [delivered]
    exact Delivery.readings_append p.deliveries [_]
  constructor
  · rw [listed, span_append, span_singleton, ← BitStream.skip_skip, ← h.stream]
    exact moved
  · intro before reading front
    rw [listed, List.prefix_concat_iff] at front
    rcases front with whole | earlier
    · obtain ⟨rfl, last⟩ := List.append_inj' whole rfl
      obtain rfl := List.singleton_inj.mp last
      rw [h.stream] at ahead assigned ⊢
      exact ⟨ahead, assigned, rfl⟩
    · exact h.fields before reading earlier
  · rintro rfl key small
    have mine : (readingAt false (Delivery.readings p.deliveries) s).key = fieldKey false s := rfl
    rw [listed, List.countP_append, List.countP_singleton, mine, taken, ← h.counts rfl key small]
    simp only [decide_eq_true_eq]
    exact p.count_index (toNat_fieldKey_eq _ _).2 key

/-- Before any field is delivered none is listed. -/
theorem Progress.lists_opening (positional : Bool) (framing : Framing) (payload : List UInt8)
    (start : BitStream) : (opening framing payload).Lists positional start start := by
  have none : Delivery.readings (opening framing payload).deliveries = [] := by
    unfold opening announcement
    split <;> rfl
  constructor
  · rw [none]
    rfl
  · intro before reading front
    rw [none, List.prefix_nil] at front
    simp at front
  · intro _ key small
    rw [none]
    simp [opening, Progress.count, Progress.start, small]

namespace Stands

variable {before : List Reading} {reading : Reading}

theorem isNamed (h : Stands positional start before reading) : reading.IsNamed :=
  ⟨h.assigned, by rw [h.here]; rfl⟩

/-- The key stands in the last six bits of the header. -/
theorem key_eq (h : Stands positional start before reading) :
    reading.key.toNat = Bits.numberAt start.bytes
      (start.cursor + span positional before + (Field.headerBits positional - Field.keyBits))
      Field.keyBits := by
  rw [h.here]
  exact (toNat_fieldKey_eq _ _).1

/-- The index is the position in front of the key, and without positions the place among the fields of the
key. -/
theorem index_eq (h : Stands positional start before reading) :
    reading.index =
      if positional then Bits.numberAt start.bytes (start.cursor + span positional before) 8
      else before.countP (fun earlier => earlier.key = reading.key) + 1 := by
  rw [h.here]
  simp only [readingAt, Reading.ofResult, fieldPosition_eq]
  cases positional <;> rfl

/-- There is an error exactly where a device reports a fault, and then neither a value nor a text. -/
theorem error_eq (h : Stands positional start before reading) :
    let code := Bits.numberAt start.bytes
      (start.cursor + span positional before + Field.headerBits positional) 8
    (∀ error, reading.error = some error ↔ reading.key = Registry.faultKey ∧ code ≠ 0 ∧
      error = .deviceFault (UInt8.ofNat code)) ∧
    (reading.error.isSome → reading.value = Binary64.zero false ∧ reading.text = none) := by
  intro code
  have assigned := h.assigned
  rw [h.here] at assigned ⊢
  simp only [readingAt, Reading.ofResult] at assigned ⊢
  have refused := Field.read_error_iff assigned
    ((start.skip (span positional before)).skip (Field.headerBits positional))
  rw [BitStream.readUInt_eq_numberAt _ (by decide), BitStream.bytes_skip, BitStream.bytes_skip,
    BitStream.cursor_skip, BitStream.cursor_skip] at refused
  cases answer : (Field.read ((start.skip (span positional before)).skip (Field.headerBits positional))
      (fieldKey positional (start.skip (span positional before)))).1 with
  | ok value =>
    rw [answer] at refused
    simp only [reduceCtorEq, false_iff] at refused
    refine ⟨fun error => ?_, by simp⟩
    simp only [reduceCtorEq, false_iff]
    exact refused error
  | error cause =>
    rw [answer] at refused
    refine ⟨fun error => ?_, by simp⟩
    rw [← refused error]
    simp

end Stands

end Place

/-! ## Indices that count up -/

section Indices

/-- The index of each field is its place among the fields of its key. -/
def CountsUp (readings : List Reading) : Prop :=
  ∀ before reading, before ++ [reading] <+: readings →
    reading.index = before.countP (fun earlier => earlier.key = reading.key) + 1

theorem CountsUp.front {readings : List Reading} {last : Reading} (h : CountsUp (readings ++ [last])) :
    CountsUp readings :=
  fun before reading front => h before reading (front.trans (List.prefix_append _ _))

/-- The indices of a key are one, two and so on, in the order of its fields. -/
theorem CountsUp.indices {readings : List Reading} (h : CountsUp readings) (key : UInt8) :
    (readings.filter fun reading => reading.key = key).map Reading.index =
      List.range' 1 (readings.countP fun reading => reading.key = key) := by
  induction readings using List.reverseRecOn with
  | nil => rfl
  | append_singleton readings last ih =>
    have index := h readings last List.prefix_rfl
    rw [List.filter_append, List.map_append, ih h.front, List.countP_append, List.countP_singleton]
    by_cases mine : last.key = key
    · rw [mine] at index
      simp only [List.filter_cons, List.filter_nil, mine, decide_true, if_true, List.map_cons, List.map_nil,
        index, List.range'_concat, Nat.one_mul, Nat.add_comm 1]
    · simp only [List.filter_cons, List.filter_nil, mine, decide_false, Bool.false_eq_true, if_false,
        List.map_nil, List.append_nil, Nat.add_zero]

/-- No two fields have one name. -/
theorem CountsUp.nodup_names {readings : List Reading} (h : CountsUp readings)
    (named : ∀ reading ∈ readings, reading.IsNamed) : (readings.map Reading.name).Nodup := by
  induction readings using List.reverseRecOn with
  | nil => exact List.nodup_nil
  | append_singleton readings last ih =>
    have earlier : ∀ reading ∈ readings, reading.IsNamed :=
      fun reading member => named reading (List.mem_append_left _ member)
    rw [List.map_append, List.map_singleton, List.nodup_append]
    refine ⟨ih h.front earlier, List.nodup_singleton _, ?_⟩
    rintro name again _ new rfl
    rw [List.mem_singleton] at new
    subst new
    obtain ⟨reading, member, same⟩ := List.mem_map.mp again
    obtain ⟨key, index⟩ := (Reading.name_eq_iff (earlier reading member)
      (named last (List.mem_append_right _ (List.mem_singleton_self _)))).mp same
    -- The indices of its key so far do not reach the new one.
    have mine : reading ∈ readings.filter fun reading => reading.key = last.key :=
      List.mem_filter.mpr ⟨member, decide_eq_true key⟩
    have counted := List.mem_map_of_mem (f := Reading.index) mine
    rw [h.front.indices last.key, List.mem_range'_1, index, h readings last List.prefix_rfl] at counted
    omega

end Indices

/-! ## All fields of a frame -/

section Frames

/-- **Each field of a frame stands behind the fields before it.** -/
theorem read_stands (framing : Framing) (sink : Sink) (payload : List UInt8) {before : List Reading}
    {reading : Reading} (front : before ++ [reading] <+: (read framing sink payload).readings) :
    Stands (FrameHeader.ofPayload framing payload).flags.isPositional (afterHeader framing payload)
      before reading := by
  have opened := Progress.lists_opening (FrameHeader.ofPayload framing payload).flags.isPositional
    framing payload (afterHeader framing payload)
  cases beyond : (afterHeader framing payload).overran with
  | true =>
    rw [read_eq_of_overran sink beyond] at front
    exact opened.fields before reading front
  | false =>
    rw [read_eq_of_inside sink beyond] at front
    obtain ⟨t, lists⟩ := readFields_keeps Progress.Lists.next sink opened
    exact lists.fields before reading front

/-- **Names and errors of a frame.** Without positions the fields of each key have the indices one, two and so
on, in their order, and all names differ; with positions the index of each field is the byte in front of its
key. Either way two fields have one name only if they have one key and one index. The counts are those of all
fields and of those with an error. An error is a fault that the device reports: under key 43, a code that is
not zero, where bits that the frame lacks are zeros; there is neither a value nor a text then. -/
theorem decodeFrame_names (framing : Framing) (payload : List UInt8) :
    let r := decodeFrame framing payload
    let positional := r.header.flags.isPositional
    let place (i : Nat) := r.header.width + span positional (r.readings.take i) +
      if positional then Field.positionBits else 0
    (∀ i (h : i < r.readings.length), place i + Field.keyBits < 8 * payload.length ∧
      r.readings[i].key.toNat = Bits.numberAt payload (place i) Field.keyBits ∧
      r.readings[i].name = s!"{(Registry.lookup r.readings[i].key).label}_{r.readings[i].index}") ∧
    (positional = false →
      (∀ key, (r.readings.filter fun reading => reading.key = key).map Reading.index =
        List.range' 1 (r.readings.countP fun reading => reading.key = key)) ∧
      (r.readings.map Reading.name).Nodup) ∧
    (positional = true → ∀ i (h : i < r.readings.length),
      r.readings[i].index = Bits.numberAt payload (place i - 8) 8) ∧
    (∀ a ∈ r.readings, ∀ b ∈ r.readings, a.name = b.name ↔ a.key = b.key ∧ a.index = b.index) ∧
    r.summary.fields = r.readings.length ∧
    r.summary.errors = (r.readings.countP fun reading => reading.error.isSome) ∧
    ∀ i (h : i < r.readings.length),
      let code := Bits.numberAt payload (place i + Field.keyBits) 8
      (∀ error, r.readings[i].error = some error ↔
        r.readings[i].key = 43 ∧ code ≠ 0 ∧ error = .deviceFault (UInt8.ofNat code)) ∧
      (r.readings[i].error.isSome →
        r.readings[i].value = Binary64.zero false ∧ r.readings[i].text = none) := by
  intro r positional place
  have headed : r.header = FrameHeader.ofPayload framing payload := header_read framing Sink.collect payload
  have stands {before : List Reading} {reading : Reading} (front : before ++ [reading] <+: r.readings) :
      Stands positional (afterHeader framing payload) before reading := by
    have here := read_stands framing Sink.collect payload front
    rwa [← headed] at here
  have nth (i : Nat) (h : i < r.readings.length) :
      Stands positional (afterHeader framing payload) (r.readings.take i) r.readings[i] := by
    apply stands
    rw [← List.take_succ_eq_append_getElem h]
    exact List.take_prefix _ _
  have cursor (i : Nat) : (afterHeader framing payload).cursor + span positional (r.readings.take i) =
      r.header.width + span positional (r.readings.take i) := by
    rw [cursor_afterHeader, ← headed]
  have bytes : (afterHeader framing payload).bytes = payload := rfl
  have named : ∀ reading ∈ r.readings, reading.IsNamed := by
    intro reading member
    obtain ⟨i, h, rfl⟩ := List.getElem_of_mem member
    exact (nth i h).isNamed
  have front : Field.headerBits positional = (if positional then Field.positionBits else 0) + Field.keyBits :=
    Nat.add_comm _ _
  refine ⟨?_, ?_, ?_, ?_, ?_, ?_, ?_⟩
  · intro i h
    obtain ⟨inside, -, -⟩ := nth i h
    have key := (nth i h).key_eq
    rw [cursor, front, ← Nat.add_assoc] at inside
    rw [cursor, bytes, front, Nat.add_sub_cancel] at key
    exact ⟨inside, key, (nth i h).isNamed.name⟩
  · intro sequential
    have counts : CountsUp r.readings := by
      intro before reading front
      have index := (stands front).index_eq
      rwa [sequential] at index
    exact ⟨counts.indices, counts.nodup_names named⟩
  · intro explicit i h
    have index := (nth i h).index_eq
    rw [cursor, bytes, if_pos explicit] at index
    rw [index]
    simp only [place, explicit, if_true]
    rfl
  · intro a left b right
    exact Reading.name_eq_iff (named a left) (named b right)
  · exact (read_tallies framing Sink.collect payload).1
  · have errors := (read_tallies framing Sink.collect payload).2
    simp only [Reading.isOk, Option.not_isNone] at errors
    exact errors
  · intro i h
    have error := (nth i h).error_eq
    rw [cursor, bytes, front, ← Nat.add_assoc] at error
    exact error

end Frames

end Frame

end Telemetry
