import Telemetry.Proofs.Frame.Names

/-!
# Reading with every step checked

The reader of frames looks up keys in tables, counts fields and subtracts places, and it goes on for as long as
there is room for a field. `Guarded.read` is that reader with all of this checked: it stops with a `Trap` at a
place outside of a table, at a difference below zero, at a count beyond a limit and at a round too many. No
trap is ever met (`read_guarded`). Each field takes its header and a body of 8 bits or more, so there are not
many rounds; keys have six bits, as the table of counts has 64 entries; and no count exceeds that of all fields.
-/

namespace Telemetry

/-! ## Room that fields take -/

/-- A body takes a byte or more. -/
theorem Reading.eight_le_bodyWidth {reading : Reading}
    (assigned : (Registry.lookup reading.key).isAssigned = true) : 8 ≤ reading.bodyWidth := by
  obtain ⟨registered, -⟩ := Registry.lookup_of_isAssigned assigned
  obtain ⟨-, -, -, widths⟩ := Registry.points_sound _ registered
  unfold Reading.bodyWidth
  cases width : (Registry.lookup reading.key).bitCount? with
  | some count => exact (widths count width).1
  | none => exact Nat.le_add_right _ _

namespace Frame

section Room

variable {positional : Bool} {p q : Progress} {s t : BitStream}

/-- A step that delivers a field moves the cursor by a header and a byte or more. -/
theorem nextField_far (step : nextField positional p s = .ok (q, t)) :
    s.cursor + (Field.headerBits positional + 8) ≤ t.cursor := by
  obtain ⟨-, assigned, -, -, -, moved⟩ := nextField_ok step
  rw [moved, BitStream.cursor_skip]
  exact Nat.add_le_add_left (Nat.add_le_add_left (Reading.eight_le_bodyWidth assigned) _) _

theorem length_mul_le_span (positional : Bool) {readings : List Reading}
    (assigned : ∀ reading ∈ readings, (Registry.lookup reading.key).isAssigned = true) :
    readings.length * (Field.headerBits positional + 8) ≤ span positional readings := by
  induction readings with
  | nil => exact Nat.le_of_eq (Nat.zero_mul _)
  | cons reading rest ih =>
    have first := Reading.eight_le_bodyWidth (assigned reading (List.mem_cons_self ..))
    have later := ih fun other member => assigned other (List.mem_cons_of_mem _ member)
    rw [← List.singleton_append, span_append, span_singleton, List.length_append, Nat.add_mul,
      List.length_singleton, Nat.one_mul]
    omega

/-- A payload has room for the headers and a byte of each of its fields. -/
theorem read_room (framing : Framing) (sink : Sink) (payload : List UInt8) :
    let r := read framing sink payload
    1 ≤ r.readings.length →
      r.readings.length * (Field.headerBits r.header.flags.isPositional + 8) < 8 * payload.length := by
  intro r some
  have headed : r.header = FrameHeader.ofPayload framing payload := header_read framing sink payload
  have stands {before : List Reading} {reading : Reading} (front : before ++ [reading] <+: r.readings) :=
    read_stands framing sink payload front
  rw [← headed] at stands
  obtain ⟨before, last, listed⟩ :=
    r.readings.eq_nil_or_concat.resolve_left (List.ne_nil_of_length_pos some)
  rw [List.concat_eq_append] at listed
  rw [listed] at stands ⊢
  have assigned : ∀ reading ∈ before, (Registry.lookup reading.key).isAssigned = true := by
    intro reading member
    obtain ⟨front, behind, rfl⟩ := List.append_of_mem member
    have prior : front ++ [reading] <+: front ++ reading :: behind ++ [last] :=
      ⟨behind ++ [last], by simp⟩
    exact (stands prior).assigned
  have room := length_mul_le_span r.header.flags.isPositional assigned
  have inside := (stands List.prefix_rfl).inside
  have flags : 8 ≤ r.header.width := r.header.flagsBits_le_width
  rw [cursor_afterHeader, size_afterHeader, ← headed] at inside
  rw [List.length_append, List.length_singleton, Nat.add_mul, Nat.one_mul]
  omega

end Room

/-! ## Counts that stay small -/

section Counted

variable {positional : Bool} {p q : Progress} {start s t : BitStream}

/-- A field that is delivered is one of those that are counted in the end. -/
theorem fields_lt_readFields (tallies : p.Tallies) (sink : Sink)
    (step : nextField positional p s = .ok (q, t)) :
    q.fields = p.fields + 1 ∧ q.fields ≤ (readFields positional sink s p).1.fields := by
  obtain ⟨reading, delivered⟩ := nextField_deliveries step
  have delivered : q.deliveries = p.deliveries ++ [reading].map .field := delivered
  obtain ⟨others, later⟩ := readFields_deliveries_of_ok sink step
  have counted := (tallies.next step).fields
  refine ⟨?_, ?_⟩
  · rw [counted, delivered, Delivery.readings_append, List.length_append, ← tallies.fields]
    rfl
  · rw [counted, (tallies.readFields positional sink s).fields, later, Delivery.readings_append,
      List.length_append]
    exact Nat.le_add_right _ _

/-- No count exceeds that of all fields. -/
theorem count_le_fields (lists : p.Lists positional start s) (tallies : p.Tallies) {key : UInt8}
    (small : key.toNat < 64) (sequential : positional = false) : p.count key ≤ p.fields := by
  rw [lists.counts sequential key small, tallies.fields]
  exact List.countP_le_length

end Counted

/-! ## The guarded reader -/

/-- What the guarded reader stops at. -/
inductive Trap where
  /-- An entry that a table does not have. -/
  | outside
  /-- A difference below zero. -/
  | negative
  /-- A count beyond the limit. -/
  | overflow
  /-- A round more than allowed. -/
  | endless
deriving DecidableEq, Repr

namespace Guarded

/-- The key of the last point. -/
def lastKey : UInt8 := 43

/-- The point of a key by its place, which is behind those of all lower keys. -/
def lookup (key : UInt8) : Except Trap Descriptor :=
  if 1 ≤ key ∧ key ≤ lastKey then
    match Registry.points[key.toNat - 1]? with
    | some point => .ok point
    | none => .error .outside
  else .ok .blank

/-- The index of a field. One without a position is counted. -/
def index (limit : Nat) (p : Progress) (key : UInt8) : Option Nat → Except Trap (Nat × Progress)
  | some position => .ok (position, p)
  | none =>
    if inside : key.toNat < 64 then
      let count := p.counts[key.toNat]
      if count < limit then .ok (count + 1, { p with counts := p.counts.set key.toNat (count + 1) })
      else .error .overflow
    else .error .outside

/-- The bits a stream has been read past its end. -/
def missing (s : BitStream) : Except Trap Nat :=
  if s.size ≤ s.cursor then .ok (s.cursor - s.size) else .error .negative

/-- Deliver the next field, or tell how the frame ends. -/
def nextField (limit : Nat) (positional : Bool) (p : Progress) (s : BitStream) :
    Except Trap (Except FrameEnd (Progress × BitStream)) :=
  if s.canContinue (Field.headerBits positional) then do
    let (position, key, body) := readFieldHeader positional s
    let point ← lookup key
    if !point.isAssigned then
      .ok (.error (if key = Registry.endKey then .endMarker else .unknownKey key))
    else
      let (index, p) ← index limit p key position
      let (result, rest) := Field.read body key
      .ok (.ok (p.deliver (.ofResult point.label key index result), rest))
  else .ok (.error (.exhausted s.remaining))

/-- Read fields in so many rounds. -/
def readFields (limit : Nat) (positional : Bool) (sink : Sink) :
    (rounds : Nat) → BitStream → Progress → Except Trap (Progress × FrameEnd)
  | 0, _, _ => .error .endless
  | rounds + 1, s, p => do
    match ← nextField limit positional p s with
    | .error ending => .ok (p, ending)
    | .ok (p, rest) =>
      if rest.overran then
        let bits ← missing rest
        .ok (p, .truncated bits)
      else
        match sink p.deliveries with
        | .stop => .ok (p, .aborted)
        | .continue => readFields limit positional sink rounds rest p

/-- Read a frame into a sink. -/
def read (rounds limit : Nat) (framing : Framing) (sink : Sink) (payload : List UInt8) :
    Except Trap FrameReading := do
  let (header, s) := FrameHeader.read framing (.ofBytes payload)
  let start := Progress.start (if header.messageId.isSome then [.messageId header] else [])
  let (p, ending) ←
    if s.overran then do
      let bits ← missing s
      .ok (start, .truncated bits)
    else readFields limit header.flags.isPositional sink rounds s start
  .ok {
    deliveries := p.deliveries
    summary := { header := header, fields := p.fields, errors := p.errors, ending := ending } }

/-! ## Guards that let everything pass -/

theorem lookup_eq (key : UInt8) : lookup key = .ok (Registry.lookup key) := by
  have bounds : 1 ≤ key ∧ key ≤ lastKey ↔ 0 < key.toNat ∧ key.toNat < 44 := by
    rw [UInt8.le_iff_toNat_le, UInt8.le_iff_toNat_le]
    exact and_congr Iff.rfl Nat.lt_succ_iff.symm
  have count : Registry.points.length = 43 := rfl
  unfold lookup
  split
  · rename_i inside
    obtain ⟨pos, small⟩ := bounds.mp inside
    have place : key.toNat - 1 < Registry.points.length := by omega
    rw [List.getElem?_eq_getElem place, Registry.lookup_eq_getElem pos place]
  · rename_i outside
    rw [Registry.lookup_of_unassigned]
    intro assigned
    exact outside (bounds.mpr ((Registry.isAssigned_iff key).mp (Registry.isAssigned_lookup assigned)))

theorem index_eq {limit : Nat} {p : Progress} {key : UInt8} {position : Option Nat}
    (inside : key.toNat < 64) (room : position = none → p.count key < limit) :
    index limit p key position = .ok (p.index key position) := by
  cases position with
  | some position => rfl
  | none =>
    have count : p.count key = p.counts[key.toNat] := by
      simp [Progress.count, inside]
    have set (n : Nat) : p.counts.setIfInBounds key.toNat n = p.counts.set key.toNat n := by
      grind
    have room := room rfl
    simp only [Progress.index, set, count]
    rw [count] at room
    simp only [index, inside, dif_pos, room, if_pos]

theorem missing_eq {s : BitStream} (beyond : s.overran = true) : missing s = .ok (Frame.missing s) := by
  rw [BitStream.overran_eq_true_iff] at beyond
  exact if_pos (Nat.le_of_lt beyond)

section Step

variable {limit : Nat} {positional : Bool} {p : Progress} {s : BitStream}

/-- A step meets no trap if the count of a field that it delivers is within the limit. -/
theorem nextField_eq (room : ∀ q t, Frame.nextField positional p s = .ok (q, t) →
      positional = false → p.count (fieldKey positional s) < limit) :
    nextField limit positional p s = .ok (Frame.nextField positional p s) := by
  unfold nextField
  by_cases ahead : s.canContinue (Field.headerBits positional) = true
  · rw [if_pos ahead]
    by_cases assigned : (Registry.lookup (fieldKey positional s)).isAssigned = true
    · have delivers := nextField_of_assigned (p := p) ahead assigned
      have counted : fieldPosition positional s = none → p.count (fieldKey positional s) < limit := by
        intro none
        apply room _ _ delivers
        cases positional with
        | false => rfl
        | true => cases none
      have indexed := index_eq (toNat_fieldKey_eq positional s).2 counted
      rw [delivers]
      unfold fieldKey fieldPosition at *
      simp only [lookup_eq, bind, Except.bind, assigned, indexed, readFieldHeader_rest]
      rfl
    · rw [nextField_of_unassigned ahead assigned]
      unfold fieldKey at *
      simp only [lookup_eq, bind, Except.bind, assigned]
      rfl
  · rw [if_neg ahead, nextField_of_short ahead]

end Step

section Run

variable {limit : Nat} {positional : Bool} {p : Progress} {start s : BitStream}

/-- Fields are read without a trap if there are rounds for all of them and one for the end, and their number
is within the limit. -/
theorem readFields_eq (sink : Sink) (rounds : Nat) (lists : p.Lists positional start s)
    (tallies : p.Tallies) (few : (Frame.readFields positional sink s p).1.fields ≤ limit)
    (enough : (Frame.readFields positional sink s p).1.fields < p.fields + rounds) :
    readFields limit positional sink rounds s p = .ok (Frame.readFields positional sink s p) := by
  induction rounds generalizing p s with
  | zero =>
    obtain ⟨others, later⟩ := readFields_deliveries positional sink s p
    rw [(tallies.readFields positional sink s).fields, later, Delivery.readings_append, List.length_append,
      ← tallies.fields] at enough
    omega
  | succ rounds ih =>
    have guarded : nextField limit positional p s = .ok (Frame.nextField positional p s) := by
      apply nextField_eq
      intro q t step sequential
      obtain ⟨one, counted⟩ := fields_lt_readFields tallies sink step
      have small := count_le_fields lists tallies (toNat_fieldKey_eq positional s).2 sequential
      omega
    unfold readFields
    rw [guarded]
    cases step : Frame.nextField positional p s with
    | error ending =>
      rw [readFields_of_error step]
      rfl
    | ok next =>
      obtain ⟨q, t⟩ := next
      obtain ⟨one, counted⟩ := fields_lt_readFields tallies sink step
      rw [readFields_of_ok step] at few enough counted ⊢
      simp only [bind, Except.bind]
      cases beyond : t.overran with
      | true =>
        rw [missing_eq beyond]
        rfl
      | false =>
        rw [beyond] at few enough counted
        cases verdict : sink q.deliveries with
        | stop => rfl
        | «continue» =>
          rw [verdict] at few enough counted
          refine ih (lists.next step) (tallies.next step) few ?_
          have enough : (Frame.readFields positional sink t q).1.fields < p.fields + (rounds + 1) := enough
          omega

end Run

/-- A frame is read without a trap if there are rounds for all of its fields and one for its end, and their
number is within the limit. -/
theorem read_eq (framing : Framing) (sink : Sink) (payload : List UInt8) {rounds limit : Nat}
    (enough : (Frame.read framing sink payload).readings.length < rounds)
    (few : (Frame.read framing sink payload).readings.length ≤ limit) :
    read rounds limit framing sink payload = .ok (Frame.read framing sink payload) := by
  rw [← (read_tallies framing sink payload).1] at enough few
  have opened := Progress.lists_opening (FrameHeader.ofPayload framing payload).flags.isPositional
    framing payload (afterHeader framing payload)
  have start : Progress.start (if (FrameHeader.ofPayload framing payload).messageId.isSome then
      [.messageId (FrameHeader.ofPayload framing payload)] else []) = opening framing payload :=
    congrArg Progress.start (announcement_eq framing payload).symm
  have behind : (BitStream.ofBytes payload).skip (FrameHeader.ofPayload framing payload).width =
    afterHeader framing payload := rfl
  unfold read
  simp only [FrameHeader.read_eq, start, behind]
  cases beyond : (afterHeader framing payload).overran with
  | true =>
    rw [read_eq_of_overran sink beyond, missing_eq beyond]
    rfl
  | false =>
    rw [read_eq_of_inside sink beyond] at few enough ⊢
    have fields := readFields_eq sink rounds opened (Progress.tallies_opening framing payload) few
      (Nat.lt_of_lt_of_le enough (Nat.le_add_left _ _))
    simp only [Bool.false_eq_true, if_false, fields]
    rfl

end Guarded

/-- **Reading ends and meets no trap.** A step that delivers a field moves the cursor by its header, of 6 bits
or of 14 with a position, and by 8 bits or more. So all fields of a frame, if there are any, take fewer bits with
8 for each body than the payload has. The guarded reader is done in one round more than there are fields: no
entry is looked up outside of a table, no difference is below zero and no count exceeds the number of fields.
That number is below `2 ^ 32` for every payload of so few bytes, and so is every count. -/
theorem read_guarded (framing : Framing) (sink : Sink) (payload : List UInt8) :
    let r := read framing sink payload
    let front (positional : Bool) := if positional then 14 else 6
    let n := r.readings.length
    (∀ (positional : Bool) (p q : Progress) (s t : BitStream), nextField positional p s = .ok (q, t) →
      s.cursor + (front positional + 8) ≤ t.cursor) ∧
    (1 ≤ n → n * (front r.header.flags.isPositional + 8) < 8 * payload.length) ∧
    (∀ rounds limit, n < rounds → n ≤ limit → Guarded.read rounds limit framing sink payload = .ok r) ∧
    (payload.length < 2 ^ 32 →
      ∀ rounds, n < rounds → Guarded.read rounds (2 ^ 32 - 1) framing sink payload = .ok r) := by
  intro r front n
  have header (positional : Bool) : front positional = Field.headerBits positional := by
    cases positional <;> rfl
  have room : 1 ≤ n → n * (front r.header.flags.isPositional + 8) < 8 * payload.length := by
    rw [header]
    exact read_room framing sink payload
  refine ⟨?_, room, ?_, ?_⟩
  · intro positional p q s t step
    rw [header]
    exact nextField_far step
  · intro rounds limit enough few
    exact Guarded.read_eq framing sink payload enough few
  · intro short rounds enough
    have few : n ≤ 2 ^ 32 - 1 := by
      by_contra many
      have room := room (by omega)
      have wide : n * 8 ≤ n * (front r.header.flags.isPositional + 8) :=
        Nat.mul_le_mul_left n (Nat.le_add_left 8 _)
      omega
    exact Guarded.read_eq framing sink payload enough few

end Frame

end Telemetry
