import Telemetry.Proofs.Frame.Accounting

/-!
# Sinks that stop

The reader that collects all fields follows a trace to its end. Any other sink follows the same trace:
either it goes on at every field of it, and then it comes to the same end, or it stops at a field on the
way and is told that the frame was aborted (`Reads.follow`). A field that ran past the end lies behind the
trace: the frame is truncated then, whatever the sink answers. So what a sink is handed is a prefix of
what a collecting reader is handed, cut off behind the first field at which it stops (`read_stops`).
-/

namespace Telemetry

/-- What a sink answers to the field of a number, counted from one. -/
def Sink.answer (sink : Sink) (before : List Delivery) (readings : List Reading) (number : Nat) :
    Verdict :=
  sink (before ++ (readings.take number).map .field)

theorem Sink.answer_cons (sink : Sink) (before : List Delivery) (reading : Reading)
    (rest : List Reading) (number : Nat) :
    sink.answer before (reading :: rest) (number + 1) =
      sink.answer (before ++ [.field reading]) rest number := by
  simp [answer]

theorem Sink.answer_append (sink : Sink) (before : List Delivery) (readings others : List Reading)
    {number : Nat} (within : number ≤ readings.length) :
    sink.answer before (readings ++ others) number = sink.answer before readings number := by
  rw [answer, answer, List.take_append_of_le_length within]

theorem Sink.answer_take (sink : Sink) (before : List Delivery) (readings : List Reading)
    {number last : Nat} (within : number ≤ last) :
    sink.answer before (readings.take last) number = sink.answer before readings number := by
  rw [answer, answer, List.take_take, Nat.min_eq_left within]

namespace Frame

/-! ## Counts -/

section Counts

variable {positional : Bool} {p q : Progress} {s t : BitStream} {readings : List Reading}

/-- The counts are those of the fields that have been delivered. -/
structure Progress.Tallies (p : Progress) : Prop where
  fields : p.fields = (Delivery.readings p.deliveries).length
  errors : p.errors = (Delivery.readings p.deliveries).countP fun reading => !reading.isOk

theorem Progress.Tallies.deliver (h : p.Tallies) (reading : Reading) : (p.deliver reading).Tallies := by
  have listed : Delivery.readings (p.deliver reading).deliveries =
      Delivery.readings p.deliveries ++ [reading] := Delivery.readings_append p.deliveries [reading]
  constructor
  · rw [listed, List.length_append, ← h.fields]
    rfl
  · rw [listed, List.countP_append, ← h.errors, List.countP_singleton, Progress.deliver]
    cases reading.isOk <;> rfl

theorem Progress.Tallies.next (h : p.Tallies) (step : nextField positional p s = .ok (q, t)) :
    q.Tallies := by
  obtain ⟨-, -, taken, -⟩ := nextField_ok step
  have indexed : (p.index (fieldKey positional s) (fieldPosition positional s)).2.Tallies := by
    cases fieldPosition positional s with
    | none => exact ⟨h.fields, h.errors⟩
    | some position => exact h
  rw [taken]
  exact indexed.deliver _

theorem Progress.Tallies.readFields (h : p.Tallies) (positional : Bool) (sink : Sink) (s : BitStream) :
    (readFields positional sink s p).1.Tallies := by
  obtain ⟨-, tallies⟩ :=
    @readFields_keeps positional (fun p _ => p.Tallies) Progress.Tallies.next sink s p h
  exact tallies

theorem Progress.tallies_opening (framing : Framing) (payload : List UInt8) :
    (opening framing payload).Tallies := by
  unfold opening announcement
  split <;> exact ⟨rfl, rfl⟩

end Counts

/-! ## Following a trace -/

section Following

variable {positional : Bool} {p q : Progress} {s t : BitStream} {readings : List Reading}

/-- A sink follows a trace to its end, or stops at a field of it. -/
theorem Reads.follow (trace : Reads positional p s readings q t) (sink : Sink) :
    (readFields positional sink s p = readFields positional sink t q ∧
      ∀ n, 0 < n → n ≤ readings.length → sink.answer p.deliveries readings n = .continue) ∨
    ∃ n r u, 0 < n ∧ n ≤ readings.length ∧ Reads positional p s (readings.take n) r u ∧
      (∀ m, 0 < m → m < n → sink.answer p.deliveries readings m = .continue) ∧
      sink.answer p.deliveries readings n = .stop ∧
      readFields positional sink s p = (r, .aborted) := by
  induction trace with
  | done =>
    left
    refine ⟨rfl, ?_⟩
    intro n positive within
    exact absurd positive (Nat.not_lt.mpr within)
  | @field p q r s t u reading rest step delivered beyond trace ih =>
    have later (n : Nat) : sink.answer p.deliveries (reading :: rest) (n + 1) =
        sink.answer q.deliveries rest n := by
      rw [sink.answer_cons, delivered]
    have first : sink.answer p.deliveries (reading :: rest) 1 = sink q.deliveries := by
      rw [later 0, Sink.answer, List.take_zero, List.map_nil, List.append_nil]
    rw [readFields_of_ok step, beyond]
    cases verdict : sink q.deliveries with
    | stop =>
      right
      refine ⟨1, q, t, Nat.one_pos, Nat.succ_pos _, .field step delivered beyond .done, ?_, ?_, rfl⟩
      · intro m positive early
        omega
      · rw [first, verdict]
    | «continue» =>
      rcases ih with ⟨same, goes⟩ | ⟨n, v, w, positive, within, front, goes, stops, aborted⟩
      · left
        refine ⟨same, ?_⟩
        intro n positive within
        obtain ⟨m, rfl⟩ := Nat.exists_eq_succ_of_ne_zero (Nat.ne_of_gt positive)
        cases m with
        | zero => rw [first, verdict]
        | succ m =>
          rw [later]
          exact goes (m + 1) (Nat.succ_pos m) (Nat.le_of_succ_le_succ within)
      · right
        refine ⟨n + 1, v, w, Nat.succ_pos n, Nat.succ_le_succ within,
          .field step delivered beyond front, ?_, ?_, aborted⟩
        · intro m positive early
          obtain ⟨k, rfl⟩ := Nat.exists_eq_succ_of_ne_zero (Nat.ne_of_gt positive)
          cases k with
          | zero => rw [first, verdict]
          | succ k =>
            rw [later]
            exact goes (k + 1) (Nat.succ_pos k) (Nat.lt_of_succ_lt_succ early)
        · rw [later]
          exact stops

/-- What a sink is handed of fields, and how it is told that they ended, beside a reader that collects. -/
theorem readFields_stops (positional : Bool) (sink : Sink) (p : Progress) (inside : s.overran = false) :
    ∃ readings, (readFields positional sink s p).1.deliveries = p.deliveries ++ readings.map .field ∧
      (∀ n, 0 < n → n < readings.length → sink.answer p.deliveries readings n = .continue) ∧
      ((readFields positional sink s p = readFields positional Sink.collect s p ∧
          (0 < readings.length → sink.answer p.deliveries readings readings.length = .stop →
            s.size < s.cursor + span positional readings ∧ (readFields positional sink s p).2 =
              .truncated (s.cursor + span positional readings - s.size))) ∨
        (0 < readings.length ∧ sink.answer p.deliveries readings readings.length = .stop ∧
          s.cursor + span positional readings ≤ s.size ∧
          (readFields positional sink s p).2 = .aborted ∧
          ∃ others, (readFields positional Sink.collect s p).1.deliveries =
            p.deliveries ++ (readings ++ others).map .field)) := by
  obtain ⟨readings, q, t, trace, stop⟩ := readFields_trace positional Sink.collect s p
  rcases trace.follow sink with ⟨same, goes⟩ | ⟨n, r, u, positive, within, front, goes, stops, aborted⟩
  · rcases whole : readFields positional Sink.collect s p with ⟨last, ending⟩
    rw [whole] at stop
    cases stop with
    | refused step =>
      rw [readFields_of_error step] at same
      refine ⟨readings, ?_, ?_, Or.inl ⟨same, ?_⟩⟩
      · rw [same]
        exact trace.deliveries
      · intro n positive early
        exact goes n positive (Nat.le_of_lt early)
      · intro some stops
        rw [goes _ some (Nat.le_refl _)] at stops
        cases stops
    | @cut _ v step beyond =>
      -- The sink is handed the field before it is seen to run past the end.
      obtain ⟨reading, delivered, moved, -, -⟩ := trace.snoc step
      rw [readFields_of_ok step, beyond] at same
      rw [moved, BitStream.overran_eq_true_iff] at beyond
      refine ⟨readings ++ [reading], ?_, ?_, Or.inl ⟨same, ?_⟩⟩
      · rw [same]
        exact delivered
      · intro n positive early
        rw [List.length_append, List.length_singleton] at early
        rw [sink.answer_append _ _ _ (Nat.le_of_lt_succ early)]
        exact goes n positive (Nat.le_of_lt_succ early)
      · intro _ _
        refine ⟨beyond, ?_⟩
        rw [same, moved]
        rfl
    | stopped _ _ verdict => cases verdict
  · have length : (readings.take n).length = n := by
      rw [List.length_take, Nat.min_eq_left within]
    have reached := front.not_overran inside
    rw [front.stream, BitStream.overran_eq_false_iff] at reached
    refine ⟨readings.take n, ?_, ?_, Or.inr ⟨?_, ?_, reached, ?_, ?_⟩⟩
    · rw [aborted]
      exact front.deliveries
    · intro m positive early
      rw [length] at early
      rw [sink.answer_take _ _ (Nat.le_of_lt early)]
      exact goes m positive early
    · rw [length]
      exact positive
    · rw [length, sink.answer_take _ _ (Nat.le_refl n)]
      exact stops
    · rw [aborted]
    · obtain ⟨others, later⟩ := readFields_deliveries positional Sink.collect u r
      refine ⟨others, ?_⟩
      rw [front.readFields_collect, later, front.deliveries, List.append_assoc, ← List.map_append]

end Following

/-! ## Frames -/

section Frames

variable {framing : Framing} {payload : List UInt8}

theorem read_tallies (framing : Framing) (sink : Sink) (payload : List UInt8) :
    (read framing sink payload).summary.fields = (read framing sink payload).readings.length ∧
      (read framing sink payload).summary.errors =
        (read framing sink payload).readings.countP fun reading => !reading.isOk := by
  have start := Progress.tallies_opening framing payload
  cases beyond : (afterHeader framing payload).overran with
  | true =>
    rw [read_eq_of_overran sink beyond]
    exact ⟨start.fields, start.errors⟩
  | false =>
    rw [read_eq_of_inside sink beyond]
    obtain ⟨fields, errors⟩ := start.readFields _ sink (afterHeader framing payload)
    exact ⟨fields, errors⟩

/-- A frame read into a sink, beside the same frame read into one that collects. -/
theorem read_beside_collect (framing : Framing) (sink : Sink) (payload : List UInt8) :
    let full := decodeFrame framing payload
    let r := read framing sink payload
    let taken := r.header.width + span r.header.flags.isPositional r.readings
    let answer := sink.answer (announcement framing payload) r.readings
    r.deliveries = announcement framing payload ++ r.readings.map .field ∧
    (∀ n, 0 < n → n < r.readings.length → answer n = .continue) ∧
    ((r = full ∧ (0 < r.readings.length → answer r.readings.length = .stop →
        8 * payload.length < taken ∧ r.ending = .truncated (taken - 8 * payload.length))) ∨
      (0 < r.readings.length ∧ answer r.readings.length = .stop ∧ taken ≤ 8 * payload.length ∧
        r.ending = .aborted ∧ r.readings <+: full.readings)) := by
  intro full r taken answer
  have headed : r.header = FrameHeader.ofPayload framing payload := header_read framing sink payload
  cases beyond : (afterHeader framing payload).overran with
  | true =>
    have mine : r = _ := read_eq_of_overran sink beyond
    have theirs : full = _ := read_eq_of_overran Sink.collect beyond
    have handed : r.deliveries = announcement framing payload ++ ([] : List Reading).map .field := by
      rw [mine]
      exact (List.append_nil _).symm
    have none : r.readings = [] := readings_of_deliveries handed
    rw [none]
    refine ⟨handed, ?_, Or.inl ⟨mine.trans theirs.symm, ?_⟩⟩
    · intro n _ within
      exact absurd within (Nat.not_lt_zero n)
    · intro some
      exact absurd some (Nat.lt_irrefl 0)
  | false =>
    have mine : r = _ := read_eq_of_inside sink beyond
    have theirs : full = _ := read_eq_of_inside Sink.collect beyond
    obtain ⟨readings, delivered, goes, relation⟩ :=
      readFields_stops (FrameHeader.ofPayload framing payload).flags.isPositional sink
        (opening framing payload) beyond
    have handed : r.deliveries = announcement framing payload ++ readings.map .field := by
      rw [mine]
      exact delivered
    have listed : readings = r.readings := (readings_of_deliveries handed).symm
    have total : (afterHeader framing payload).cursor +
        span (FrameHeader.ofPayload framing payload).flags.isPositional r.readings = taken := by
      rw [cursor_afterHeader, ← headed]
    rw [size_afterHeader, listed, total] at relation
    rw [listed] at handed goes
    refine ⟨handed, goes, ?_⟩
    rcases relation with ⟨same, cut⟩ | ⟨some, stops, reached, aborted, others, more⟩
    · left
      refine ⟨?_, ?_⟩
      · rw [mine, theirs, same]
      · intro some stops
        obtain ⟨past, truncated⟩ := cut some stops
        refine ⟨past, ?_⟩
        rw [mine]
        exact truncated
    · right
      refine ⟨some, stops, reached, ?_, others, ?_⟩
      · rw [mine]
        exact aborted
      · symm
        apply readings_of_deliveries
        rw [theirs]
        exact more

/-- **A sink that stops sees a prefix.** Beside the reader that collects, every sink is told the same
header and is handed the first of the same fields, and its counts are those of what it was handed. When it
answers that it stops, it has been handed as many fields as it has answered to; the frame is told to be
aborted, unless that field ran past the end of the payload: then it is truncated, as it is for the other
reader. A sink that goes on at every field is told all that the other reader is. -/
theorem read_stops (framing : Framing) (sink : Sink) (payload : List UInt8) :
    let full := decodeFrame framing payload
    let r := read framing sink payload
    let taken := r.header.width + span r.header.flags.isPositional r.readings
    let size := 8 * payload.length
    let answer := sink.answer (announcement framing payload) r.readings
    r.header = full.header ∧
    r.deliveries = announcement framing payload ++ r.readings.map .field ∧
    r.readings <+: full.readings ∧
    r.summary.fields = r.readings.length ∧
    r.summary.errors = (r.readings.countP fun reading => !reading.isOk) ∧
    (∀ n, 0 < n → n ≤ r.readings.length → answer n = .stop →
      r.readings.length = n ∧
      (taken ≤ size → r.ending = .aborted) ∧
      (size < taken → r.ending = .truncated (taken - size) ∧ full.ending = .truncated (taken - size))) ∧
    ((∀ n, 0 < n → n ≤ r.readings.length → answer n = .continue) → r = full) := by
  intro full r taken size answer
  have header : r.header = full.header :=
    (header_read framing sink payload).trans (header_read framing Sink.collect payload).symm
  obtain ⟨fields, errors⟩ := read_tallies framing sink payload
  obtain ⟨handed, goes, relation⟩ := read_beside_collect framing sink payload
  have last (n : Nat) (positive : 0 < n) (within : n ≤ r.readings.length) (stops : answer n = .stop) :
      r.readings.length = n := by
    by_contra other
    have on : answer n = .continue := goes n positive (Nat.lt_of_le_of_ne within (Ne.symm other))
    rw [on] at stops
    cases stops
  rcases relation with ⟨whole, cut⟩ | ⟨some, stops, reached, aborted, within⟩
  · have whole : r = full := whole
    refine ⟨header, handed, ⟨[], ?_⟩, fields, errors, ?_, fun _ => whole⟩
    · rw [List.append_nil, whole]
    · intro n positive within stops
      have length := last n positive within stops
      rw [← length] at positive stops
      obtain ⟨past, truncated⟩ := cut positive stops
      refine ⟨length, ?_, ?_⟩
      · intro reached
        exact absurd past (Nat.not_lt.mpr reached)
      · intro _
        rw [← whole]
        exact ⟨truncated, truncated⟩
  · refine ⟨header, handed, within, fields, errors, ?_, ?_⟩
    · intro n positive bounded stops
      refine ⟨last n positive bounded stops, fun _ => aborted, ?_⟩
      intro past
      exact absurd past (Nat.not_lt.mpr reached)
    · intro on
      have on : answer r.readings.length = .continue := on _ some (Nat.le_refl _)
      have stops : answer r.readings.length = .stop := stops
      rw [on] at stops
      cases stops

-- The only field of this frame lacks 13 of its bits, which outweighs that the sink stops at it.
example : (read .fromFlags (fun _ => .stop) [0, 5]).ending = .truncated 13 := by
  decide +kernel

end Frames

end Frame

end Telemetry
