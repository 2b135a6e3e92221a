import Telemetry.Proofs.Frame.Drafts

/-!
# Keys without a point

Every key that no point has resolves to one blank descriptor, which knows nothing of the key that was asked
for. Reading refuses such a key by the name it was given. Writing builds the same refusal from the descriptor,
so it names key 0 whatever the key was (`Field.unassigned_refused`). Either way nothing is read or written, and
no key of a point is ever refused as invalid: what a point does not take or offer is refused for another
reason.
-/

namespace Telemetry

namespace Field

/-! ## Writing -/

/-- Append a field in place. What is written outlives an error, so the order of the steps matters. -/
def writeSteps (value : Value) (key : UInt8) (position : Option UInt8) :
    ExceptT FieldError (StateM BitStream) Unit := do
  let body ← MonadExcept.ofExcept (Field.body (Registry.lookup key) value)
  modify fun s => writeHeader s key position
  modify fun s => writeBody s body

/-- Appending a field in place comes to the same as writing it to a stream that is kept if that fails. -/
theorem run_writeSteps (value : Value) (key : UInt8) (position : Option UInt8) (s : BitStream) :
    (writeSteps value key position).run.run s =
      match write s value key position with
      | .ok longer => (.ok (), longer)
      | .error error => (.error error, s) := by
  unfold writeSteps write
  cases Field.body (Registry.lookup key) value <;> rfl

theorem write_error_iff (s : BitStream) (value : Value) (key : UInt8) (position : Option UInt8)
    (error : FieldError) :
    write s value key position = .error error ↔
      Field.body (Registry.lookup key) value = .error error := by
  unfold write
  cases Field.body (Registry.lookup key) value <;> simp [Except.map]

/-- Appending fails with what the body fails with. -/
theorem run_writeSteps_error_iff (value : Value) (key : UInt8) (position : Option UInt8) (s : BitStream)
    (error : FieldError) :
    ((writeSteps value key position).run.run s).1 = .error error ↔
      Field.body (Registry.lookup key) value = .error error := by
  rw [run_writeSteps, ← write_error_iff s value key position error]
  cases write s value key position <;> simp

theorem textBody_ne_invalidKey (label text : String) (other : UInt8) :
    textBody label text ≠ .error (.invalidKey other) := by
  unfold textBody
  split
  · simp
  · split <;> simp

/-- A value is refused for its key only where the descriptor is blank, which names key 0. -/
theorem body_invalidKey_iff (key : UInt8) (value : Value) (other : UInt8) :
    Field.body (Registry.lookup key) value = .error (.invalidKey other) ↔
      other = 0 ∧ ¬ Registry.Assigned key := by
  constructor
  · intro refused
    have blank : ¬ Registry.Assigned key := by
      intro assigned
      have encoded : (Registry.lookup key).encoding ≠ .unassigned :=
        of_decide_eq_true (Registry.isAssigned_lookup assigned)
      -- Every other branch refuses for a reason of its own.
      unfold Field.body at refused
      split at refused
      · exact encoded ‹_›
      · cases refused
      · cases refused
      · split at refused <;> cases refused
      · split at refused <;> cases refused
      · exact textBody_ne_invalidKey _ _ _ refused
      · cases refused
    rw [Registry.lookup_of_unassigned blank] at refused
    cases refused
    exact ⟨rfl, blank⟩
  · rintro ⟨rfl, unassigned⟩
    rw [Registry.lookup_of_unassigned unassigned]
    rfl

theorem writeSteps_of_unassigned {key : UInt8} (unassigned : ¬ Registry.Assigned key) (value : Value)
    (position : Option UInt8) (s : BitStream) :
    (writeSteps value key position).run.run s = (.error (.invalidKey 0), s) := by
  have refused := (body_invalidKey_iff key value 0).mpr ⟨rfl, unassigned⟩
  rw [run_writeSteps, (write_error_iff ..).mpr refused]

/-! ## Reading -/

theorem read_of_unassigned {key : UInt8} (unassigned : ¬ Registry.Assigned key) (s : BitStream) :
    read s key = (.error (.invalidKey key), s) := by
  unfold read
  rw [Registry.lookup_of_unassigned unassigned]
  rfl

theorem readAs_of_unassigned {key : UInt8} (unassigned : ¬ Registry.Assigned key) (s : BitStream)
    (target : ScalarKind) : readAs s key target = (.error (.invalidKey key), s) := by
  unfold readAs
  rw [Registry.lookup_of_unassigned unassigned]
  rfl

theorem read_ne_invalidKey {key : UInt8} (assigned : Registry.Assigned key) (s : BitStream)
    (other : UInt8) : (read s key).1 ≠ .error (.invalidKey other) := by
  intro refused
  obtain ⟨-, -, fault⟩ := (read_error_iff (Registry.isAssigned_lookup assigned) s _).mp refused
  cases fault

theorem readAs_ne_invalidKey {key : UInt8} (assigned : Registry.Assigned key) (s : BitStream)
    (target : ScalarKind) (other : UInt8) : (readAs s key target).1 ≠ .error (.invalidKey other) := by
  have whole := read_ne_invalidKey assigned s other
  have known := Registry.isAssigned_lookup assigned
  unfold readAs
  dsimp only
  rw [known, if_neg (by decide)]
  split
  · simp
  · split
    · rename_i error rest refused
      rw [refused] at whole
      simpa using whole
    · split <;> simp
    · simp
    · simp

end Field

/-! ## Fields of a frame -/

namespace Draft

theorem push_error_iff (draft : Draft) (w : FieldWrite) (error : FieldError) :
    draft.push w = .error error ↔ Field.body w.point w.value = .error error := by
  unfold push
  rw [FieldWrite.point,
    ← Field.write_error_iff draft.stream w.value w.key (draft.position? w.position) error]
  cases Field.write draft.stream w.value w.key (draft.position? w.position) <;> simp [Except.map]

theorem Call.apply_push_error_iff (draft : Draft) (w : FieldWrite) (error : FieldError) :
    ((Call.push w).apply draft).1 = .error error ↔ Field.body w.point w.value = .error error := by
  rw [apply_push, ← push_error_iff draft w error]
  cases draft.push w <;> simp

/-- Fields are added up to the first that is refused, and its error is the answer. -/
theorem pushAll_error_iff (draft : Draft) (writes : List FieldWrite) (error : FieldError) :
    draft.pushAll writes = .error error ↔
      ∃ before w after, writes = before ++ w :: after ∧ (∀ v ∈ before, v.IsAccepted) ∧
        Field.body w.point w.value = .error error := by
  constructor
  · intro refused
    induction writes generalizing draft with
    | nil => cases refused
    | cons w rest ih =>
      unfold pushAll at refused
      split at refused
      · rename_i longer pushed
        obtain ⟨before, v, after, rfl, accepted, stops⟩ := ih longer refused
        have first := (push_ok pushed).1
        exact ⟨w :: before, v, after, rfl, List.forall_mem_cons.mpr ⟨first, accepted⟩, stops⟩
      · rename_i stops
        cases refused
        exact ⟨[], w, rest, rfl, List.forall_mem_nil _, (push_error_iff ..).mp stops⟩
  · rintro ⟨before, w, after, rfl, accepted, stops⟩
    induction before generalizing draft with
    | nil => rw [List.nil_append, pushAll, (push_error_iff ..).mpr stops]
    | cons v before ih =>
      obtain ⟨first, others⟩ := List.forall_mem_cons.mp accepted
      obtain ⟨longer, pushed⟩ := push_of_accepted draft first
      rw [List.cons_append, pushAll, pushed]
      exact ih longer others

end Draft

theorem encodeFrame_error_iff (header : FrameHeader) (writes : List FieldWrite) (error : FieldError) :
    encodeFrame header writes = .error error ↔
      ∃ before w after, writes = before ++ w :: after ∧ (∀ v ∈ before, v.IsAccepted) ∧
        Field.body w.point w.value = .error error := by
  rw [← Draft.pushAll_error_iff (Draft.opening header), encodeFrame]
  cases (Draft.opening header).pushAll writes <;> simp [Except.map]

namespace Field

/-- **Keys without a point are refused.** Whatever the value, the position, the kind asked for and the stream,
a key that no point has is refused and the stream stays as it was; reading names that key, and writing names
key 0 in its place, so that it names the key it was given only for key 0 itself. A key of a point is never
refused as invalid. A frame is refused with an invalid key exactly when the first of its fields that cannot be
written has no point, and the key it names is 0. -/
theorem unassigned_refused (key : UInt8) (header : FrameHeader) (writes : List FieldWrite) :
    (¬ Registry.Assigned key →
      (∀ value position s,
        (writeSteps value key position).run.run s = (.error (.invalidKey 0), s)) ∧
      (∀ value position draft,
        (Draft.Call.push ⟨key, position, value⟩).apply draft = (.error (.invalidKey 0), draft)) ∧
      ((∀ value position s,
        (writeSteps value key position).run.run s = (.error (.invalidKey key), s)) ↔ key = 0) ∧
      (∀ s, read s key = (.error (.invalidKey key), s)) ∧
      ∀ s target, readAs s key target = (.error (.invalidKey key), s)) ∧
    (Registry.Assigned key → ∀ other,
      (∀ value position s,
        ((writeSteps value key position).run.run s).1 ≠ .error (.invalidKey other)) ∧
      (∀ value position draft,
        ((Draft.Call.push ⟨key, position, value⟩).apply draft).1 ≠ .error (.invalidKey other)) ∧
      (∀ s, (read s key).1 ≠ .error (.invalidKey other)) ∧
      ∀ s target, (readAs s key target).1 ≠ .error (.invalidKey other)) ∧
    ∀ other, encodeFrame header writes = .error (.invalidKey other) ↔
      other = 0 ∧ ∃ before w after, writes = before ++ w :: after ∧ (∀ v ∈ before, v.IsAccepted) ∧
        ¬ Registry.Assigned w.key := by
  refine ⟨fun unassigned => ⟨writeSteps_of_unassigned unassigned, ?_, ⟨?_, ?_⟩,
    read_of_unassigned unassigned, readAs_of_unassigned unassigned⟩,
    fun assigned other => ⟨?_, ?_, ?_, ?_⟩, ?_⟩
  · intro value position draft
    have refused := (body_invalidKey_iff key value 0).mpr ⟨rfl, unassigned⟩
    rw [Draft.Call.apply_push, (Draft.push_error_iff draft ⟨key, position, value⟩ _).mpr refused]
  · intro named
    cases (named (.number ⟨0⟩) none .empty).symm.trans
      (writeSteps_of_unassigned unassigned (.number ⟨0⟩) none .empty)
    rfl
  · rintro rfl
    exact writeSteps_of_unassigned unassigned
  · intro value position s refused
    rw [run_writeSteps_error_iff, body_invalidKey_iff] at refused
    exact refused.2 assigned
  · intro value position draft refused
    rw [Draft.Call.apply_push_error_iff, FieldWrite.point, body_invalidKey_iff] at refused
    exact refused.2 assigned
  · exact fun s => read_ne_invalidKey assigned s other
  · exact fun s target => readAs_ne_invalidKey assigned s target other
  · intro other
    simp only [encodeFrame_error_iff, FieldWrite.point, body_invalidKey_iff]
    constructor
    · rintro ⟨before, w, after, split, accepted, rfl, unassigned⟩
      exact ⟨rfl, before, w, after, split, accepted, unassigned⟩
    · rintro ⟨rfl, before, w, after, split, accepted, unassigned⟩
      exact ⟨before, w, after, split, accepted, rfl, unassigned⟩

/-- Writing does not name the key that it was given. -/
theorem unassigned_misnamed :
    ¬ ∀ key, ¬ Registry.Assigned key → ∀ value position s,
      (writeSteps value key position).run.run s = (.error (.invalidKey key), s) := by
  intro named
  have unassigned : ¬ Registry.Assigned 50 := by
    unfold Registry.Assigned
    decide
  cases (named 50 unassigned (.number ⟨0⟩) none .empty).symm.trans
    (writeSteps_of_unassigned unassigned (.number ⟨0⟩) none .empty)

end Field

end Telemetry
