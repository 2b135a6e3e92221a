import Telemetry.Proofs.Envelope.Resealing

/-!
# The parts of a decrypted envelope

The parts are cut out at places counted from both ends, and the payload by a length that stands among them
and may be anything. `Guarded.parse` cuts in the same way with every access checked: it stops at a slice or
a byte out of range and at a difference below zero, and it notes the places of the bytes that it reads. It
never stops and reads no place twice (`Guarded.parse_eq`), since eleven bytes hold what is counted from both
ends and the length is compared with the others before it cuts.
-/

namespace Telemetry

namespace OpenedEnvelope

/-! ## Outcomes by length -/

theorem parse_of_short {bytes : List UInt8} (short : bytes.length < 11) :
    parse bytes = .error (.invalidLength bytes.length) :=
  if_pos short

section Long

variable {bytes : List UInt8} (long : 11 ≤ bytes.length)

include long

theorem length_payload {declared : Nat} (inside : declared ≤ bytes.length - 11) :
    ((bytes.drop 7).take declared).length = declared := by
  rw [List.length_take, List.length_drop]
  omega

theorem parse_of_beyond (beyond : bytes.length - 11 < (bytes.getD 6 0).toNat) :
    parse bytes = .error (.lengthMismatch (bytes.getD 6 0).toNat (bytes.length - 11)) := by
  rw [parse, if_neg (Nat.not_lt.mpr long)]
  exact if_pos beyond

theorem parse_of_inside (inside : (bytes.getD 6 0).toNat ≤ bytes.length - 11) :
    parse bytes = .ok ⟨four bytes 0, bytes.getD 4 0, bytes.getD 5 0,
      (bytes.drop 7).take (bytes.getD 6 0).toNat, four bytes (bytes.length - 4)⟩ := by
  rw [parse, if_neg (Nat.not_lt.mpr long)]
  exact if_neg (Nat.not_lt.mpr inside)

end Long

/-! ## Access with checks -/

/-- Some of the bytes of a buffer, and the place where they begin. -/
structure Slice where
  start : Nat
  bytes : List UInt8

namespace Guarded

/-- Accesses stop where they are out of range, and note the places of the bytes that they read. -/
abbrev Access := StateT (List Nat) Option

def difference (whole part : Nat) : Access Nat :=
  if part ≤ whole then pure (whole - part) else failure

/-- The slice from one place of a slice up to another. Nothing is read yet. -/
def slice (s : Slice) (first stop : Nat) : Access Slice :=
  if first ≤ stop ∧ stop ≤ s.bytes.length then
    pure ⟨s.start + first, (s.bytes.drop first).take (stop - first)⟩
  else failure

def load (s : Slice) : Access (List UInt8) := do
  modify (· ++ List.range' s.start s.bytes.length)
  return s.bytes

/-- A slice of four bytes, and of no other number. -/
def loadFour (s : Slice) : Access (Vector UInt8 4) := do
  let bytes ← load s
  if fits : bytes.length = 4 then return ⟨bytes.toArray, by simpa using fits⟩ else failure

def loadByte (s : Slice) (place : Nat) : Access UInt8 := do
  match s.bytes[place]? with
  | some byte =>
    modify (· ++ [s.start + place])
    return byte
  | none => failure

/-- Take a decrypted envelope apart. -/
def parse (bytes : List UInt8) : Access (Except EnvelopeError OpenedEnvelope) := do
  let whole : Slice := ⟨0, bytes⟩
  if bytes.length < 11 then return .error (.invalidLength bytes.length)
  let address ← loadFour (← slice whole 0 4)
  let last ← difference bytes.length 4
  let tag ← loadFour (← slice whole last bytes.length)
  let options ← loadByte whole 4
  let nonce ← loadByte whole 5
  let declared ← loadByte whole 6
  let body ← slice whole 7 last
  if body.bytes.length < declared.toNat then
    return .error (.lengthMismatch declared.toNat body.bytes.length)
  let payload ← load (← slice body 0 declared.toNat)
  return .ok { address, options, nonce, payload, tag }

section Run

variable {α : Type} {places : List Nat} {start : Nat} {bytes : List UInt8}

theorem run_difference {whole part : Nat} (next : Nat → Access α) (inside : part ≤ whole) :
    (difference whole part >>= next).run places = (next (whole - part)).run places := by
  rw [difference, if_pos inside]
  rfl

theorem run_slice {first stop : Nat} (next : Slice → Access α)
    (inside : first ≤ stop ∧ stop ≤ bytes.length) :
    (slice ⟨start, bytes⟩ first stop >>= next).run places =
      (next ⟨start + first, (bytes.drop first).take (stop - first)⟩).run places := by
  rw [slice, if_pos inside]
  rfl

theorem run_load (next : List UInt8 → Access α) :
    (load ⟨start, bytes⟩ >>= next).run places =
      (next bytes).run (places ++ List.range' start bytes.length) := rfl

theorem run_loadFour {held : Vector UInt8 4} (next : Vector UInt8 4 → Access α)
    (same : held.toList = bytes) :
    (loadFour ⟨start, bytes⟩ >>= next).run places = (next held).run (places ++ List.range' start 4) := by
  have fits : bytes.length = 4 := same ▸ held.length_toList
  have whole (size : bytes.toArray.size = 4) : Vector.mk bytes.toArray size = held := by
    refine Vector.toList_inj.mp ?_
    rw [same]
    rfl
  rw [loadFour, bind_assoc, run_load]
  simp only [dif_pos fits, whole, pure_bind]
  rw [fits]

theorem run_loadByte {place : Nat} (next : UInt8 → Access α) (inside : place < bytes.length) :
    (loadByte ⟨start, bytes⟩ place >>= next).run places =
      (next (bytes.getD place 0)).run (places ++ [start + place]) := by
  rw [loadByte, List.getElem?_eq_getElem inside, List.getD_eq_getElem _ _ inside]
  rfl

end Run

/-- The places that are read, in order: of the address, the tag, the options, the nonce, the length and as
many bytes of the payload as it declares. -/
def places (length declared : Nat) : List Nat :=
  List.range' 0 4 ++ List.range' (length - 4) 4 ++ [4] ++ [5] ++ [6] ++ List.range' 7 declared

theorem mem_places {length declared place : Nat} :
    place ∈ places length declared ↔ place < 7 + declared ∨ length - 4 ≤ place ∧ place < length - 4 + 4 := by
  simp only [places, List.mem_append, List.mem_range'_1, List.mem_singleton]
  omega

theorem nodup_places {length declared : Nat} (room : 11 + declared ≤ length) :
    (places length declared).Nodup := by
  have run (start count : Nat) : (List.range' start count).Nodup := List.nodup_range'
  simp only [places, List.append_assoc, List.nodup_append, run, List.mem_append, List.mem_range'_1,
    List.mem_singleton, List.nodup_singleton, true_and]
  and_intros
  all_goals
    intro place first other second
    omega

theorem parse_eq (bytes : List UInt8) :
    ∃ places, (parse bytes).run [] = some (OpenedEnvelope.parse bytes, places) ∧ places.Nodup ∧
      ∀ place ∈ places, place < bytes.length := by
  unfold parse
  dsimp only
  by_cases short : bytes.length < 11
  · rw [if_pos short, parse_of_short short]
    exact ⟨[], rfl, List.nodup_nil, List.forall_mem_nil _⟩
  · have address : (four bytes 0).toList = (bytes.drop 0).take (4 - 0) := toList_four (by omega)
    have tag : (four bytes (bytes.length - 4)).toList =
        (bytes.drop (bytes.length - 4)).take (bytes.length - (bytes.length - 4)) := by
      rw [toList_four (by omega)]
      congr 1
      omega
    have body : ((bytes.drop 7).take (bytes.length - 4 - 7)).length = bytes.length - 11 := by
      rw [List.length_take, List.length_drop]
      omega
    rw [if_neg short, run_slice _ (by omega), run_loadFour _ address, run_difference _ (by omega),
      run_slice _ (by omega), run_loadFour _ tag, run_loadByte _ (by omega), run_loadByte _ (by omega),
      run_loadByte _ (by omega), run_slice _ (by omega)]
    simp only [body, Nat.zero_add, List.nil_append]
    by_cases beyond : bytes.length - 11 < (bytes.getD 6 0).toNat
    · rw [if_pos beyond, parse_of_beyond (by omega) beyond]
      refine ⟨places bytes.length 0, rfl, nodup_places (by omega), fun place read => ?_⟩
      have bound := mem_places.mp read
      omega
    · have payload : (((bytes.drop 7).take (bytes.length - 4 - 7)).drop 0).take
          ((bytes.getD 6 0).toNat - 0) = (bytes.drop 7).take (bytes.getD 6 0).toNat := by
        rw [List.drop_zero, List.take_take, Nat.sub_zero, Nat.min_eq_left (by omega)]
      rw [if_neg beyond, run_slice _ (by omega), run_load, payload,
        length_payload (by omega) (by omega), parse_of_inside (by omega) (by omega)]
      refine ⟨places bytes.length (bytes.getD 6 0).toNat, rfl, nodup_places (by omega), fun place read => ?_⟩
      have bound := mem_places.mp read
      omega

end Guarded

/-- **Taking apart is exact.** Fewer than eleven bytes are refused with their number, and a length byte that
declares more than lie between it and the tag with both numbers. Any other bytes are the parts one behind the
other, of the payload as many as declared, with the rest between payload and tag. Every access to the bytes
is in range, and no byte is read twice. -/
theorem parse_splits (bytes : List UInt8) :
    (parse bytes = .error (.invalidLength bytes.length) ↔ bytes.length < 11) ∧
    (11 ≤ bytes.length → ∃ length, bytes[6]? = some length ∧
      (parse bytes = .error (.lengthMismatch length.toNat (bytes.length - 11)) ↔
        bytes.length - 11 < length.toNat) ∧
      (length.toNat ≤ bytes.length - 11 → ∃ opened rest, parse bytes = .ok opened ∧
        opened.payload.length = length.toNat ∧
        bytes = opened.address.toList ++ [opened.options, opened.nonce, length] ++ opened.payload ++ rest ++
          opened.tag.toList ∧
        rest.length = bytes.length - 11 - length.toNat)) ∧
    (∃ places, (Guarded.parse bytes).run [] = some (parse bytes, places) ∧ places.Nodup ∧
      ∀ place ∈ places, place < bytes.length) := by
  refine ⟨⟨fun refused => ?_, parse_of_short⟩, fun long => ⟨bytes.getD 6 0, ?_, ⟨fun refused => ?_, ?_⟩, ?_⟩,
    Guarded.parse_eq bytes⟩
  · by_contra long
    have long := Nat.le_of_not_lt long
    by_cases inside : (bytes.getD 6 0).toNat ≤ bytes.length - 11
    · rw [parse_of_inside long inside] at refused
      cases refused
    · rw [parse_of_beyond long (Nat.lt_of_not_le inside)] at refused
      cases refused
  · rw [List.getD_eq_getElem _ _ (by omega), List.getElem?_eq_getElem]
  · by_contra inside
    rw [parse_of_inside long (Nat.le_of_not_lt inside)] at refused
    cases refused
  · exact parse_of_beyond long
  · intro inside
    have opens := parse_of_inside long inside
    obtain ⟨-, rest, layout⟩ := parse_ok opens
    have count := length_payload long inside
    have size := congrArg List.length layout
    refine ⟨_, rest, opens, count, ?_, ?_⟩
    · rw [Envelope.content, count, UInt8.ofNat_toNat] at layout
      simpa only [List.append_assoc, List.cons_append, List.nil_append] using layout
    · simp only [List.length_append, Vector.length_toList, Envelope.length_content, count] at size
      omega

end OpenedEnvelope

end Telemetry
