import Telemetry.Fault
import Telemetry.Proofs.Envelope.RoundTrip

/-!
# The nonces of a session

A call either seals, with the nonce that is next and a payload that the length byte can count, and moves
the nonce on, or is refused and leaves the session as it was (`Call.apply_cases`). Over any calls, the
envelopes thus carry one nonce after the other (`run_sealed`), so no two of 256 in a row carry the same.
The nonce stands in the first block that is encrypted, nothing is chained to that block, and encryption
sends no two blocks to one: under one key these envelopes differ in their first ciphertext block already
(`firstBlock_sealWith_injective`).
-/

namespace Telemetry

/-! ## Envelopes that are opened -/

namespace Envelope

theorem reveal_sealWith (key : EnvelopeKey) (address : Address) (options nonce : UInt8)
    {payload : List UInt8} (short : payload.length ≤ 255) :
    ∃ opened, reveal key.bytes (sealWith key address options nonce payload) = .ok opened ∧
      opened.nonce = nonce := by
  obtain ⟨tag, opens⟩ := revealWith_sealWith key address options nonce short
  exact ⟨_, (reveal_bytes key _).trans opens, rfl⟩

/-- The first block of the ciphertext of an envelope. -/
def firstBlock (envelope : List UInt8) : List UInt8 :=
  (envelope.drop 4).take 16

theorem firstBlock_sealWith (key : EnvelopeKey) (address : Address) (options nonce : UInt8)
    (payload : List UInt8) :
    firstBlock (sealWith key address options nonce payload) =
      (key.cipher.encrypt ((Aes.Block.ofBytes ((content options nonce payload).take 16)).add
        Aes.Block.zero)).toList := by
  have count : ((content options nonce payload).length + 15) / 16 = (payload.length + 2) / 16 + 1 := by
    rw [length_content]
    omega
  unfold firstBlock sealWith
  rw [List.append_assoc, List.drop_left' Vector.length_toList, Aes.Cipher.encryptBytes, Aes.Block.split,
    count, Aes.Block.blocks, Aes.Cipher.encryptAfter, Aes.Block.join, List.flatMap_cons,
    List.append_assoc, List.take_left' Vector.length_toList]

/-- Under one key the first blocks of two envelopes are the same only if their nonces are. -/
theorem firstBlock_sealWith_injective {key : EnvelopeKey} {address address' : Address}
    {options options' nonce nonce' : UInt8} {payload payload' : List UInt8}
    (same : firstBlock (sealWith key address options nonce payload) =
      firstBlock (sealWith key address' options' nonce' payload')) : nonce = nonce' := by
  rw [firstBlock_sealWith, firstBlock_sealWith] at same
  have blocks := key.cipher.encrypt_injective (Vector.toList_inj.mp same)
  have plain := congrArg (Aes.Block.add · Aes.Block.zero) blocks
  simp only [Aes.Block.add_add_cancel] at plain
  have second := congrArg (fun block : Aes.Block => block[1]) plain
  simpa [Aes.Block.ofBytes, content] using second

end Envelope

namespace Session

/-! ## Calls -/

/-- What can be asked of a session. -/
inductive Call where
  | encrypt (key : List UInt8) (address : String) (options : UInt8) (payload : List UInt8)
  | sealTo (key : EnvelopeKey) (address : Address) (options : UInt8) (payload : List UInt8)
  | encodeAndSeal (key : List UInt8) (address : String) (options : UInt8) (header : FrameHeader)
    (fields : List FieldWrite)

namespace Call

/-- The key that a call is made with. -/
def key : Call → List UInt8
  | encrypt key .. => key
  | sealTo key .. => key.bytes
  | encodeAndSeal key .. => key

/-- What a call gives, and the session after it. -/
def apply (session : Session) : Call → Except Fault (List UInt8) × Session
  | encrypt key address options payload =>
    let (result, session) := session.encrypt key address options payload
    (result.mapError .envelope, session)
  | sealTo key address options payload =>
    let (result, session) := session.sealTo key address options payload
    (result.mapError .envelope, session)
  | encodeAndSeal key address options header fields =>
    session.encodeAndSeal key address options header fields

end Call

theorem sealTo_cases (session : Session) (key : EnvelopeKey) (address : Address) (options : UInt8)
    (payload : List UInt8) :
    (∃ error, session.sealTo key address options payload = (.error error, session)) ∨
      (payload.length ≤ 255 ∧ session.sealTo key address options payload =
        (.ok (Envelope.sealWith key address options session.nextNonce payload),
          ⟨session.nextNonce + 1⟩)) := by
  unfold sealTo
  by_cases long : 255 < payload.length
  · rw [if_pos long]
    exact Or.inl ⟨_, rfl⟩
  · rw [if_neg long]
    exact Or.inr ⟨by omega, rfl⟩

theorem bytes_of_ofBytes {bytes : List UInt8} {key : EnvelopeKey}
    (h : EnvelopeKey.ofBytes bytes = .ok key) : key.bytes = bytes := by
  unfold EnvelopeKey.ofBytes at h
  split at h
  · rename_i size
    cases h
    have whole := Aes.Block.toList_ofBytes bytes
    rw [List.take_of_length_le (by omega), size, Nat.sub_self, List.replicate_zero,
      List.append_nil] at whole
    exact whole
  · cases h

theorem encrypt_cases (session : Session) (key : List UInt8) (address : String) (options : UInt8)
    (payload : List UInt8) :
    (∃ error, session.encrypt key address options payload = (.error error, session)) ∨
      ∃ (k : EnvelopeKey) (a : Address), k.bytes = key ∧ payload.length ≤ 255 ∧
        session.encrypt key address options payload =
          (.ok (Envelope.sealWith k a options session.nextNonce payload), ⟨session.nextNonce + 1⟩) := by
  unfold encrypt
  cases keyed : EnvelopeKey.ofBytes key with
  | error error => exact Or.inl ⟨error, rfl⟩
  | ok k =>
    cases Address.parse address with
    | error error => exact Or.inl ⟨error, rfl⟩
    | ok a =>
      rcases session.sealTo_cases k a options payload with refused | ⟨short, made⟩
      · exact Or.inl refused
      · exact Or.inr ⟨k, a, bytes_of_ofBytes keyed, short, made⟩

/-- An envelope that was sealed under a key and with a nonce. -/
def IsSealed (key : List UInt8) (nonce : UInt8) (envelope : List UInt8) : Prop :=
  ∃ (k : EnvelopeKey) (address : Address) (options : UInt8) (payload : List UInt8),
    k.bytes = key ∧ payload.length ≤ 255 ∧
      envelope = Envelope.sealWith k address options nonce payload

theorem Call.apply_encrypt (session : Session) (key : List UInt8) (address : String) (options : UInt8)
    (payload : List UInt8) :
    (∃ error, (encrypt key address options payload).apply session = (.error error, session)) ∨
      ∃ envelope, IsSealed key session.nextNonce envelope ∧
        (encrypt key address options payload).apply session =
          (.ok envelope, ⟨session.nextNonce + 1⟩) := by
  rcases session.encrypt_cases key address options payload with
    ⟨error, refused⟩ | ⟨k, a, keyed, short, made⟩
  · left
    simp only [apply, refused]
    exact ⟨_, rfl⟩
  · right
    simp only [apply, made]
    exact ⟨_, ⟨k, a, options, payload, keyed, short, rfl⟩, rfl⟩

/-- **A call is refused and changes nothing, or uses up the next nonce.** -/
theorem Call.apply_cases (session : Session) (call : Call) :
    (∃ error, call.apply session = (.error error, session)) ∨
      ∃ envelope, IsSealed call.key session.nextNonce envelope ∧
        call.apply session = (.ok envelope, ⟨session.nextNonce + 1⟩) := by
  cases call with
  | encrypt key address options payload => exact apply_encrypt session key address options payload
  | sealTo key address options payload =>
    rcases session.sealTo_cases key address options payload with ⟨error, refused⟩ | ⟨short, made⟩
    · left
      simp only [apply, refused]
      exact ⟨_, rfl⟩
    · right
      simp only [apply, made]
      exact ⟨_, ⟨key, address, options, payload, rfl, short, rfl⟩, rfl⟩
  | encodeAndSeal key address options header fields =>
    cases written : encodeFrame header fields with
    | error error =>
      left
      simp only [apply, Session.encodeAndSeal, written]
      exact ⟨_, rfl⟩
    | ok payload =>
      -- A frame that can be written is encrypted like any payload.
      have same : (encodeAndSeal key address options header fields).apply session =
          (encrypt key address options payload).apply session := by
        simp only [apply, Session.encodeAndSeal, written]
      rw [same]
      exact apply_encrypt session key address options payload

/-! ## Runs -/

/-- Make calls one after the other. -/
def run : Session → List Call → List (Call × Except Fault (List UInt8)) × Session
  | session, [] => ([], session)
  | session, call :: rest =>
    let (result, session) := call.apply session
    let (outcomes, session) := session.run rest
    ((call, result) :: outcomes, session)

/-- The envelopes among outcomes, each with its call. -/
def sealed (outcomes : List (Call × Except Fault (List UInt8))) : List (Call × List UInt8) :=
  outcomes.filterMap fun (call, result) => result.toOption.map (call, ·)

theorem run_cons (session : Session) (call : Call) (rest : List Call) :
    session.run (call :: rest) =
      ((call, (call.apply session).1) :: ((call.apply session).2.run rest).1,
        ((call.apply session).2.run rest).2) := rfl

theorem toNat_add_ofNat (nonce : UInt8) (count : Nat) :
    (nonce + UInt8.ofNat count).toNat = (nonce.toNat + count) % 256 := by
  rw [UInt8.toNat_add, UInt8.toNat_ofNat']
  omega

/-- The envelopes of a run carry one nonce after the other, and the next is that behind the last. -/
theorem run_sealed (session : Session) (calls : List Call) :
    (session.run calls).2.nextNonce =
        session.nextNonce + UInt8.ofNat (sealed (session.run calls).1).length ∧
      ∀ j call envelope, (sealed (session.run calls).1)[j]? = some (call, envelope) →
        IsSealed call.key (session.nextNonce + UInt8.ofNat j) envelope := by
  induction calls generalizing session with
  | nil =>
    refine ⟨(UInt8.add_zero _).symm, ?_⟩
    intro j call envelope found
    cases found
  | cons call rest ih =>
    rw [run_cons]
    rcases call.apply_cases session with ⟨error, refused⟩ | ⟨envelope, made, applied⟩
    · rw [refused]
      exact ih session
    · rw [applied]
      obtain ⟨last, others⟩ := ih ⟨session.nextNonce + 1⟩
      have shift (count : Nat) : session.nextNonce + 1 + UInt8.ofNat count =
          session.nextNonce + UInt8.ofNat (count + 1) := by
        have one : (session.nextNonce + 1).toNat = (session.nextNonce.toNat + 1) % 256 :=
          toNat_add_ofNat session.nextNonce 1
        rw [← UInt8.toNat_inj, toNat_add_ofNat, toNat_add_ofNat, one]
        omega
      have front : sealed ((call, .ok envelope) :: ((⟨session.nextNonce + 1⟩ : Session).run rest).1) =
          (call, envelope) :: sealed ((⟨session.nextNonce + 1⟩ : Session).run rest).1 := rfl
      rw [front]
      refine ⟨?_, ?_⟩
      · rw [last, List.length_cons]
        exact shift _
      · intro j other found at_j
        cases j with
        | zero =>
          cases at_j
          have first : session.nextNonce + UInt8.ofNat 0 = session.nextNonce := UInt8.add_zero _
          rw [first]
          exact made
        | succ j =>
          rw [← shift]
          exact others j other found at_j

theorem IsSealed.reveal {key : List UInt8} {nonce : UInt8} {envelope : List UInt8}
    (h : IsSealed key nonce envelope) :
    ∃ opened, Envelope.reveal key envelope = .ok opened ∧ opened.nonce = nonce := by
  obtain ⟨k, address, options, payload, rfl, short, rfl⟩ := h
  exact Envelope.reveal_sealWith k address options nonce short

/-- Two envelopes under one key begin alike only if they carry one nonce. -/
theorem IsSealed.nonce_eq {key : List UInt8} {nonce nonce' : UInt8} {envelope envelope' : List UInt8}
    (h : IsSealed key nonce envelope) (h' : IsSealed key nonce' envelope')
    (same : Envelope.firstBlock envelope = Envelope.firstBlock envelope') : nonce = nonce' := by
  obtain ⟨k, address, options, payload, keyed, -, rfl⟩ := h
  obtain ⟨k', address', options', payload', keyed', -, rfl⟩ := h'
  have one : k = k' := by
    have parsed := EnvelopeKey.ofBytes_bytes k
    rw [keyed, ← keyed', EnvelopeKey.ofBytes_bytes] at parsed
    exact (Except.ok.inj parsed).symm
  rw [one] at same
  exact Envelope.firstBlock_sealWith_injective same

/-- **Nonces count the envelopes of a session.** After any calls the next nonce is the first one moved on
by the number of envelopes, and a call that is refused does not move it. Each envelope opens under its key
to the nonce of its place, so of 256 in a row no two carry one nonce, and under one key no two begin with
the same ciphertext block. -/
theorem run_nonces (session : Session) (calls : List Call) :
    let made := sealed (session.run calls).1
    (session.run calls).2.nextNonce.toNat = (session.nextNonce.toNat + made.length) % 256 ∧
    (∀ (between : Session) (call : Call) (error : Fault),
      (call.apply between).1 = .error error → (call.apply between).2 = between) ∧
    (∀ j call envelope, made[j]? = some (call, envelope) →
      ∃ opened, Envelope.reveal call.key envelope = .ok opened ∧
        opened.nonce.toNat = (session.nextNonce.toNat + j) % 256) ∧
    (∀ i j a b first second, i < j → j < i + 256 →
      made[i]? = some (a, first) → made[j]? = some (b, second) →
      (∀ x y, Envelope.reveal a.key first = .ok x → Envelope.reveal b.key second = .ok y →
        x.nonce ≠ y.nonce) ∧
      (a.key = b.key → Envelope.firstBlock first ≠ Envelope.firstBlock second)) := by
  intro made
  obtain ⟨last, each⟩ := run_sealed session calls
  have apart {i j : Nat} (before : i < j) (near : j < i + 256) :
      session.nextNonce + UInt8.ofNat i ≠ session.nextNonce + UInt8.ofNat j := by
    intro same
    have numbers := congrArg UInt8.toNat same
    rw [toNat_add_ofNat, toNat_add_ofNat] at numbers
    omega
  refine ⟨?_, ?_, ?_, ?_⟩
  · rw [last, toNat_add_ofNat]
  · intro between call error refused
    rcases call.apply_cases between with ⟨other, applied⟩ | ⟨envelope, -, applied⟩
    · rw [applied]
    · rw [applied] at refused
      cases refused
  · intro j call envelope found
    obtain ⟨opened, revealed, carried⟩ := (each j call envelope found).reveal
    refine ⟨opened, revealed, ?_⟩
    rw [carried, toNat_add_ofNat]
  · intro i j a b first second before near found_i found_j
    have one := each i a first found_i
    have two := each j b second found_j
    refine ⟨?_, ?_⟩
    · intro x y opened_x opened_y same
      obtain ⟨x', revealed_x, carried_x⟩ := one.reveal
      obtain ⟨y', revealed_y, carried_y⟩ := two.reveal
      cases opened_x.symm.trans revealed_x
      cases opened_y.symm.trans revealed_y
      rw [carried_x, carried_y] at same
      exact apart before near same
    · intro keys same
      rw [← keys] at two
      exact apart before near (one.nonce_eq two same)

/-- Of eight calls on a session in front of the wrap every other one is refused: for its key, its payload, its
field and its address. -/
theorem run_nonces_across_wrap :
    let key : EnvelopeKey := ⟨#v[0, 1, 2, 3, 4, 5, 6, 7, 8, 9, 10, 11, 12, 13, 14, 15]⟩
    let calls : List Call :=
      [.encrypt [0, 1, 2, 3] "0a0b0c0d" 0 [1], .encrypt key.bytes "0a0b0c0d" 0 [1],
        .sealTo key #v[10, 11, 12, 13] 0 (List.replicate 256 2), .sealTo key #v[10, 11, 12, 13] 0 [2],
        .encodeAndSeal key.bytes "0a0b0c0d" 0 ⟨⟨0⟩, none⟩ [⟨50, 0, .text "c"⟩],
        .encodeAndSeal key.bytes "0a0b0c0d" 0 ⟨⟨0⟩, none⟩ [⟨32, 0, .text "c"⟩],
        .encrypt key.bytes "0a0b0c" 0 [4], .encrypt key.bytes "0a0b0c0d" 0 [4]]
    let outcomes := ((⟨254⟩ : Session).run calls).1
    let made := sealed outcomes
    (outcomes.map fun (_, result) => result.isOk) = [false, true, false, true, false, true, false, true] ∧
    ((⟨254⟩ : Session).run calls).2.nextNonce = 2 ∧
    (∀ (j : Nat) (call : Call) (envelope : List UInt8), made[j]? = some (call, envelope) →
      ∃ opened, Envelope.reveal call.key envelope = .ok opened ∧
        ([254, 255, 0, 1] : List UInt8)[j]? = some opened.nonce) ∧
    (∀ (i j : Nat) (a b : Call) (first second : List UInt8), i < j →
      made[i]? = some (a, first) → made[j]? = some (b, second) →
      Envelope.firstBlock first ≠ Envelope.firstBlock second) := by
  intro key calls outcomes made
  have length : made.length = 4 := by decide +kernel
  have keyed : ∀ call ∈ made.map Prod.fst, call.key = key.bytes := by decide +kernel
  obtain ⟨last, -, each, apart⟩ := run_nonces ⟨254⟩ calls
  refine ⟨by decide +kernel, ?_, ?_, ?_⟩
  · rw [← UInt8.toNat_inj, last, length]
    rfl
  · intro j call envelope found
    obtain ⟨opened, revealed, carried⟩ := each j call envelope found
    obtain ⟨inside, -⟩ := List.getElem?_eq_some_iff.mp found
    have nonces : ∀ j < 4, ([254, 255, 0, 1] : List UInt8)[j]? = some (UInt8.ofNat ((254 + j) % 256)) := by
      decide
    have nonce : UInt8.ofNat ((254 + j) % 256) = opened.nonce := by
      rw [← UInt8.toNat_inj, UInt8.toNat_ofNat', carried]
      exact Nat.mod_mod _ _
    exact ⟨opened, revealed, nonce ▸ nonces j (length ▸ inside)⟩
  · intro i j a b first second before found_i found_j
    obtain ⟨inside, -⟩ := List.getElem?_eq_some_iff.mp found_j
    have one := keyed a (List.mem_map_of_mem (List.mem_of_getElem? found_i))
    have two := keyed b (List.mem_map_of_mem (List.mem_of_getElem? found_j))
    exact (apart i j a b first second before (by omega) found_i found_j).2 (one.trans two.symm)

end Session

end Telemetry
