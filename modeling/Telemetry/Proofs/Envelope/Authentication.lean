import Telemetry.Proofs.Envelope.RoundTrip

/-!
# Authentication comes first

Three checks stand before decryption, each of which is made only after those before it have passed: of
the length of the key, of the length of the envelope, and of the tag. What fails first is the error
(`decrypt_of_key`, `decryptWith_of_length`, `decryptWith_of_tag`), and an envelope that passes all three
is decrypted (`decryptWith_of_accepted`). Since the tag is recomputed from the bytes in front of it, of
all tags behind them one is accepted and no other (`decrypt_authenticates`).
-/

namespace Telemetry

namespace Envelope

section Checks

variable {key envelope : List UInt8} {k : EnvelopeKey}

/-- The key that sixteen bytes are. -/
theorem ofBytes_of_length (size : key.length = 16) :
    EnvelopeKey.ofBytes key = .ok ⟨Aes.Block.ofBytes key⟩ := by
  rw [EnvelopeKey.ofBytes, if_pos size]

theorem isLength_iff (length : Nat) : isLength length = true ↔ 24 ≤ length ∧ length % 16 = 8 := by
  unfold isLength
  rw [Bool.and_eq_true, decide_eq_true_iff, decide_eq_true_iff]
  omega

theorem decrypt_of_key (size : key.length ≠ 16) :
    decrypt key envelope = .error (.invalidKey (.length key.length)) := by
  rw [decrypt, EnvelopeKey.ofBytes, if_neg size]

theorem decryptWith_of_length (size : ¬ (24 ≤ envelope.length ∧ envelope.length % 16 = 8)) :
    decryptWith k envelope = .error (.invalidLength envelope.length) := by
  rw [← isLength_iff, Bool.not_eq_true] at size
  rw [decryptWith, size]
  rfl

theorem decryptWith_of_tag (size : 24 ≤ envelope.length ∧ envelope.length % 16 = 8)
    (wrong : envelope.drop (envelope.length - 4) ≠
      (tag k (envelope.take (envelope.length - 4))).toList) :
    decryptWith k envelope = .error .authentication := by
  rw [← isLength_iff] at size
  rw [decryptWith, size]
  simp only [Bool.not_true, Bool.false_eq_true, if_false]
  rw [if_pos wrong.symm]

theorem decryptWith_of_accepted (size : 24 ≤ envelope.length ∧ envelope.length % 16 = 8)
    (right : envelope.drop (envelope.length - 4) =
      (tag k (envelope.take (envelope.length - 4))).toList) :
    decryptWith k envelope = .ok (envelope.take 4 ++
      k.cipher.decryptBytes ((envelope.take (envelope.length - 4)).drop 4) ++
      envelope.drop (envelope.length - 4)) := by
  have front : (envelope.take (envelope.length - 4)).take 4 = envelope.take 4 := by
    rw [List.take_take, Nat.min_eq_left (by omega)]
  rw [← isLength_iff] at size
  rw [decryptWith, size]
  simp only [Bool.not_true, Bool.false_eq_true, if_false]
  rw [if_neg (fun wrong => wrong right.symm), front]

end Checks

/-- The tag is the start of the code of the first sixteen bytes and of all bytes from the fourth on. -/
theorem toList_tag (k : EnvelopeKey) (body : List UInt8) :
    (tag k body).toList = (k.cipher.mac (body.take 16 ++ body.drop 4)).toList.take 4 := by
  rw [tag, macInput]
  exact Vector.toList_take ..

/-- When an envelope is decrypted, and to what. -/
theorem decrypt_eq_ok_iff (key envelope bytes : List UInt8) :
    decrypt key envelope = .ok bytes ↔
      key.length = 16 ∧ (24 ≤ envelope.length ∧ envelope.length % 16 = 8) ∧
      envelope.drop (envelope.length - 4) =
        (tag ⟨Aes.Block.ofBytes key⟩ (envelope.take (envelope.length - 4))).toList ∧
      bytes = envelope.take 4 ++ (EnvelopeKey.mk (Aes.Block.ofBytes key)).cipher.decryptBytes
        ((envelope.take (envelope.length - 4)).drop 4) ++ envelope.drop (envelope.length - 4) := by
  by_cases keyed : key.length = 16
  · rw [decrypt, ofBytes_of_length keyed]
    by_cases sized : 24 ≤ envelope.length ∧ envelope.length % 16 = 8
    · by_cases right : envelope.drop (envelope.length - 4) =
          (tag ⟨Aes.Block.ofBytes key⟩ (envelope.take (envelope.length - 4))).toList
      · simp only [decryptWith_of_accepted sized right]
        constructor
        · intro same
          exact ⟨keyed, sized, right, (Except.ok.inj same).symm⟩
        · rintro ⟨-, -, -, rfl⟩
          rfl
      · simp only [decryptWith_of_tag sized right]
        constructor
        · intro same
          cases same
        · intro passed
          exact absurd passed.2.2.1 right
    · simp only [decryptWith_of_length sized]
      constructor
      · intro same
        cases same
      · intro passed
        exact absurd passed.2.1 sized
  · rw [decrypt_of_key keyed]
    constructor
    · intro same
      cases same
    · intro passed
      exact absurd passed.1 keyed

/-- What is decrypted has the length of its envelope. -/
theorem length_decrypted (cipher : Aes.Cipher) {envelope : List UInt8}
    (sized : 24 ≤ envelope.length ∧ envelope.length % 16 = 8) :
    (envelope.take 4 ++ cipher.decryptBytes ((envelope.take (envelope.length - 4)).drop 4) ++
      envelope.drop (envelope.length - 4)).length = envelope.length := by
  simp only [List.length_append, List.length_take, List.length_drop, Aes.Cipher.length_decryptBytes]
  omega

/-- Behind a body of a length that bodies have exactly one tag is accepted. -/
theorem existsUnique_tag {key body : List UInt8} (keyed : key.length = 16) (long : 20 ≤ body.length)
    (whole : body.length % 16 = 4) :
    ∃! last : Tag, ∃ bytes, decrypt key (body ++ last.toList) = .ok bytes := by
  have size (last : Tag) : (body ++ last.toList).length = body.length + 4 := by
    rw [List.length_append, Vector.length_toList]
  have sized (last : Tag) :
      24 ≤ (body ++ last.toList).length ∧ (body ++ last.toList).length % 16 = 8 := by
    rw [size]
    omega
  refine ⟨tag ⟨Aes.Block.ofBytes key⟩ body, ?_, ?_⟩
  · obtain ⟨front, back⟩ := take_drop_tag body (tag ⟨Aes.Block.ofBytes key⟩ body)
    refine ⟨_, (decrypt_eq_ok_iff key _ _).mpr ⟨keyed, sized _, ?_, rfl⟩⟩
    rw [back, front]
  · rintro last ⟨bytes, accepted⟩
    obtain ⟨front, back⟩ := take_drop_tag body last
    obtain ⟨-, -, right, -⟩ := (decrypt_eq_ok_iff key _ _).mp accepted
    rw [back, front] at right
    exact Vector.toList_inj.mp right

/-- **Decryption authenticates first.** It succeeds if and only if the key has sixteen bytes, the envelope
has a length that envelopes have, and its last four bytes are the tag of those before them. It then gives
the address, the plaintext whose encryption stands in the middle, and the tag, in the length of the
envelope. Otherwise the error names the first of the three that fails. Behind a body exactly one tag is
accepted. -/
theorem decrypt_authenticates (key envelope : List UInt8) :
    let k : EnvelopeKey := ⟨Aes.Block.ofBytes key⟩
    let body := envelope.take (envelope.length - 4)
    let received := envelope.drop (envelope.length - 4)
    let plain := k.cipher.decryptBytes (body.drop 4)
    let sized := 24 ≤ envelope.length ∧ envelope.length % 16 = 8
    ((∃ bytes, decrypt key envelope = .ok bytes) ↔
      key.length = 16 ∧ sized ∧ received = (tag k body).toList) ∧
    (tag k body).toList = (k.cipher.mac (body.take 16 ++ body.drop 4)).toList.take 4 ∧
    (∀ bytes, decrypt key envelope = .ok bytes →
      bytes = envelope.take 4 ++ plain ++ received ∧ k.cipher.encryptBytes plain = body.drop 4 ∧
      bytes.length = envelope.length) ∧
    (key.length ≠ 16 → decrypt key envelope = .error (.invalidKey (.length key.length))) ∧
    (key.length = 16 → ¬ sized → decrypt key envelope = .error (.invalidLength envelope.length)) ∧
    (key.length = 16 → sized → received ≠ (tag k body).toList →
      decrypt key envelope = .error .authentication) ∧
    (∀ front : List UInt8, key.length = 16 → 20 ≤ front.length → front.length % 16 = 4 →
      ∃! last : Tag, ∃ bytes, decrypt key (front ++ last.toList) = .ok bytes) := by
  intro k body received plain sized
  have keyed (size : key.length = 16) : decrypt key envelope = decryptWith k envelope := by
    rw [decrypt, ofBytes_of_length size]
  refine ⟨?_, toList_tag k body, ?_, decrypt_of_key, ?_, ?_, fun _ => existsUnique_tag⟩
  · constructor
    · rintro ⟨bytes, accepted⟩
      obtain ⟨size, admissible, right, -⟩ := (decrypt_eq_ok_iff key envelope bytes).mp accepted
      exact ⟨size, admissible, right⟩
    · rintro ⟨size, admissible, right⟩
      exact ⟨_, (decrypt_eq_ok_iff key envelope _).mpr ⟨size, admissible, right, rfl⟩⟩
  · intro bytes accepted
    obtain ⟨-, admissible, -, rfl⟩ := (decrypt_eq_ok_iff key envelope bytes).mp accepted
    refine ⟨rfl, Aes.Cipher.encryptBytes_decryptBytes _ ?_, length_decrypted _ admissible⟩
    simp only [body, List.length_drop, List.length_take]
    omega
  · intro size refused
    exact (keyed size).trans (decryptWith_of_length refused)
  · intro size admissible wrong
    exact (keyed size).trans (decryptWith_of_tag admissible wrong)

/-! ## What the tag covers -/

/-- The length of the input tells that of the body, so the seam between its two parts is found again. -/
theorem eq_of_input_eq {first second : List UInt8}
    (same : first.take 16 ++ first.drop 4 = second.take 16 ++ second.drop 4) : first = second := by
  have total := congrArg List.length same
  simp only [List.length_append, List.length_take, List.length_drop] at total
  have size : first.length = second.length := by omega
  obtain ⟨front, back⟩ := List.append_inj same (by simp only [List.length_take, size])
  have start : first.take 4 = second.take 4 := by
    simpa [List.take_take] using congrArg (List.take 4) front
  rw [← List.take_append_drop 4 first, ← List.take_append_drop 4 second, start, back]

/-- An envelope is taken if and only if it is a body and its tag. -/
theorem decryptWith_accepts_iff (key : EnvelopeKey) (envelope : List UInt8) :
    (∃ bytes, decryptWith key envelope = .ok bytes) ↔
      ∃ body : List UInt8, 20 ≤ body.length ∧ body.length % 16 = 4 ∧
        envelope = body ++ (key.cipher.mac (body.take 16 ++ body.drop 4)).toList.take 4 := by
  constructor
  · rintro ⟨bytes, accepted⟩
    have sized : 24 ≤ envelope.length ∧ envelope.length % 16 = 8 := by
      by_contra wrong
      rw [decryptWith_of_length wrong] at accepted
      cases accepted
    have right : envelope.drop (envelope.length - 4) =
        (tag key (envelope.take (envelope.length - 4))).toList := by
      by_contra wrong
      rw [decryptWith_of_tag sized wrong] at accepted
      cases accepted
    refine ⟨envelope.take (envelope.length - 4), ?_, ?_, ?_⟩
    · rw [List.length_take]
      omega
    · rw [List.length_take]
      omega
    · rw [← toList_tag, ← right, List.take_append_drop]
  · rintro ⟨body, long, whole, rfl⟩
    rw [← toList_tag]
    obtain ⟨front, back⟩ := take_drop_tag body (tag key body)
    have size : (body ++ (tag key body).toList).length = body.length + 4 := by
      rw [List.length_append, Vector.length_toList]
    refine ⟨_, decryptWith_of_accepted (by omega) ?_⟩
    rw [back, front]

/-- Sealing makes a body and its tag. -/
theorem exists_body_of_sealWith (key : EnvelopeKey) (address : Address) (options nonce : UInt8)
    (payload : List UInt8) :
    ∃ body : List UInt8, 20 ≤ body.length ∧ body.length % 16 = 4 ∧
      sealWith key address options nonce payload =
        body ++ (key.cipher.mac (body.take 16 ++ body.drop 4)).toList.take 4 := by
  refine ⟨address.toList ++ key.cipher.encryptBytes (content options nonce payload), ?_, ?_, ?_⟩
  · rw [List.length_append, Vector.length_toList, Aes.Cipher.length_encryptBytes, length_content]
    omega
  · rw [List.length_append, Vector.length_toList, Aes.Cipher.length_encryptBytes, length_content]
    omega
  · rw [← toList_tag]
    rfl

/-- **The tag covers the whole body.** Bodies of any lengths that give one input are one body, so address,
ciphertext and the number of blocks are all settled by the input. Sealing computes the tag from that input
of its body, and an envelope is taken if and only if its last four bytes are computed so from those in
front of them; two that are taken under one input are the same. -/
theorem macInput_covers_body :
    (∀ first second : List UInt8,
      first.take 16 ++ first.drop 4 = second.take 16 ++ second.drop 4 → first = second) ∧
    (∀ (key : EnvelopeKey) (address : Address) (options nonce : UInt8) (payload : List UInt8),
      ∃ body : List UInt8, 20 ≤ body.length ∧ body.length % 16 = 4 ∧
        sealWith key address options nonce payload =
          body ++ (key.cipher.mac (body.take 16 ++ body.drop 4)).toList.take 4) ∧
    (∀ (key : EnvelopeKey) (envelope : List UInt8),
      (∃ bytes, decryptWith key envelope = .ok bytes) ↔
        ∃ body : List UInt8, 20 ≤ body.length ∧ body.length % 16 = 4 ∧
          envelope = body ++ (key.cipher.mac (body.take 16 ++ body.drop 4)).toList.take 4) ∧
    (∀ (key : EnvelopeKey) (first second bytes bytes' : List UInt8),
      decryptWith key first = .ok bytes → decryptWith key second = .ok bytes' →
      let body := first.take (first.length - 4)
      let body' := second.take (second.length - 4)
      body.take 16 ++ body.drop 4 = body'.take 16 ++ body'.drop 4 → first = second) := by
  refine ⟨fun _ _ => eq_of_input_eq, exists_body_of_sealWith, decryptWith_accepts_iff, ?_⟩
  intro key first second bytes bytes' taken taken' front front' same
  obtain ⟨body, -, -, made⟩ := (decryptWith_accepts_iff key first).mp ⟨bytes, taken⟩
  obtain ⟨body', -, -, made'⟩ := (decryptWith_accepts_iff key second).mp ⟨bytes', taken'⟩
  rw [← toList_tag] at made made'
  have whole : front = body := by
    rw [← (take_drop_tag body (tag key body)).1, ← made]
  have whole' : front' = body' := by
    rw [← (take_drop_tag body' (tag key body')).1, ← made']
  have one : body = body' := by rw [← whole, ← whole', eq_of_input_eq same]
  rw [made, made', one]

end Envelope

end Telemetry
