import Telemetry.Proofs.Envelope.Authentication

/-!
# Envelopes sealed anew

Opening looks at no byte behind the payload that is declared, so other plaintexts open than those that
sealing makes. What an envelope decrypts to is always the content that sealing would make of its parts,
with a filling behind it (`OpenedEnvelope.parse_ok`), and ciphertext comes of a content alone if and only
if it decrypts to the content and the zeros that sealing fills it up with
(`Aes.Cipher.encryptBytes_eq_iff`). The tag is computed from the same bytes on both sides. So the filling
is all that tells whether sealing gives the envelope again (`Session.sealTo_reveal`).
-/

namespace Telemetry

/-! ## Ciphertext -/

/-- Whole blocks are the encryption of some bytes if and only if they decrypt to them, filled up with
zeros. -/
theorem Aes.Cipher.encryptBytes_eq_iff (cipher : Cipher) {plain bytes : List UInt8}
    (whole : bytes.length % 16 = 0) :
    cipher.encryptBytes plain = bytes ↔
      cipher.decryptBytes bytes = plain ++ List.replicate (Block.padding plain.length) 0 := by
  constructor
  · rintro rfl
    exact decryptBytes_encryptBytes cipher plain
  · intro decrypted
    have sized : (cipher.encryptBytes plain).length % 16 = 0 := by
      rw [length_encryptBytes]
      omega
    have same : cipher.decryptBytes (cipher.encryptBytes plain) = cipher.decryptBytes bytes := by
      rw [decryptBytes_encryptBytes, decrypted]
    rw [← encryptBytes_decryptBytes cipher sized, same, encryptBytes_decryptBytes cipher whole]

/-! ## Plaintext -/

namespace OpenedEnvelope

theorem toList_four {bytes : List UInt8} {start : Nat} (inside : start + 4 ≤ bytes.length) :
    (four bytes start).toList = (bytes.drop start).take 4 := by
  unfold four
  refine List.ext_getElem (by simp; omega) fun i hi hi' => ?_
  have within : i < 4 := by simpa using hi
  rw [Vector.getElem_toList, Vector.getElem_ofFn, List.getD_eq_getElem _ _ (by omega),
    List.getElem_take, List.getElem_drop]

/-- The three bytes in front of a payload and as many bytes behind them as the third of them counts. -/
theorem content_of_getD {bytes : List UInt8}
    (inside : 7 + (bytes.getD 6 0).toNat ≤ bytes.length) :
    Envelope.content (bytes.getD 4 0) (bytes.getD 5 0) ((bytes.drop 7).take (bytes.getD 6 0).toNat) =
      (bytes.drop 4).take (3 + (bytes.getD 6 0).toNat) := by
  have count : ((bytes.drop 7).take (bytes.getD 6 0).toNat).length = (bytes.getD 6 0).toNat := by
    rw [List.length_take, List.length_drop]
    omega
  have front : bytes.drop 4 = bytes.getD 4 0 :: bytes.getD 5 0 :: bytes.getD 6 0 :: bytes.drop 7 := by
    rw [List.drop_eq_getElem_cons (i := 4) (by omega), List.drop_eq_getElem_cons (i := 5) (by omega),
      List.drop_eq_getElem_cons (i := 6) (by omega), List.getD_eq_getElem _ _ (by omega),
      List.getD_eq_getElem _ _ (by omega), List.getD_eq_getElem _ _ (by omega)]
  rw [Envelope.content, count, UInt8.ofNat_toNat, front, Nat.add_comm 3]
  rfl

/-- What is taken apart is address, content, filling and tag, and the length byte counts the payload. -/
theorem parse_ok {bytes : List UInt8} {opened : OpenedEnvelope} (h : parse bytes = .ok opened) :
    opened.payload.length ≤ 255 ∧ ∃ filling, bytes = opened.address.toList ++
      (Envelope.content opened.options opened.nonce opened.payload ++ filling) ++ opened.tag.toList := by
  unfold parse at h
  split at h
  · cases h
  · rename_i long
    dsimp only at h
    split at h
    · cases h
    · rename_i enough
      cases h
      have below := (bytes.getD 6 0).toNat_lt
      -- Between address and tag stand the content and, behind it, the filling.
      obtain ⟨middle, between⟩ : ∃ middle, middle = (bytes.drop 4).take (bytes.length - 8) := ⟨_, rfl⟩
      have content : (bytes.drop 4).take (3 + (bytes.getD 6 0).toNat) =
          middle.take (3 + (bytes.getD 6 0).toNat) := by
        rw [between, List.take_take, Nat.min_eq_left (by omega)]
      have last : (bytes.drop (bytes.length - 4)).take 4 = (bytes.drop 4).drop (bytes.length - 8) := by
        rw [List.take_of_length_le (by rw [List.length_drop]; omega), List.drop_drop]
        congr 1
        omega
      refine ⟨?_, middle.drop (3 + (bytes.getD 6 0).toNat), ?_⟩
      · exact Nat.le_trans (List.length_take_le ..) (by omega)
      · rw [content_of_getD (by omega), toList_four (by omega), toList_four (by omega), content, last,
          List.take_append_drop, List.drop_zero, between, List.append_assoc, List.take_append_drop,
          List.take_append_drop]

end OpenedEnvelope

namespace Envelope

/-! ## Envelopes -/

/-- An envelope that opens is the address, the ciphertext and the tag of both. -/
theorem layout_of_reveal {key envelope : List UInt8} {opened : OpenedEnvelope}
    (h : reveal key envelope = .ok opened) :
    ∃ (k : EnvelopeKey) (ciphertext filling : List UInt8),
      EnvelopeKey.ofBytes key = .ok k ∧ ciphertext.length % 16 = 0 ∧ opened.payload.length ≤ 255 ∧
      envelope = opened.address.toList ++ ciphertext ++
        (tag k (opened.address.toList ++ ciphertext)).toList ∧
      k.cipher.decryptBytes ciphertext =
        content opened.options opened.nonce opened.payload ++ filling ∧
      decrypt key envelope = .ok (opened.address.toList ++
        (content opened.options opened.nonce opened.payload ++ filling) ++ opened.tag.toList) := by
  unfold reveal at h
  split at h
  · cases h
  · rename_i bytes decrypted
    obtain ⟨short, filling, layout⟩ := OpenedEnvelope.parse_ok h
    obtain ⟨keyed, sized, right, parts⟩ := (decrypt_eq_ok_iff key envelope bytes).mp decrypted
    have split : (envelope.take (envelope.length - 4)).take 4 = envelope.take 4 := by
      rw [List.take_take, Nat.min_eq_left (by omega)]
    rw [parts, List.append_assoc, List.append_assoc] at layout
    obtain ⟨address, behind⟩ := List.append_inj layout (by
      rw [List.length_take, Vector.length_toList]
      omega)
    obtain ⟨plain, last⟩ := List.append_inj' behind (by
      rw [List.length_drop, Vector.length_toList]
      omega)
    have body : opened.address.toList ++ (envelope.take (envelope.length - 4)).drop 4 =
        envelope.take (envelope.length - 4) := by
      rw [← address, ← split, List.take_append_drop]
    refine ⟨_, (envelope.take (envelope.length - 4)).drop 4, filling, ofBytes_of_length keyed, ?_, short,
      ?_, plain, ?_⟩
    · rw [List.length_drop, List.length_take]
      omega
    · rw [body, ← right, List.take_append_drop]
    · rw [decrypted, parts, address, plain, last]

/-- Whatever fills up the blocks behind the payload, the envelope opens. -/
theorem reveal_of_filling (key : EnvelopeKey) (address : Address) (options nonce : UInt8)
    (payload filling : List UInt8) (short : payload.length ≤ 255)
    (whole : (3 + payload.length + filling.length) % 16 = 0) :
    let body := address.toList ++ key.cipher.encryptBytes (content options nonce payload ++ filling)
    decrypt key.bytes (body ++ (tag key body).toList) = .ok (address.toList ++
        (content options nonce payload ++ filling) ++ (tag key body).toList) ∧
      reveal key.bytes (body ++ (tag key body).toList) =
        .ok ⟨address, options, nonce, payload, tag key body⟩ := by
  intro body
  have size : (content options nonce payload ++ filling).length =
      3 + payload.length + filling.length := by
    rw [List.length_append, length_content]
  have decrypted : decrypt key.bytes (body ++ (tag key body).toList) = .ok (address.toList ++
      (content options nonce payload ++ filling) ++ (tag key body).toList) := by
    have filled := decryptWith_append_tag key address (content options nonce payload ++ filling) (by omega)
    have none : Aes.Block.padding (3 + payload.length + filling.length) = 0 := by
      unfold Aes.Block.padding
      omega
    rw [size, none, List.replicate_zero, List.append_nil] at filled
    exact (decrypt_bytes key _).trans filled
  refine ⟨decrypted, ?_⟩
  rw [reveal, decrypted]
  exact parse_layout address options nonce payload filling (tag key body) short

/-- Sealing makes an envelope if and only if it makes its ciphertext. -/
theorem sealWith_eq_iff (key : EnvelopeKey) (address : Address) (options nonce : UInt8)
    (payload ciphertext : List UInt8) :
    sealWith key address options nonce payload =
        address.toList ++ ciphertext ++ (tag key (address.toList ++ ciphertext)).toList ↔
      key.cipher.encryptBytes (content options nonce payload) = ciphertext := by
  constructor
  · intro same
    have bodies := (List.append_inj' same (by simp)).1
    exact List.append_cancel_left bodies
  · rintro rfl
    rfl

end Envelope

namespace Session

open Envelope

/-- **Sealing undoes opening where the filling is that of sealing.** Of an envelope that opens the parts
are sealed again, by a session that is at the nonce, into the same envelope if and only if fewer than
sixteen bytes follow the payload in what it decrypts to, and all of them are zeros. -/
theorem sealTo_reveal {key envelope : List UInt8} {opened : OpenedEnvelope}
    (h : reveal key envelope = .ok opened) :
    ∃ (k : EnvelopeKey) (decrypted filling : List UInt8),
      EnvelopeKey.ofBytes key = .ok k ∧ decrypt key envelope = .ok decrypted ∧
      decrypted = opened.address.toList ++
        [opened.options, opened.nonce, UInt8.ofNat opened.payload.length] ++ opened.payload ++ filling ++
        opened.tag.toList ∧
      ((Session.sealTo ⟨opened.nonce⟩ k opened.address opened.options opened.payload).1 = .ok envelope ↔
        filling.length < 16 ∧ ∀ byte ∈ filling, byte = 0) := by
  obtain ⟨k, ciphertext, filling, keyed, whole, short, layout, plain, decrypted⟩ := layout_of_reveal h
  refine ⟨k, _, filling, keyed, decrypted, by simp [content], ?_⟩
  have made : (Session.sealTo ⟨opened.nonce⟩ k opened.address opened.options opened.payload).1 =
      .ok (sealWith k opened.address opened.options opened.nonce opened.payload) := by
    rw [sealTo, if_neg (by omega)]
  have blocks := congrArg List.length plain
  rw [Aes.Cipher.length_decryptBytes, List.length_append, length_content] at blocks
  rw [made, Except.ok.injEq, layout, sealWith_eq_iff, Aes.Cipher.encryptBytes_eq_iff _ whole, plain,
    List.append_cancel_left_eq, List.eq_replicate_iff, length_content]
  -- The length of whole blocks leaves one length below sixteen to the filling.
  have few : filling.length = Aes.Block.padding (3 + opened.payload.length) ↔ filling.length < 16 := by
    unfold Aes.Block.padding
    omega
  rw [few]

/-- An envelope that opens although a one stands among the zeros is not sealed again. -/
theorem sealTo_reveal_marked :
    let key : EnvelopeKey := ⟨Aes.Block.zero⟩
    let body := #v[1, 2, 3, 4].toList ++
      key.cipher.encryptBytes (content 9 7 [5] ++ 1 :: List.replicate 11 0)
    let envelope := body ++ (tag key body).toList
    reveal key.bytes envelope = .ok ⟨#v[1, 2, 3, 4], 9, 7, [5], tag key body⟩ ∧
      (Session.sealTo ⟨7⟩ key #v[1, 2, 3, 4] 9 [5]).1 ≠ .ok envelope := by
  intro key body envelope
  obtain ⟨decrypts, opens⟩ := reveal_of_filling key #v[1, 2, 3, 4] 9 7 [5] (1 :: List.replicate 11 0)
    (by decide) (by decide)
  refine ⟨opens, fun same => ?_⟩
  obtain ⟨k, decrypted, filling, keyed, decrypts', layout, again⟩ := sealTo_reveal opens
  rw [EnvelopeKey.ofBytes_bytes] at keyed
  cases keyed
  cases decrypts.symm.trans decrypts'
  have marked : filling = 1 :: List.replicate 11 0 :=
    (congrArg (List.drop 8) (List.append_cancel_right layout)).symm
  have zeros := (again.mp same).2
  rw [marked] at zeros
  exact absurd (zeros 1 List.mem_cons_self) (by decide)

end Session

end Telemetry
