import Telemetry.Envelope.Session
import Telemetry.Proofs.Aes.Chaining

/-!
# Opening undoes sealing

An envelope is laid out as address, ciphertext and tag, of lengths that its receiver can tell from the
whole (`length_sealWith`), so its tag is recomputed from the bytes that it was computed from and the
ciphertext decrypts to the content filled up with zeros (`decryptWith_sealWith`). The length byte then
cuts the payload off those zeros (`parse_layout`), as long as it can count the payload at all.
-/

namespace Telemetry

theorem EnvelopeKey.ofBytes_bytes (key : EnvelopeKey) : ofBytes key.bytes = .ok key := by
  rw [ofBytes, if_pos (by simp [bytes]), bytes, Aes.Block.ofBytes_toList]

namespace Envelope

/-! ## Decrypting -/

theorem decrypt_bytes (key : EnvelopeKey) (envelope : List UInt8) :
    decrypt key.bytes envelope = decryptWith key envelope := by
  rw [decrypt, EnvelopeKey.ofBytes_bytes]

theorem reveal_bytes (key : EnvelopeKey) (envelope : List UInt8) :
    reveal key.bytes envelope = revealWith key envelope := by
  rw [reveal, revealWith, decrypt_bytes]

theorem length_content (options nonce : UInt8) (payload : List UInt8) :
    (content options nonce payload).length = 3 + payload.length := by
  simp only [content, List.length_cons]
  omega

theorem length_sealWith (key : EnvelopeKey) (address : Address) (options nonce : UInt8)
    (payload : List UInt8) :
    (sealWith key address options nonce payload).length =
      4 + 16 * ((3 + payload.length + 15) / 16) + 4 := by
  simp only [sealWith, List.length_append, Vector.length_toList, Aes.Cipher.length_encryptBytes,
    length_content]

/-- The body and the tag of an envelope, as its receiver splits it. -/
theorem take_drop_tag (body : List UInt8) (tag : Tag) :
    (body ++ tag.toList).take ((body ++ tag.toList).length - 4) = body ∧
      (body ++ tag.toList).drop ((body ++ tag.toList).length - 4) = tag.toList := by
  have length : (body ++ tag.toList).length - 4 = body.length := by simp
  rw [length]
  exact ⟨List.take_left, List.drop_left⟩

/-- An address with any encrypted bytes behind it decrypts under the tag of both, up to the zeros that
fill up the last block. -/
theorem decryptWith_append_tag (key : EnvelopeKey) (address : Address) (plain : List UInt8)
    (nonempty : 0 < plain.length) :
    let body := address.toList ++ key.cipher.encryptBytes plain
    decryptWith key (body ++ (tag key body).toList) = .ok (address.toList ++
      (plain ++ List.replicate (Aes.Block.padding plain.length) 0) ++ (tag key body).toList) := by
  intro body
  have admissible : isLength (body ++ (tag key body).toList).length = true := by
    rw [isLength, Bool.and_eq_true, decide_eq_true_iff, decide_eq_true_iff, List.length_append,
      List.length_append, Vector.length_toList, Vector.length_toList, Aes.Cipher.length_encryptBytes]
    omega
  have start : body.take 4 = address.toList := List.take_left' Vector.length_toList
  have beyond : body.drop 4 = key.cipher.encryptBytes plain := List.drop_left' Vector.length_toList
  obtain ⟨front, received⟩ := take_drop_tag body (tag key body)
  rw [decryptWith, admissible]
  simp only [Bool.not_true, Bool.false_eq_true, if_false, front, received, ne_eq, not_true_eq_false,
    start, beyond, Aes.Cipher.decryptBytes_encryptBytes]

/-- Decrypting needs no bound on the payload: the length byte is not looked at. -/
theorem decryptWith_sealWith (key : EnvelopeKey) (address : Address) (options nonce : UInt8)
    (payload : List UInt8) :
    ∃ tag : Tag,
      tag.toList = (sealWith key address options nonce payload).drop
        ((sealWith key address options nonce payload).length - 4) ∧
      decryptWith key (sealWith key address options nonce payload) =
        .ok (address.toList ++ (content options nonce payload ++
          List.replicate (Aes.Block.padding (3 + payload.length)) 0) ++ tag.toList) := by
  refine ⟨_, (take_drop_tag _ _).2.symm, ?_⟩
  rw [← length_content options nonce payload]
  exact decryptWith_append_tag key address _ (by rw [length_content]; omega)

/-! ## Taking apart -/

theorem four_append (before : List UInt8) (bytes : Vector UInt8 4) (after : List UInt8) :
    OpenedEnvelope.four (before ++ bytes.toList ++ after) before.length = bytes := by
  refine Vector.ext fun i hi => ?_
  have within : before.length + i < (before ++ bytes.toList ++ after).length := by
    simp only [List.length_append, Vector.length_toList]
    omega
  rw [OpenedEnvelope.four, Vector.getElem_ofFn, List.getD_eq_getElem _ _ within,
    List.getElem_append_left (by simpa using hi), List.getElem_append_right (by simp),
    Vector.getElem_toList]
  simp

theorem parse_layout (address : Address) (options nonce : UInt8) (payload : List UInt8)
    (zeros : List UInt8) (tag : Tag) (h : payload.length ≤ 255) :
    OpenedEnvelope.parse (address.toList ++ (content options nonce payload ++ zeros) ++ tag.toList) =
      .ok ⟨address, options, nonce, payload, tag⟩ := by
  obtain ⟨bytes, layout⟩ : ∃ bytes, bytes =
    address.toList ++ (content options nonce payload ++ zeros) ++ tag.toList := ⟨_, rfl⟩
  have length : bytes.length = 11 + payload.length + zeros.length := by
    simp only [layout, List.length_append, Vector.length_toList, length_content]
    omega
  have front : OpenedEnvelope.four bytes 0 = address := by
    simpa only [layout, List.nil_append, List.append_assoc, List.length_nil] using
      four_append [] address (content options nonce payload ++ (zeros ++ tag.toList))
  have back : OpenedEnvelope.four bytes (bytes.length - 4) = tag := by
    have place : bytes.length - 4 =
        (address.toList ++ (content options nonce payload ++ zeros)).length := by
      rw [layout, List.length_append, Vector.length_toList, Nat.add_sub_cancel]
    rw [place, layout]
    simpa only [List.append_nil] using
      four_append (address.toList ++ (content options nonce payload ++ zeros)) tag []
  have behind (i : Nat) : bytes.getD (4 + i) 0 =
      (content options nonce payload ++ (zeros ++ tag.toList)).getD i 0 := by
    rw [layout, List.append_assoc, List.append_assoc, List.getD_append_right _ _ _ _ (by simp)]
    simp
  have declared : (bytes.getD 6 0).toNat = payload.length := by
    rw [behind 2]
    exact UInt8.toNat_ofNat_of_lt' (Nat.lt_succ_of_le h)
  have rest : (bytes.drop 7).take payload.length = payload := by
    have past : bytes.drop 7 = payload ++ (zeros ++ tag.toList) := by
      rw [layout, List.append_assoc, List.append_assoc, List.drop_append]
      simp [content]
    rw [past, List.take_left]
  rw [← layout, OpenedEnvelope.parse, if_neg (by omega)]
  simp only [declared, front, back, rest, behind 0, behind 1]
  rw [if_neg (by omega)]
  rfl

theorem revealWith_sealWith (key : EnvelopeKey) (address : Address) (options nonce : UInt8)
    {payload : List UInt8} (short : payload.length ≤ 255) :
    ∃ tag, revealWith key (sealWith key address options nonce payload) =
      .ok ⟨address, options, nonce, payload, tag⟩ := by
  obtain ⟨tag, -, decrypted⟩ := decryptWith_sealWith key address options nonce payload
  refine ⟨tag, ?_⟩
  rw [revealWith, decrypted]
  exact parse_layout address options nonce payload _ tag short

end Envelope

namespace Session

open Envelope

/-- **Opening undoes sealing.** A payload that the length byte can count is sealed, into an envelope
of whole blocks between address and tag; opening it gives back what went in, and decrypting it the
same bytes with fewer than sixteen zeros behind the payload. -/
theorem reveal_sealTo (session : Session) (key : EnvelopeKey) (address : Address) (options : UInt8)
    (payload : List UInt8) (h : payload.length ≤ 255) :
    ∃ (envelope decrypted : List UInt8) (tag : Tag) (zeros : Nat),
      (session.sealTo key address options payload).1 = .ok envelope ∧
      envelope.length = 4 + 16 * ((3 + payload.length + 15) / 16) + 4 ∧
      tag.toList = envelope.drop (envelope.length - 4) ∧
      reveal key.bytes envelope = .ok ⟨address, options, session.nextNonce, payload, tag⟩ ∧
      decrypt key.bytes envelope = .ok decrypted ∧
      decrypted = address.toList ++ [options, session.nextNonce, UInt8.ofNat payload.length] ++
        payload ++ List.replicate zeros 0 ++ tag.toList ∧
      zeros < 16 ∧
      decrypted.length = envelope.length := by
  obtain ⟨tag, last, decrypted⟩ :=
    decryptWith_sealWith key address options session.nextNonce payload
  have length := length_sealWith key address options session.nextNonce payload
  have opened := (decrypt_bytes key _).trans decrypted
  refine ⟨_, _, tag, Aes.Block.padding (3 + payload.length), ?_, length, last, ?_, opened, ?_,
    Aes.Block.padding_lt _, ?_⟩
  · rw [sealTo, if_neg (by omega)]
  · rw [reveal, opened]
    exact parse_layout address options session.nextNonce payload _ tag h
  · simp [content]
  · simp only [length, List.length_append, Vector.length_toList, length_content,
      List.length_replicate, Aes.Block.padding]
    omega

theorem reveal_sealTo_thirteen :
    (List.replicate 13 7 : List UInt8).length ≤ 255 ∧
    ∃ (envelope decrypted : List UInt8) (tag : Tag) (zeros : Nat),
      ((⟨255⟩ : Session).sealTo ⟨Aes.Block.zero⟩ #v[1, 2, 3, 4] 9 (List.replicate 13 7)).1 =
        .ok envelope ∧
      envelope.length = 24 ∧
      tag.toList = envelope.drop (envelope.length - 4) ∧
      reveal (List.replicate 16 0) envelope = .ok ⟨#v[1, 2, 3, 4], 9, 255, List.replicate 13 7, tag⟩ ∧
      decrypt (List.replicate 16 0) envelope = .ok decrypted ∧
      decrypted = [1, 2, 3, 4] ++ [9, 255, 13] ++ List.replicate 13 7 ++ List.replicate zeros 0 ++
        tag.toList ∧
      zeros < 16 ∧
      decrypted.length = envelope.length :=
  ⟨by decide, reveal_sealTo ⟨255⟩ ⟨Aes.Block.zero⟩ #v[1, 2, 3, 4] 9 (List.replicate 13 7) (by decide)⟩

end Session

end Telemetry
