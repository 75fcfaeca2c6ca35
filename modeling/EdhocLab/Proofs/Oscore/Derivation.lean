import EdhocLab.Oscore.Context
import EdhocLab.Proofs.Handshake.Totality

/-! # Derived contexts

Every master secret and salt have their context, since everything it derives is short.
-/
namespace EdhocLab.Oscore

open Handshake

variable (secret salt : Bytes)

theorem deriveKey_isOk (info : Bytes) {length : Nat} (h : length ≤ Digest.Hkdf.maxLength) :
    (deriveKey secret salt info length).isOk := by
  rw [deriveKey, Digest.Hkdf.expand_eq_take h]
  rfl

/-- The keys and identifiers of a context that derive from a master secret and salt. -/
structure Context.DerivesFrom (algorithm : Aead.Algorithm) (senderId recipientId : Bytes)
    (context : Context) : Prop where
  algorithm_eq : context.algorithm = algorithm
  senderId_eq : context.senderId = senderId
  recipientId_eq : context.recipientId = recipientId
  senderKey_eq : deriveKey secret salt
    (info senderId algorithm.coseId "Key" algorithm.keyLength) algorithm.keyLength =
      .ok context.senderKey
  recipientKey_eq : deriveKey secret salt
    (info recipientId algorithm.coseId "Key" algorithm.keyLength) algorithm.keyLength =
      .ok context.recipientKey
  commonIv_eq : deriveKey secret salt
    (info [] algorithm.coseId "IV" algorithm.nonceLength) algorithm.nonceLength =
      .ok context.commonIv

theorem Context.derive_eq_ok (algorithm : Aead.Algorithm) (senderId recipientId : Bytes) :
    ∃ context, derive algorithm secret salt senderId recipientId = .ok context ∧
      context.DerivesFrom secret salt algorithm senderId recipientId := by
  obtain ⟨senderKey, hs⟩ := isOk_iff.mp (deriveKey_isOk secret salt
    (info senderId algorithm.coseId "Key" algorithm.keyLength) (KeySchedule.keyLength_le algorithm))
  obtain ⟨recipientKey, hr⟩ := isOk_iff.mp (deriveKey_isOk secret salt
    (info recipientId algorithm.coseId "Key" algorithm.keyLength)
    (KeySchedule.keyLength_le algorithm))
  obtain ⟨commonIv, hc⟩ := isOk_iff.mp (deriveKey_isOk secret salt
    (info [] algorithm.coseId "IV" algorithm.nonceLength) (KeySchedule.nonceLength_le algorithm))
  let context : Context := {
    algorithm, commonIv, senderId, senderKey, senderSequence := 0, recipientId, recipientKey
    window := .ofSize defaultWindow, maxUnfragmentedSize := defaultMaxUnfragmentedSize }
  refine ⟨context, ?_, rfl, rfl, rfl, hs, hr, hc⟩
  simp only [derive, hs, hr, hc, ok_bind, pure_eq_ok, context]

variable {secret salt}

theorem length_deriveKey {info key : Bytes} {length : Nat}
    (h : deriveKey secret salt info length = .ok key) : key.length = length := by
  unfold deriveKey at h
  split at h
  · rename_i hexpand
    cases h
    exact Digest.Hkdf.length_expand hexpand
  · cases h

variable {algorithm : Aead.Algorithm} {senderId recipientId : Bytes}

/-- A new context has protected nothing yet. -/
theorem Context.of_derive {context : Context}
    (h : derive algorithm secret salt senderId recipientId = .ok context) :
    context.DerivesFrom secret salt algorithm senderId recipientId ∧
      context.senderSequence = 0 := by
  obtain ⟨senderKey, hs, h⟩ := bind_eq_ok.mp h
  obtain ⟨recipientKey, hr, h⟩ := bind_eq_ok.mp h
  obtain ⟨commonIv, hc, h⟩ := bind_eq_ok.mp h
  cases h
  exact ⟨⟨rfl, rfl, rfl, hs, hr, hc⟩, rfl⟩

end EdhocLab.Oscore
