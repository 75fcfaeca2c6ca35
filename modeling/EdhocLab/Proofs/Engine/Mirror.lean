import EdhocLab.Engine.Message3
import EdhocLab.Proofs.Cbor.RoundTrip
import EdhocLab.Proofs.Check
import EdhocLab.Proofs.Handshake.Totality
import EdhocLab.Proofs.Key.Agreement

/-! # Mirrored computations

The two parties of a handshake compute the same from mirrored values: each combines its own secrets
with the public keys of the other, and checks a proof with the inputs that it was made from.
-/
namespace EdhocLab

open Cbor (Value)
open Handshake

namespace Material

section Agree

variable {m n : Material} (hsuite : m.suite = n.suite)
include hsuite

/-- Two owners agree on a secret from how they know the keys of each other. -/
theorem agree_comm {a b : KeyPair} {peerOfA peerOfB : PublicKey}
    (ha : peerOfB.Same a.publicKey) (hb : peerOfA.Same b.publicKey) :
    m.agree a peerOfA = n.agree b peerOfB := by
  unfold agree
  by_cases hcurves : a.curve = n.suite.dhCurve ∧ b.curve = n.suite.dhCurve
  · have hm : a.curve = m.suite.dhCurve ∧ peerOfA.curve = m.suite.dhCurve := by
      rw [hsuite, hb.curve_eq]
      exact hcurves
    have hn : b.curve = n.suite.dhCurve ∧ peerOfB.curve = n.suite.dhCurve := by
      rw [ha.curve_eq]
      exact hcurves.symm
    rw [if_pos hm, if_pos hn, a.exchange_congr hb, b.exchange_congr ha,
      KeyPair.exchange_comm (hcurves.1.trans hcurves.2.symm)]
  · have hm : ¬(a.curve = m.suite.dhCurve ∧ peerOfA.curve = m.suite.dhCurve) := by
      rw [hsuite, hb.curve_eq]
      exact hcurves
    have hn : ¬(b.curve = n.suite.dhCurve ∧ peerOfB.curve = n.suite.dhCurve) := by
      rw [ha.curve_eq]
      exact fun h => hcurves h.symm
    rw [if_neg hm, if_neg hn]

omit hsuite in
theorem ownCredential_eq_ok {credential : OwnCredential} :
    m.ownCredential = .ok credential ↔ m.credential = some credential := by
  unfold ownCredential
  cases m.credential <;> simp

/-- The secret with a static key is the same for its owner and for who knows the public key. -/
theorem staticSecret_comm {credential : OwnCredential} {peerLongTerm peerEphemeral peerEphemeral' :
    PublicKey} (hcredential : m.credential = some credential)
    (hephemeral : peerEphemeral.Same n.ephemeralKey.publicKey) (signs : Bool) :
    m.staticSecret true signs peerLongTerm peerEphemeral =
      n.staticSecret false signs credential.key.publicKey peerEphemeral' := by
  cases signs with
  | true => rfl
  | false =>
    simp only [staticSecret, ownCredential, hcredential, ok_bind, if_true, Bool.false_eq_true,
      if_false]
    rw [agree_comm hsuite (PublicKey.Same.refl _) hephemeral]

/-- The first secrets are the same for both parties. -/
theorem secrets2_comm {peerOfM peerOfN : PublicKey} (hhash : m.hashMessage1 = n.hashMessage1)
    (hm : peerOfN.Same m.ephemeralKey.publicKey) (hn : peerOfM.Same n.ephemeralKey.publicKey)
    (version : Version) (gY : Bytes) (cR : Option Value) :
    m.secrets2 version gY cR peerOfM = n.secrets2 version gY cR peerOfN := by
  rw [secrets2, secrets2, hhash, agree_comm hsuite hm hn]

end Agree

end Material

/-- What a credential is to those who know it. -/
def OwnCredential.toPeer (credential : OwnCredential) : Peer :=
  { idCred := credential.idCred, key := credential.key.publicKey, cred := credential.cred }

/-- A peer as it is found from its identity as that is received. -/
def Peer.received (peer : Peer) : Peer := { peer with idCred := peer.idCred.received }

@[simp] theorem OwnCredential.key_toPeer_received (credential : OwnCredential) :
    credential.toPeer.received.key = credential.key.publicKey := rfl

namespace Handshake.KeySchedule

/-- Header maps that are the same are authenticated alike. -/
theorem encodeItem_received {idCred : Value} (hproper : idCred.isProper)
    (hsame : idCred.received.isSame idCred) : encodeItem idCred.received = encodeItem idCred := by
  rw [encodeItem, encodeItem, Value.encode?, Value.encode?, if_pos hproper,
    if_pos (Cbor.isProper_received hproper), Value.encode_eq_of_isSame hsame]

theorem verifySignatureOrMac_of_signatureOrMac {signs : Bool} {suite : Suite} {mac external proof :
    Bytes} {idCred : Value} {key : KeyPair}
    (h : signatureOrMac signs suite mac idCred external key = .ok proof) :
    verifySignatureOrMac signs suite proof mac idCred external key.publicKey = .ok () := by
  unfold signatureOrMac at h
  unfold verifySignatureOrMac
  cases signs with
  | false =>
    cases h
    simp
  | true =>
    simp only [Bool.not_true, Bool.false_eq_true, if_false] at h ⊢
    by_cases hcurve : key.curve = suite.signatureCurve
    · rw [if_neg (by simpa using hcurve)] at h
      obtain ⟨encoded, hencoded, h⟩ := bind_eq_ok.mp h
      have hverify := KeyPair.verify_sign (mapError_eq_ok.mp h)
      rw [if_neg (by simpa [KeyPair.curve] using hcurve), hencoded, ok_bind, Cose.verify, hverify]
      rfl
    · rw [if_pos hcurve] at h
      cases h

end Handshake.KeySchedule

theorem Engine.toElement?_of_identityElement {field : Field} {credential : OwnCredential}
    {element : Value} (h : identityElement field credential = .ok element) :
    Cose.toElement? credential.idCred = some element := by
  unfold identityElement at h
  cases helement : Cose.toElement? credential.idCred with
  | none => simp [helement] at h
  | some found =>
    simp only [helement, Except.ok.injEq] at h
    rw [h]

/-- A proof is accepted by everybody who knows the credential of its maker. -/
theorem Engine.checkProof_of_prove {prk th : Bytes} {label : Label} {signs : Bool} {suite : Suite}
    {credential : OwnCredential} {ead : List Value} {proof : Bytes}
    (h : prove prk label signs suite credential th ead = .ok proof) :
    checkProof prk label signs suite credential.toPeer th ead proof = .ok () := by
  obtain ⟨⟨mac, external⟩, hinput, h⟩ := bind_eq_ok.mp h
  unfold checkProof OwnCredential.toPeer
  rw [hinput, ok_bind]
  exact KeySchedule.verifySignatureOrMac_of_signatureOrMac h

/-- Only a header map that can be sent is proved. -/
theorem Engine.isProper_of_prove {prk th : Bytes} {label : Label} {signs : Bool} {suite : Suite}
    {credential : OwnCredential} {ead : List Value} {proof : Bytes}
    (h : prove prk label signs suite credential th ead = .ok proof) :
    credential.idCred.isProper := by
  obtain ⟨_, hinput, -⟩ := bind_eq_ok.mp h
  obtain ⟨_, hmac, -⟩ := bind_eq_ok.mp hinput
  obtain ⟨_, hcontext, -⟩ := bind_eq_ok.mp hmac
  obtain ⟨_, hid, -⟩ := bind_eq_ok.mp hcontext
  exact (KeySchedule.encodeItem_eq_ok.mp hid).1

/-- A proof is checked alike with the identity of its maker as that was received. -/
theorem Engine.checkProof_received {peer : Peer} (hproper : peer.idCred.isProper)
    (hsame : peer.idCred.received.isSame peer.idCred) (prk th : Bytes) (label : Label) (signs : Bool)
    (suite : Suite) (ead : List Value) (proof : Bytes) :
    checkProof prk label signs suite peer.received th ead proof =
      checkProof prk label signs suite peer th ead proof := by
  have hencode := KeySchedule.encodeItem_received hproper hsame
  simp only [checkProof, proofInput, KeySchedule.mac, KeySchedule.macContext,
    KeySchedule.verifySignatureOrMac, Peer.received, hencode]

end EdhocLab
