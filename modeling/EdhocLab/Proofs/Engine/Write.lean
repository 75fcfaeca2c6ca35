import EdhocLab.Proofs.Engine.Change
import EdhocLab.Proofs.Handshake.Items

/-! # What writers build

Each writer is taken apart once: the values that a message was made of, for those who read it.
-/
namespace EdhocLab.Engine

open Cbor (Value)
open Handshake

variable {e : Engine}

/-- What stands in front of the other items is an identifier in a request and nothing in a
response. -/
theorem prepended_eq_ok {field : Field} {id : Bytes} {front : List Value}
    (h : e.prepended field id = .ok front) :
    (e.settings.prependsOnSend = true ∧ ∃ v, Cbor.Identifier.toValue? id = some v ∧ front = [v]) ∨
      (e.settings.prependsOnSend = false ∧ front = []) := by
  unfold prepended at h
  split at h
  · rename_i hsends
    obtain ⟨v, hv, hfront⟩ := map_eq_ok.mp h
    exact .inl ⟨hsends, v, identifierValue_eq_ok.mp hv, hfront.symm⟩
  · rename_i hsends
    cases h
    exact .inr ⟨Bool.eq_false_iff.mpr hsends, rfl⟩

/-- What an offer consists of. -/
theorem offer1_eq_ok {offer : Offer1} (h : e.offer1.result = .ok offer) :
    Negotiation.negotiate e.endpoint.suites e.current.material.peerSuites =
        .ok (offer.suite, offer.suitesI) ∧
      identifierValue .cI e.current.material.connectionId = .ok offer.cI ∧
      e.endpoint.hooks.produce .message1 = .ok offer.ead := by
  obtain ⟨⟨suite, suitesI⟩, hsuite, h⟩ := Check.result_bind_eq_ok.mp h
  obtain ⟨cI, hcI, h⟩ := Check.result_bind_eq_ok.mp h
  obtain ⟨ead, head, h⟩ := Check.result_bind_eq_ok.mp h
  cases h
  exact ⟨hsuite, hcI, (e.produceEad_result_eq_ok ..).mp head⟩

/-- What a draft consists of. -/
theorem draft2_eq_ok {d : Draft2} : e.draft2 = .ok d ↔
    let m := e.current.material
    e.prepended .cI m.peerConnectionId = .ok d.prepended ∧
      d.gY = m.ephemeralKey.publicKey.toBytes ∧
      identifierValue .cR m.connectionId = .ok d.cR ∧
      m.secrets2 e.settings.version d.gY
        (if e.settings.version.outerResponderId then some d.cR else none) m.peerEphemeralKey =
          .ok (d.th2, d.prk2e) ∧
      (∃ gRX, m.staticSecret (e.current.role == .responder) (responderSigns m.method)
          m.peer.longTermKey m.peerEphemeralKey = .ok gRX ∧
        KeySchedule.prk3e2m d.prk2e d.th2 gRX = .ok d.prk3e2m) ∧
      m.ownCredential = .ok d.credential := by
  unfold draft2
  constructor
  · intro h
    obtain ⟨prepended, hprepended, h⟩ := bind_eq_ok.mp h
    obtain ⟨cR, hcR, h⟩ := bind_eq_ok.mp h
    obtain ⟨⟨th2, prk2e⟩, hsecrets, h⟩ := bind_eq_ok.mp h
    obtain ⟨gRX, hgRX, h⟩ := bind_eq_ok.mp h
    obtain ⟨prk3e2m, hprk, h⟩ := bind_eq_ok.mp h
    obtain ⟨credential, hcredential, h⟩ := bind_eq_ok.mp h
    cases h
    exact ⟨hprepended, rfl, hcR, hsecrets, ⟨gRX, hgRX, hprk⟩, hcredential⟩
  · obtain ⟨prepended, gY, cR, th2, prk2e, prk3e2m, credential⟩ := d
    rintro ⟨hprepended, rfl, hcR, hsecrets, ⟨gRX, hgRX, hprk⟩, hcredential⟩
    simp only [hprepended, hcR, hsecrets, hgRX, hprk, hcredential, ok_bind, pure_eq_ok]

theorem draft3_eq_ok {d : Draft3} : e.draft3 = .ok d ↔
    let m := e.current.material
    e.prepended .cR m.peerConnectionId = .ok d.prepended ∧
      d.th3 = KeySchedule.nextTh m.phase2.th2 m.phase2.plaintext2 (e.coveredCred m.peer.cred) ∧
      (∃ gIY, m.staticSecret (e.current.role == .initiator) (initiatorSigns m.method)
          m.peer.longTermKey m.peerEphemeralKey = .ok gIY ∧
        KeySchedule.prk4e3m m.phase2.prk3e2m d.th3 gIY = .ok d.prk4e3m) ∧
      m.ownCredential = .ok d.credential := by
  unfold draft3
  constructor
  · intro h
    obtain ⟨prepended, hprepended, h⟩ := bind_eq_ok.mp h
    obtain ⟨gIY, hgIY, h⟩ := bind_eq_ok.mp h
    obtain ⟨prk4e3m, hprk, h⟩ := bind_eq_ok.mp h
    obtain ⟨credential, hcredential, h⟩ := bind_eq_ok.mp h
    cases h
    exact ⟨hprepended, rfl, ⟨gIY, hgIY, hprk⟩, hcredential⟩
  · obtain ⟨prepended, th3, prk4e3m, credential⟩ := d
    rintro ⟨hprepended, rfl, ⟨gIY, hgIY, hprk⟩, hcredential⟩
    simp only [hprepended, hgIY, hprk, hcredential, ok_bind, pure_eq_ok]

/-- What the second message is made of. -/
theorem finish2_eq_ok {d : Draft2} {ead : List Value} {built : Bytes × Phase2}
    (h : e.finish2 d ead = .ok built) :
    ∃ proof idCredR keystream,
      prove d.prk3e2m .mac2 (responderSigns e.current.material.method) e.current.material.suite
        d.credential d.th2 ead = .ok proof ∧
      identityElement .idCredR d.credential = .ok idCredR ∧
      KeySchedule.encodeItems ((if e.settings.version.outerResponderId then [] else [d.cR]) ++
        [idCredR, .bytes proof] ++ ead) = .ok built.2.plaintext2 ∧
      KeySchedule.keystream2 d.prk2e d.th2 built.2.plaintext2.length = .ok keystream ∧
      KeySchedule.encodeItems (d.prepended ++
        [.bytes (d.gY ++ Bytes.xor built.2.plaintext2 keystream)] ++
        if e.settings.version.outerResponderId then [d.cR] else []) = .ok built.1 ∧
      built.2.th2 = d.th2 ∧ built.2.prk2e = d.prk2e ∧ built.2.prk3e2m = d.prk3e2m := by
  obtain ⟨proof, hproof, h⟩ := bind_eq_ok.mp h
  obtain ⟨idCredR, hid, h⟩ := bind_eq_ok.mp h
  obtain ⟨plaintext2, hplaintext, h⟩ := bind_eq_ok.mp h
  obtain ⟨keystream, hkeystream, h⟩ := bind_eq_ok.mp h
  obtain ⟨message, hmessage, h⟩ := bind_eq_ok.mp h
  cases h
  exact ⟨proof, idCredR, keystream, hproof, hid, hplaintext, hkeystream, hmessage, rfl, rfl, rfl⟩

/-- What the third message is made of. -/
theorem finish3_eq_ok {d : Draft3} {ead : List Value} {built : Bytes × Phase3}
    (h : e.finish3 d ead = .ok built) :
    ∃ proof idCredI plaintext3 key iv ciphertext3,
      prove d.prk4e3m .mac3 (initiatorSigns e.current.material.method) e.current.material.suite
        d.credential d.th3 ead = .ok proof ∧
      identityElement .idCredI d.credential = .ok idCredI ∧
      KeySchedule.encodeItems ([idCredI, .bytes proof] ++ ead) = .ok plaintext3 ∧
      KeySchedule.keyAndIv e.current.material.suite e.current.material.phase2.prk3e2m
        Label.k3.number Label.iv3.number d.th3 = .ok (key, iv) ∧
      KeySchedule.encrypt e.current.material.suite key iv d.th3 plaintext3 = .ok ciphertext3 ∧
      KeySchedule.encodeItems (d.prepended ++ [.bytes ciphertext3]) = .ok built.1 ∧
      e.phase3 d.th3 d.prk4e3m plaintext3 d.credential.cred = .ok built.2 := by
  obtain ⟨proof, hproof, h⟩ := bind_eq_ok.mp h
  obtain ⟨idCredI, hid, h⟩ := bind_eq_ok.mp h
  obtain ⟨plaintext3, hplaintext, h⟩ := bind_eq_ok.mp h
  obtain ⟨⟨key, iv⟩, hkeys, h⟩ := bind_eq_ok.mp h
  obtain ⟨ciphertext3, hciphertext, h⟩ := bind_eq_ok.mp h
  obtain ⟨message, hmessage, h⟩ := bind_eq_ok.mp h
  obtain ⟨phase3, hphase3, h⟩ := bind_eq_ok.mp h
  cases h
  exact ⟨proof, idCredI, plaintext3, key, iv, ciphertext3, hproof, hid, hplaintext, hkeys,
    hciphertext, hmessage, hphase3⟩

theorem build2_eq_ok {built : Bytes × Phase2} (h : e.build2.result = .ok built) :
    ∃ d ead, e.draft2 = .ok d ∧ e.endpoint.hooks.produce .message2 = .ok ead ∧
      e.finish2 d ead = .ok built := by
  obtain ⟨d, hd, h⟩ := Check.result_bind_eq_ok.mp h
  obtain ⟨ead, head, h⟩ := Check.result_bind_eq_ok.mp h
  exact ⟨d, ead, hd, (e.produceEad_result_eq_ok ..).mp head, h⟩

theorem build3_eq_ok {built : Bytes × Phase3} (h : e.build3.result = .ok built) :
    ∃ d ead, e.draft3 = .ok d ∧ e.endpoint.hooks.produce .message3 = .ok ead ∧
      e.finish3 d ead = .ok built := by
  obtain ⟨d, hd, h⟩ := Check.result_bind_eq_ok.mp h
  obtain ⟨ead, head, h⟩ := Check.result_bind_eq_ok.mp h
  exact ⟨d, ead, hd, (e.produceEad_result_eq_ok ..).mp head, h⟩

end EdhocLab.Engine
