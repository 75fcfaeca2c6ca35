import EdhocLab.Proofs.Cose.Element
import EdhocLab.Proofs.Engine.Coherence

/-! # Messages at any time

Placeholders let most messages be built at any time.  What remains to be asked for is decided here:
an identifier of the peer where one is sent in front, and keys of the peer on the curve of the suite.
-/
namespace EdhocLab

open Cbor (Value fitsHead)
open Handshake

namespace Endpoint

/-- A credential of the endpoint for a usage on a curve, identified by a short key identifier. -/
def Holds (endpoint : Endpoint) (usage : KeyUsage) (curve : Curve) : Prop :=
  ∃ credential kid, endpoint.own.lookup (usage, curve) = some credential ∧
    credential.key.curve = curve ∧ credential.idCred = Cose.kidMap kid ∧
    1 ≤ kid.length ∧ kid.length ≤ 1000

/-- Credentials for everything that a suite may ask for, and nothing to send along. -/
structure Equipped (endpoint : Endpoint) : Prop where
  signature : ∀ suite ∈ endpoint.suites, endpoint.Holds .signature suite.signatureCurve
  ecdh : ∀ suite ∈ endpoint.suites, endpoint.Holds .ecdh suite.dhCurve
  silent : ∀ slot, endpoint.hooks.produce slot = .ok []

/-- The curve of the key that a party authenticates with. -/
def authCurve (role : Role) (method : UInt8) (suite : Suite) : Curve :=
  if signs role method then suite.signatureCurve else suite.dhCurve

theorem Equipped.authCredential {endpoint : Endpoint} (h : endpoint.Equipped) (role : Role)
    (method : UInt8) {suite : Suite} (hsuite : suite ∈ endpoint.suites) :
    ∃ credential kid, endpoint.authCredential role method suite = some credential ∧
      credential.key.curve = authCurve role method suite ∧ credential.idCred = Cose.kidMap kid ∧
      1 ≤ kid.length ∧ kid.length ≤ 1000 := by
  unfold Endpoint.authCredential authCurve
  cases signs role method with
  | true => exact h.signature suite hsuite
  | false => exact h.ecdh suite hsuite

end Endpoint

namespace Session

/-- Whether the keys at hand fit the proof of the party `prover`: an own key to sign with, or a key
of the peer to agree with. -/
def CanProve (prover : Role) (s : Session) : Prop :=
  if Endpoint.signs prover s.material.method then
    Endpoint.authCurve s.role s.material.method s.material.suite = s.material.suite.signatureCurve
  else if s.role = prover then
    s.material.peerEphemeralKey.curve = s.material.suite.dhCurve
  else s.material.peer.longTermKey.curve = s.material.suite.dhCurve

end Session

namespace Material

variable {m : Material}

theorem agree_isOk {own : KeyPair} {peer : PublicKey} (hown : own.curve = m.suite.dhCurve) :
    (m.agree own peer).isOk ↔ peer.curve = m.suite.dhCurve := by
  unfold agree
  by_cases hpeer : peer.curve = m.suite.dhCurve
  · rw [if_pos ⟨hown, hpeer⟩, isOk_mapError]
    simp only [hpeer, iff_true]
    exact KeyPair.exchange_isOk (hpeer.trans hown.symm) (hown ▸ m.suite.dhCurve_ne_ed25519)
  · rw [if_neg fun h => hpeer h.2]
    simp [hpeer]

theorem secrets2_isOk {version : Version} {gY : Bytes} {cR : Option Value} {peer : PublicKey}
    (hown : m.ephemeralKey.curve = m.suite.dhCurve) (hcR : ∀ v, cR = some v → v.isProper) :
    (m.secrets2 version gY cR peer).isOk ↔ peer.curve = m.suite.dhCurve := by
  refine isOk_bind_of_isOk (KeySchedule.th2_isOk hcR gY m.hashMessage1) fun th2 _ => ?_
  simpa using agree_isOk hown

/-- The static secret of a proof exists if the keys fit. -/
theorem staticSecret_isOk (prover : Role) {role : Role} {credential : OwnCredential}
    (hown : m.ephemeralKey.curve = m.suite.dhCurve) (hcredential : m.credential = some credential)
    (hcurve : credential.key.curve = Endpoint.authCurve role m.method m.suite) :
    (m.staticSecret (role == prover) (Endpoint.signs prover m.method) m.peer.longTermKey
      m.peerEphemeralKey).isOk ↔ (Endpoint.signs prover m.method = false →
        if role = prover then m.peerEphemeralKey.curve = m.suite.dhCurve
        else m.peer.longTermKey.curve = m.suite.dhCurve) := by
  unfold staticSecret
  cases hsigns : Endpoint.signs prover m.method with
  | true => simp
  | false =>
    by_cases hrole : role = prover
    · subst hrole
      have hkey : credential.key.curve = m.suite.dhCurve := by
        rw [hcurve, Endpoint.authCurve, hsigns]
        rfl
      simpa [ownCredential, hcredential] using agree_isOk hkey
    · have hbeq : (role == prover) = false := by simpa using hrole
      simpa [hbeq, hrole] using agree_isOk hown

end Material

theorem Session.Coherent.own_fits {settings : Settings} {endpoint : Endpoint} {s : Session}
    (h : s.Coherent settings endpoint) (hid : settings.connectionId ≠ [])
    (hfits : settings.connectionId.length < 2 ^ 63) :
    s.material.connectionId ≠ [] ∧ s.material.connectionId.length < 2 ^ 63 := by
  rcases h.identifiers.own with heq | hlength
  · rw [heq]
    exact ⟨hid, hfits⟩
  · refine ⟨fun hnil => ?_, by omega⟩
    rw [hnil] at hlength
    simp at hlength

namespace Engine

variable {e : Engine} {field : Field} {id : Bytes}

theorem prepended_isOk :
    (e.prepended field id).isOk ↔ (e.settings.prependsOnSend → id ≠ []) := by
  unfold prepended
  cases e.settings.prependsOnSend with
  | false => simp
  | true => simpa using identifierValue_isOk

theorem allProper_prepended {items : List Value} (hid : fitsHead id.length)
    (h : e.prepended field id = .ok items) : Value.allProper items := by
  obtain ⟨-, v, hv, rfl⟩ | ⟨-, rfl⟩ := prepended_eq_ok h
  · simpa [Value.allProper] using Cbor.Identifier.isProper_toValue? hid hv
  · rfl

section Proof

variable {prk th : Bytes} {label : Label} {signs : Bool} {suite : Suite}
  {credential : OwnCredential} {ead : List Value}

/-- A proof only needs a key that may sign, if it is a signature. -/
theorem prove_isOk (hid : credential.idCred.isProper) (head : Value.allProper ead) :
    (prove prk label signs suite credential th ead).isOk ↔
      (signs → credential.key.curve = suite.signatureCurve) := by
  obtain ⟨mac, hmac⟩ := isOk_iff.mp (KeySchedule.mac_isOk hid head
    (KeySchedule.macLength_le signs suite) prk label.number th credential.cred)
  obtain ⟨external, hexternal⟩ := isOk_iff.mp (KeySchedule.externalData_isOk head th
    credential.cred)
  simp only [prove, proofInput, hmac, hexternal, ok_bind, pure_eq_ok]
  exact KeySchedule.signatureOrMac_isOk hid

theorem length_prove_le {proof : Bytes}
    (h : prove prk label signs suite credential th ead = .ok proof) : proof.length ≤ 64 := by
  obtain ⟨⟨mac, external⟩, hinput, h⟩ := bind_eq_ok.mp h
  obtain ⟨mac', hmac, hinput⟩ := bind_eq_ok.mp hinput
  obtain ⟨external', -, hinput⟩ := bind_eq_ok.mp hinput
  cases hinput
  exact KeySchedule.length_signatureOrMac_le (KeySchedule.length_mac_le hmac) h

theorem identityElement_eq_ok {kid : Bytes} (hid : credential.idCred = Cose.kidMap kid)
    (hpos : 1 ≤ kid.length) (hmax : kid.length ≤ 1000) :
    ∃ element, identityElement field credential = .ok element ∧ element.isProper ∧
      element.encode.length ≤ 1009 := by
  have hfits : fitsHead kid.length := by
    simp only [fitsHead, decide_eq_true_eq]
    omega
  cases helement : Cbor.Identifier.toValue? kid with
  | none =>
    rw [Cbor.Identifier.toValue?_eq_none_iff.mp helement] at hpos
    exact absurd hpos (by decide)
  | some element =>
    refine ⟨element, ?_, Cbor.Identifier.isProper_toValue? hfits helement, ?_⟩
    · rw [identityElement, hid, Cose.toElement?_kidMap, helement]
    · have hle := Cbor.Identifier.length_encode_toValue?_le hfits helement
      omega

/-- A plaintext with an identity and a proof is short. -/
theorem identified_proof (field : Field) {kid : Bytes} (hid : credential.idCred = Cose.kidMap kid)
    (hpos : 1 ≤ kid.length) (hmax : kid.length ≤ 1000) {proof : Bytes}
    (hproof : prove prk label signs suite credential th ead = .ok proof) :
    ∃ element, identityElement field credential = .ok element ∧
      Value.allProper [element, .bytes proof] ∧
      (Value.encodeItems [element, .bytes proof]).length ≤ 1100 := by
  obtain ⟨element, helement, hproper, hlength⟩ := identityElement_eq_ok hid hpos hmax
  have hproof := length_prove_le hproof
  have hfits : fitsHead proof.length := by
    simp only [fitsHead, decide_eq_true_eq]
    omega
  have hbytes := Cbor.Identifier.encode_bytes_length_le hfits
  refine ⟨element, helement, ?_, ?_⟩
  · simp only [Value.allProper, hproper, Bool.true_and, Bool.and_true]
    exact hfits
  · simp only [Value.encodeItems, List.length_append, List.length_nil]
    omega

end Proof

section Finish

variable {kid : Bytes} (hpos : 1 ≤ kid.length) (hmax : kid.length ≤ 1000)

theorem encodeItems_bytes_isOk {items : List Value} {b : Bytes} (hitems : Value.allProper items)
    (hb : b.length < 2 ^ 64) : (KeySchedule.encodeItems (items ++ [.bytes b])).isOk := by
  rw [KeySchedule.encodeItems_isOk, Value.allProper_append, hitems]
  simpa [Value.allProper, Value.isProper, fitsHead] using hb

include hpos hmax in
theorem finish2_isOk {d : Draft2} (hid : d.credential.idCred = Cose.kidMap kid)
    (hprepended : Value.allProper d.prepended) (hgY : d.gY.length = Key.byteLength)
    (hcR : d.cR.isProper) (hlength : d.cR.encode.length ≤ 2 ^ 63 + 9) :
    (e.finish2 d []).isOk ↔ (responderSigns e.current.material.method →
      d.credential.key.curve = e.current.material.suite.signatureCurve) := by
  have hidProper : d.credential.idCred.isProper := hid ▸ Cose.isProper_kidMap hmax
  unfold finish2
  dsimp only
  rw [isOk_bind (q := True) (prove_isOk hidProper rfl) fun proof hproof => ?_, and_true]
  obtain ⟨element, helement, hproper, hshort⟩ := identified_proof .idCredR hid hpos hmax hproof
  obtain ⟨plaintext2, hplaintext⟩ : ∃ plaintext2, KeySchedule.encodeItems
      ((if e.settings.version.outerResponderId then [] else [d.cR]) ++ [element, .bytes proof] ++ [])
      = .ok plaintext2 := by
    refine isOk_iff.mp (KeySchedule.encodeItems_isOk.mpr ?_)
    rw [List.append_nil, Value.allProper_append, hproper, Bool.and_true]
    split
    · rfl
    · simpa [Value.allProper] using hcR
  have hbound : plaintext2.length ≤ 2 ^ 63 + 1109 := by
    rw [← (KeySchedule.encodeItems_eq_ok.mp hplaintext).2, List.append_nil,
      Value.encodeItems_append, List.length_append]
    split
    · simp only [Value.encodeItems, List.length_nil] at hshort ⊢
      omega
    · simp only [Value.encodeItems, List.append_nil] at hshort ⊢
      omega
  obtain ⟨keystream, hkeystream⟩ := isOk_iff.mp
    (KeySchedule.keystream2_isOk d.prk2e d.th2 plaintext2.length)
  have hmasked : (d.gY ++ Bytes.xor plaintext2 keystream).length < 2 ^ 64 := by
    simp only [Bytes.xor, List.length_append, List.length_zipWith, hgY, Key.byteLength]
    omega
  have hmessage : (KeySchedule.encodeItems (d.prepended ++
      [.bytes (d.gY ++ Bytes.xor plaintext2 keystream)] ++
      if e.settings.version.outerResponderId then [d.cR] else [])).isOk := by
    rw [KeySchedule.encodeItems_isOk, Value.allProper_append,
      KeySchedule.encodeItems_isOk.mp (encodeItems_bytes_isOk hprepended hmasked), Bool.true_and]
    split
    · simpa [Value.allProper] using hcR
    · rfl
  obtain ⟨message, hmessage⟩ := isOk_iff.mp hmessage
  simp only [helement, hplaintext, hkeystream, hmessage, ok_bind, pure_eq_ok, isOk_ok]

theorem phase3_isOk (th3 prk4e3m plaintext3 credI : Bytes) :
    (e.phase3 th3 prk4e3m plaintext3 credI).isOk := by
  unfold phase3
  obtain ⟨prkOut, hout⟩ := isOk_iff.mp (KeySchedule.prkOut_isOk prk4e3m
    (KeySchedule.nextTh th3 plaintext3 (e.coveredCred credI)))
  obtain ⟨prkExporter, hexporter⟩ := isOk_iff.mp (KeySchedule.prkExporter_isOk prkOut)
  simp only [hout, hexporter, ok_bind, pure_eq_ok, isOk_ok]

include hpos hmax in
theorem finish3_isOk {d : Draft3} (hid : d.credential.idCred = Cose.kidMap kid)
    (hprepended : Value.allProper d.prepended) :
    (e.finish3 d []).isOk ↔ (initiatorSigns e.current.material.method →
      d.credential.key.curve = e.current.material.suite.signatureCurve) := by
  have hidProper : d.credential.idCred.isProper := hid ▸ Cose.isProper_kidMap hmax
  unfold finish3
  dsimp only
  rw [isOk_bind (q := True) (prove_isOk hidProper rfl) fun proof hproof => ?_, and_true]
  obtain ⟨element, helement, hproper, hshort⟩ := identified_proof .idCredI hid hpos hmax hproof
  obtain ⟨plaintext3, hplaintext⟩ := isOk_iff.mp (KeySchedule.encodeItems_isOk.mpr hproper)
  rw [(KeySchedule.encodeItems_eq_ok.mp hplaintext).2] at hshort
  obtain ⟨key, iv, hkeys, hkey, hiv⟩ := KeySchedule.keyAndIv_eq_ok e.current.material.suite
    e.current.material.phase2.prk3e2m Label.k3.number Label.iv3.number d.th3
  obtain ⟨ciphertext3, hciphertext⟩ := isOk_iff.mp ((KeySchedule.encrypt_isOk hkey hiv d.th3).mpr
    (Nat.le_trans hshort (by decide)))
  have hsealed : ciphertext3.length < 2 ^ 64 := by
    have htag := e.current.material.suite.aead.tagLength_le
    rw [KeySchedule.length_of_encrypt hciphertext]
    omega
  obtain ⟨message, hmessage⟩ := isOk_iff.mp (encodeItems_bytes_isOk hprepended hsealed)
  obtain ⟨phase3, hphase3⟩ := isOk_iff.mp
    (e.phase3_isOk d.th3 d.prk4e3m plaintext3 d.credential.cred)
  simp only [helement, hplaintext, hkeys, hciphertext, hmessage, hphase3, ok_bind, pure_eq_ok,
    List.append_nil, isOk_ok]

theorem finish4_isOk {m : Material} {prepended : List Value} (h : Value.allProper prepended) :
    (finish4 m prepended []).isOk := by
  obtain ⟨key, iv, hkeys, hkey, hiv⟩ := KeySchedule.keyAndIv_eq_ok m.suite m.phase3.prk4e3m
    Label.k4.number Label.iv4.number m.phase3.th4
  have hempty : ([] : Bytes).length ≤ Aead.Algorithm.maxTextLength := by decide
  obtain ⟨ciphertext4, hciphertext⟩ := isOk_iff.mp
    ((KeySchedule.encrypt_isOk hkey hiv m.phase3.th4).mpr hempty)
  have hsealed : ciphertext4.length < 2 ^ 64 := by
    have htag := m.suite.aead.tagLength_le
    rw [KeySchedule.length_of_encrypt hciphertext]
    simp only [List.length_nil]
    omega
  obtain ⟨message, hmessage⟩ := isOk_iff.mp (encodeItems_bytes_isOk h hsealed)
  have hplaintext : KeySchedule.encodeItems [] = .ok [] := rfl
  simp only [finish4, keyAndIv4, hplaintext, hkeys, hciphertext, hmessage, ok_bind, isOk_ok]

end Finish

section Build

variable (hcoherent : e.current.Coherent e.settings e.endpoint) (hequipped : e.endpoint.Equipped)

include hequipped in
theorem produceEad_eq_ok (slot : Ead.Slot) : (e.produceEad slot).result = .ok [] := by
  rw [produceEad_result, hequipped.silent slot]
  rfl

/-- An identifier of the peer, if one is sent in front of a message. -/
def CanAddress (e : Engine) : Prop :=
  e.settings.prependsOnSend → e.current.material.peerConnectionId ≠ []

theorem draft2_isOk {credential : OwnCredential}
    (hcredential : e.current.material.credential = some credential)
    (hcurve : credential.key.curve = Endpoint.authCurve e.current.role e.current.material.method
      e.current.material.suite)
    (hephemeral : e.current.material.ephemeralKey.curve = e.current.material.suite.dhCurve)
    (hid : e.current.material.connectionId ≠ [])
    (hfits : fitsHead e.current.material.connectionId.length) :
    e.draft2.isOk ↔ e.CanAddress ∧
      e.current.material.peerEphemeralKey.curve = e.current.material.suite.dhCurve ∧
      (Endpoint.signs .responder e.current.material.method = false →
        if e.current.role = .responder then
          e.current.material.peerEphemeralKey.curve = e.current.material.suite.dhCurve
        else e.current.material.peer.longTermKey.curve = e.current.material.suite.dhCurve) := by
  refine isOk_bind prepended_isOk fun prepended _ => ?_
  refine isOk_bind_of_isOk (identifierValue_isOk.mpr hid) fun cR hcR => ?_
  have hproper := Cbor.Identifier.isProper_toValue? hfits (identifierValue_eq_ok.mp hcR)
  have houter : ∀ v, (if e.settings.version.outerResponderId then some cR else none) = some v →
      v.isProper := by
    intro v hv
    split at hv
    · cases hv
      exact hproper
    · cases hv
  refine isOk_bind (Material.secrets2_isOk hephemeral houter) fun secrets _ => ?_
  have hstatic := Material.staticSecret_isOk .responder hephemeral hcredential hcurve
  refine Iff.trans (isOk_bind (q := True) hstatic fun gRX _ => ?_) (and_iff_left trivial)
  simp [KeySchedule.prk3e2m, KeySchedule.mix_isOk, Material.ownCredential, hcredential]

theorem draft3_isOk {credential : OwnCredential}
    (hcredential : e.current.material.credential = some credential)
    (hcurve : credential.key.curve = Endpoint.authCurve e.current.role e.current.material.method
      e.current.material.suite)
    (hephemeral : e.current.material.ephemeralKey.curve = e.current.material.suite.dhCurve) :
    e.draft3.isOk ↔ e.CanAddress ∧ (Endpoint.signs .initiator e.current.material.method = false →
      if e.current.role = .initiator then
        e.current.material.peerEphemeralKey.curve = e.current.material.suite.dhCurve
      else e.current.material.peer.longTermKey.curve = e.current.material.suite.dhCurve) := by
  refine isOk_bind prepended_isOk fun prepended _ => ?_
  have hstatic := Material.staticSecret_isOk .initiator hephemeral hcredential hcurve
  refine Iff.trans (isOk_bind (q := True) hstatic fun gIY _ => ?_) (and_iff_left trivial)
  simp [KeySchedule.prk4e3m, KeySchedule.mix_isOk, Material.ownCredential, hcredential]

/-- Keys that fit a proof are those that its secret and its signature need. -/
theorem canProve_iff {prover : Role} {s : Session} : s.CanProve prover ↔
    (Endpoint.signs prover s.material.method = false →
      if s.role = prover then s.material.peerEphemeralKey.curve = s.material.suite.dhCurve
      else s.material.peer.longTermKey.curve = s.material.suite.dhCurve) ∧
    (Endpoint.signs prover s.material.method →
      Endpoint.authCurve s.role s.material.method s.material.suite =
        s.material.suite.signatureCurve) := by
  unfold Session.CanProve
  cases Endpoint.signs prover s.material.method <;> simp

include hcoherent hequipped in
theorem build2_isOk (hid : e.settings.connectionId ≠ [])
    (hfits : e.settings.connectionId.length < 2 ^ 63) :
    e.build2.result.isOk ↔ e.CanAddress ∧
      e.current.material.peerEphemeralKey.curve = e.current.material.suite.dhCurve ∧
      e.current.CanProve .responder := by
  obtain ⟨credential, kid, hauth, hcurve, hkid, hpos, hmax⟩ := hequipped.authCredential
    e.current.role e.current.material.method hcoherent.keys.suite_mem
  have hcredential := hcoherent.keys.credential_eq.trans hauth
  obtain ⟨hne, hlength⟩ := hcoherent.own_fits hid hfits
  have hfitsHead : fitsHead e.current.material.connectionId.length := by
    simp only [fitsHead, decide_eq_true_eq]
    omega
  have hdraft := draft2_isOk hcredential hcurve hcoherent.keys.ephemeral_curve hne hfitsHead
  rw [build2, Check.result_bind, Check.result_ofExcept, isOk_bind hdraft fun d hd => ?_, canProve_iff]
  · rw [and_assoc, and_assoc]
  obtain ⟨hprepended, hgY, hcR, -, -, hown⟩ := draft2_eq_ok.mp hd
  have hcR := identifierValue_eq_ok.mp hcR
  have hown : d.credential = credential := by
    rw [Material.ownCredential, hcredential] at hown
    exact (Except.ok.inj hown).symm
  rw [Check.result_bind, produceEad_eq_ok hequipped, ok_bind, Check.result_ofExcept]
  have hfinish := finish2_isOk (e := e) hpos hmax (hown ▸ hkid)
    (allProper_prepended hcoherent.identifiers.peer hprepended) (hgY ▸ PublicKey.length_toBytes _)
    (Cbor.Identifier.isProper_toValue? hfitsHead hcR) (Nat.le_trans
      (Cbor.Identifier.length_encode_toValue?_le hfitsHead hcR) (by omega))
  rw [hfinish, hown, hcurve]
  rfl

include hcoherent hequipped in
theorem build3_isOk : e.build3.result.isOk ↔ e.CanAddress ∧ e.current.CanProve .initiator := by
  obtain ⟨credential, kid, hauth, hcurve, hkid, hpos, hmax⟩ := hequipped.authCredential
    e.current.role e.current.material.method hcoherent.keys.suite_mem
  have hcredential := hcoherent.keys.credential_eq.trans hauth
  have hdraft := draft3_isOk hcredential hcurve hcoherent.keys.ephemeral_curve
  rw [build3, Check.result_bind, Check.result_ofExcept, isOk_bind hdraft fun d hd => ?_, canProve_iff, and_assoc]
  obtain ⟨hprepended, -, -, hown⟩ := draft3_eq_ok.mp hd
  have hown : d.credential = credential := by
    rw [Material.ownCredential, hcredential] at hown
    exact (Except.ok.inj hown).symm
  rw [Check.result_bind, produceEad_eq_ok hequipped, ok_bind, Check.result_ofExcept]
  have hfinish := finish3_isOk (e := e) hpos hmax (hown ▸ hkid)
    (allProper_prepended hcoherent.identifiers.peer hprepended)
  rw [hfinish, hown, hcurve]
  rfl

include hcoherent hequipped in
theorem build4_isOk : e.build4.result.isOk ↔ e.CanAddress := by
  rw [build4, Check.result_bind]
  refine Iff.trans (isOk_bind (q := True) prepended_isOk fun prepended hprepended => ?_)
    (and_iff_left trivial)
  rw [Check.result_bind, produceEad_eq_ok hequipped, ok_bind, Check.result_ofExcept]
  exact iff_true_intro (finish4_isOk (allProper_prepended hcoherent.identifiers.peer
    (by simpa using hprepended)))

end Build

section Written

variable (e)

theorem writeMessage2_isSome : e.writeMessage2.value.1.isSome = e.build2.result.isOk := by
  rw [writeMessage2_value]
  cases e.build2.result with
  | error _ => rfl
  | ok built => cases e.current.role <;> rfl

theorem writeMessage3_isSome : e.writeMessage3.value.1.isSome = e.build3.result.isOk := by
  rw [writeMessage3_value]
  cases e.build3.result with
  | error _ => rfl
  | ok built => cases e.current.role <;> rfl

theorem writeMessage4_isSome : e.writeMessage4.value.1.isSome = e.build4.result.isOk := by
  rw [writeMessage4_value, toOption_isSome]

end Written

/-- At any time a message can be built exactly if the peer can be addressed and the keys at hand fit.
What was received before decides no more than that. -/
theorem message_written_iff {settings : Settings} {endpoint : Endpoint}
    (hequipped : endpoint.Equipped) (hid : settings.connectionId ≠ [])
    (hfits : settings.connectionId.length < 2 ^ 63) (h : Reachable settings endpoint e) :
    (e.writeMessage2.value.1.isSome ↔ e.CanAddress ∧
      e.current.material.peerEphemeralKey.curve = e.current.material.suite.dhCurve ∧
      e.current.CanProve .responder) ∧
    (e.writeMessage3.value.1.isSome ↔ e.CanAddress ∧ e.current.CanProve .initiator) ∧
    (e.writeMessage4.value.1.isSome ↔ e.CanAddress) := by
  obtain ⟨rfl, rfl, hcoherent⟩ := h.coherent
  rw [writeMessage2_isSome, writeMessage3_isSome, writeMessage4_isSome]
  exact ⟨build2_isOk hcoherent.current hequipped hid hfits,
    build3_isOk hcoherent.current hequipped, build4_isOk hcoherent.current hequipped⟩

section Fresh

/-- An endpoint with a signature key and a static key on the curves of its only suite. -/
def selfSufficient : Endpoint where
  preferredSuite := .suite0
  otherSuites := []
  own := [((.signature, .ed25519), .ofKid (KeyPair.last .ed25519) [1]),
    ((.ecdh, .x25519), .ofKid (KeyPair.last .x25519) [2])]
  peers := []
  eadLabels := []
  profiles := [("coap://localhost:5683/.well-known/edhoc", {})]
  hooks := .silent
  oscoreUri := ""

theorem selfSufficient_equipped : selfSufficient.Equipped where
  signature suite hsuite := by
    cases List.mem_singleton.mp hsuite
    exact ⟨_, [1], rfl, rfl, rfl, by decide, by decide⟩
  ecdh suite hsuite := by
    cases List.mem_singleton.mp hsuite
    exact ⟨_, [2], rfl, rfl, rfl, by decide, by decide⟩
  silent _ := rfl

/-- The engine of that endpoint as an Initiator, before anything was sent or received. -/
def freshInitiator (method : UInt8) : Engine :=
  initial { method } selfSufficient {} { blocks := [], seed := 0, counter := 0 }

theorem freshInitiator_reachable (method : UInt8) :
    Reachable { method } selfSufficient (freshInitiator method) :=
  .created (by rw [create_result]; rfl)

theorem freshInitiator_current (method : UInt8) :
    (freshInitiator method).current.role = .initiator ∧
      (freshInitiator method).current.material = (Material.fresh selfSufficient .initiator method
        [0x36] [] { blocks := [], seed := 0, counter := 0 }).1 := by
  rw [freshInitiator, initial_current, startSession_role, startSession_material]
  exact ⟨rfl, rfl⟩

theorem fresh_initiator_writes :
    (freshInitiator 0).writeMessage2.value.1.isSome ∧
      (freshInitiator 0).writeMessage3.value.1.isSome ∧
      (freshInitiator 0).writeMessage4.value.1.isSome := by
  obtain ⟨hrole, hmaterial⟩ := freshInitiator_current 0
  have h := message_written_iff selfSufficient_equipped (by decide) (by decide)
    (freshInitiator_reachable 0)
  have haddress : (freshInitiator 0).CanAddress := by
    intro _
    rw [hmaterial]
    decide
  have hephemeral : (freshInitiator 0).current.material.peerEphemeralKey.curve =
      (freshInitiator 0).current.material.suite.dhCurve := by
    rw [hmaterial]
    exact Material.fresh_peerEphemeralKey_curve ..
  have hprove : ∀ prover, (freshInitiator 0).current.CanProve prover := by
    intro prover
    rw [Session.CanProve, hrole, hmaterial]
    cases prover <;> exact rfl
  exact ⟨h.1.mpr ⟨haddress, hephemeral, hprove _⟩, h.2.1.mpr ⟨haddress, hprove _⟩, h.2.2.mpr haddress⟩

/-- An Initiator that signs for a Responder with a static key cannot write the second message before
it knows a key of the Responder: the placeholder is its own signature key. -/
theorem fresh_initiator_without_message2 :
    selfSufficient.Equipped ∧ Reachable { method := 1 } selfSufficient (freshInitiator 1) ∧
      (freshInitiator 1).writeMessage2.value.1 = none := by
  refine ⟨selfSufficient_equipped, freshInitiator_reachable 1, ?_⟩
  obtain ⟨hsettings, hendpoint, hcoherent⟩ := (freshInitiator_reachable 1).coherent
  obtain ⟨hrole, hmaterial⟩ := freshInitiator_current 1
  rw [← Option.not_isSome_iff_eq_none, writeMessage2_isSome,
    build2_isOk hcoherent.current (hendpoint ▸ selfSufficient_equipped) (hsettings ▸ by decide)
      (hsettings ▸ by decide)]
  rintro ⟨-, -, hprove⟩
  rw [Session.CanProve, hrole, hmaterial] at hprove
  exact absurd hprove nofun

end Fresh

end Engine

end EdhocLab
