import EdhocLab.Proofs.Engine.Delivery.Message2

/-! # Delivery of the third message

The Responder opens the message under the transcript that both parties share, accepts the proof of the
Initiator if it covers the authorization data that the Responder keeps, and comes to the same last keys.
-/
namespace EdhocLab

open Cbor (Value)
open Handshake

/-- What an Initiator and a Responder have in common after the third message. -/
structure Material.AfterMessage3 (i r : Material) : Prop extends AfterMessage2 i r where
  initiator_eq : ∃ credential, i.credential = some credential ∧ r.peer = credential.identity
  phase3_eq : i.phase3 = r.phase3

namespace Engine

variable {i r i' r' : Engine}

theorem settle_current (e : Engine) (material : Material) :
    (e.settle e.sessions.currentHandle material).value.current.material = material :=
  (congrArg Session.material (SessionTable.currentSession_set_current ..)).trans
    (Session.setup_material ..)

/-- What a written third message leaves behind. -/
theorem writeMessage3_eq_some {message : Bytes} (h : i.writeMessage3.value = (some message, i'))
    (hrole : i.current.role = .initiator) :
    ∃ phase3, i.build3.result = .ok (message, phase3) ∧
      i'.current.material = { i.current.material with phase3, message3 := message } := by
  rw [writeMessage3_value] at h
  cases hbuilt : i.build3.result with
  | error _ => simp [hbuilt] at h
  | ok built =>
    simp only [hbuilt, hrole, Prod.mk.injEq, Option.some.injEq] at h
    obtain ⟨rfl, rfl⟩ := h
    exact ⟨_, rfl, i.settle_current _⟩

theorem parse3_ok {e : Engine} {sequence ciphertext3 : Bytes} {items : List Value}
    {handle : e.sessions.Handle} (hitems : decodeItems sequence = .ok items)
    (haddressed : e.addressed .cR items = .ok (handle, [.bytes ciphertext3])) :
    e.parse3 sequence = .ok (handle, ciphertext3) := by
  simp only [parse3, hitems, haddressed, nextBytes_cons, expectEnd, ok_bind, pure_eq_ok]

theorem open3_ok {e : Engine} {m : Material} {ciphertext3 : Bytes} {fields rest : List Value}
    {idCredI : Value} {o : Opened3} (hdecrypt : e.decrypt3 m ciphertext3 = .ok (o.th3, o.plaintext3))
    (hfields : decodeItems o.plaintext3 = .ok fields) (hempty : fields ≠ [])
    (hsplit : skipPadding e.settings.version.paddedPlaintext fields =
      idCredI :: .bytes o.proof :: rest)
    (head : e.acceptEad rest = .ok o.ead) (hpeer : e.peerOf idCredI false = .ok o.peer) :
    e.open3 m ciphertext3 = .ok o := by
  obtain ⟨th3, plaintext3, proof, ead, peer⟩ := o
  dsimp only at hdecrypt hfields hsplit head hpeer
  have hisEmpty : fields.isEmpty = false := List.isEmpty_eq_false_iff.mpr hempty
  simp only [open3, hdecrypt, hfields, hisEmpty, hsplit, next_cons, nextBytes_cons, head, hpeer,
    ok_bind, Bool.false_eq_true, if_false, pure_eq_ok]

section Check

variable {e : Engine} {sequence ciphertext3 prk4e3m : Bytes} {handle : e.sessions.Handle}
  {o : Opened3} {verdict : Except Error Unit} (hparse : e.parse3 sequence = .ok (handle, ciphertext3))
  (hopen : e.open3 (e.sessions.get handle).material ciphertext3 = .ok o)
  (hpre : (e.preVerify .message3 o.ead).result = .ok ())
  (hverify : verify3 (e.sessions.get handle) o = verdict.map fun _ => prk4e3m)
include hparse hopen hpre hverify

/-- With lenient hooks only the proof decides about an opened message. -/
theorem check3_result {phase3 : Phase3}
    (hpost : (e.postVerify .message3 o.peer.idCred o.ead).result = .ok ())
    (hphase3 : e.phase3 o.th3 prk4e3m o.plaintext3 o.peer.cred = .ok phase3) :
    (e.check3 sequence).result = verdict.map fun _ =>
      (handle, learn3 (e.sessions.get handle).material o phase3) := by
  simp only [check3, Check.result_bind, Check.result_ofExcept, hparse, hopen, hpre, hverify, ok_bind]
  cases verdict with
  | error _ => rfl
  | ok _ => simp only [Except.map, ok_bind, hpost, hphase3, Check.result_pure]

/-- The hooks of an opened message. -/
theorem check3_calls : (e.check3 sequence).calls = (e.preVerify .message3 o.ead).calls ++
    if verdict.isOk then (e.postVerify .message3 o.peer.idCred o.ead).calls else [] := by
  unfold check3
  rw [Check.calls_ofExcept_bind hparse, Check.calls_ofExcept_bind hopen, Check.calls_bind_ok hpre,
    hverify]
  cases verdict with
  | error _ => simp [Check.calls_bind, Except.map]
  | ok _ =>
    simp only [Except.map]
    rw [Check.calls_ofExcept_bind rfl, Check.calls_bind]
    cases (e.postVerify .message3 o.peer.idCred o.ead).result <;> simp

end Check

/-- A Responder keeps what it learns for its current session once the proof is checked. -/
theorem readMessage3_of_check {sequence : Bytes} {material : Material} {verdict : Except Error Unit}
    (h : (r.check3 sequence).result = verdict.map fun _ => (r.sessions.currentHandle, material))
    (hrole : r.current.role = .responder) : (r.readMessage3 sequence).value =
      if verdict.isOk then (true, (r.settle r.sessions.currentHandle material).value)
      else (false, r) := by
  rw [readMessage3_value, h]
  cases verdict with
  | error _ => rfl
  | ok _ =>
    simp only [Except.map]
    split
    case h_1 hinitiator => cases hrole.symm.trans hinitiator
    case h_2 => rfl

theorem phase3_congr {e e' : Engine} (h : e.settings.version = e'.settings.version)
    (th3 prk4e3m plaintext3 credI : Bytes) :
    e.phase3 th3 prk4e3m plaintext3 credI = e'.phase3 th3 prk4e3m plaintext3 credI := by
  simp only [phase3, coveredCred, h]

section Written

def Draft3.authentication (d : Draft3) (m : Material) : Authentication :=
  { prk := d.prk4e3m, label := .mac3, signs := initiatorSigns m.method, suite := m.suite
    credential := d.credential, th := d.th3 }

/-- The message as its reader opens it. -/
def Draft3.opened (d : Draft3) (plaintext3 proof : Bytes) (ead : List Value) : Opened3 :=
  { th3 := d.th3, plaintext3, proof, ead, peer := d.credential.toPeer.received }

variable {d : Draft3} (hattuned : r.Attuned i)
  (hafter : i.current.material.AfterMessage2 r.current.material) (hd : i.draft3 = .ok d)
include hattuned hafter hd

/-- The message is for the current session, whose identifier the Initiator learned. -/
theorem parse3_written (hindexed : r.Indexed) {ciphertext3 message : Bytes}
    (hmessage : KeySchedule.encodeItems (d.prepended ++ [.bytes ciphertext3]) = .ok message) :
    r.parse3 message = .ok (r.sessions.currentHandle, ciphertext3) := by
  obtain ⟨hprepended, -⟩ := draft3_eq_ok.mp hd
  exact parse3_ok (decodeItems_ciphertext hprepended hmessage) (addressed_current hindexed hattuned.prepends_eq
    (hafter.responderId_eq ▸ hprepended))

/-- The Responder opens the message under the transcript of the Initiator. -/
theorem decrypt3_written {plaintext3 key iv ciphertext3 : Bytes}
    (hkeys : KeySchedule.keyAndIv i.current.material.suite i.current.material.phase2.prk3e2m
      Label.k3.number Label.iv3.number d.th3 = .ok (key, iv))
    (hencrypt : KeySchedule.encrypt i.current.material.suite key iv d.th3 plaintext3 =
      .ok ciphertext3) :
    r.decrypt3 r.current.material ciphertext3 = .ok (d.th3, plaintext3) := by
  obtain ⟨-, hth3, -⟩ := draft3_eq_ok.mp hd
  obtain ⟨credential, hcredential, hpeer⟩ := hafter.responder_eq
  have hth3 : KeySchedule.nextTh r.current.material.phase2.th2 r.current.material.phase2.plaintext2
      (r.coveredCred credential.cred) = d.th3 := by
    rw [hth3, hafter.phase2_eq, hpeer]
    simp only [coveredCred, hattuned.version_eq, OwnCredential.identity]
  rw [hafter.suite_eq, hafter.phase2_eq] at hkeys
  rw [hafter.suite_eq] at hencrypt
  simp only [decrypt3, Material.ownCredential_eq_ok.mpr hcredential, hth3, hkeys, ok_bind,
    KeySchedule.decrypt_of_encrypt hencrypt, pure_eq_ok]

omit hattuned hafter hd in
/-- The Responder finds the identity, the proof and the supported items in the plaintext. -/
theorem open3_written {plaintext3 proof : Bytes} {items : List Ead.Item} {idCredI : Value}
    {ciphertext3 : Bytes} (hknown : r.endpoint.Knows d.credential)
    (hproper : d.credential.idCred.isProper) (hsends : i.Sends r .message3 items) (hid : identityElement .idCredI d.credential = .ok idCredI)
    (hplaintext : KeySchedule.encodeItems
      ([idCredI, .bytes proof] ++ items.flatMap Ead.Item.toValues) = .ok plaintext3)
    (hdecrypt : r.decrypt3 r.current.material ciphertext3 = .ok (d.th3, plaintext3)) :
    r.open3 r.current.material ciphertext3 =
      .ok (d.opened plaintext3 proof (Ead.handed r.endpoint.eadLabels items)) := by
  have helement := toElement?_of_identityElement hid
  have hdepth := Nat.le_trans (Cose.depth_toElement?_le helement) hknown.depth_le
  have hfields := decodeItems_of_encodeItems hplaintext (by
    simpa [Value.depthOfItems, Value.depth] using hdepth)
  rw [List.map_append, Ead.map_received_flatMap] at hfields
  exact open3_ok hdecrypt hfields (by simp)
    (skipPadding_cons (Cose.received_ne_bool helement true) _ _) hsends.acceptEad_ok
    (peerOf_ok hknown hproper helement false)

omit hattuned in
/-- The Responder checks the proof with the key that it was made with, over what it keeps. -/
theorem verify3_written (hknown : r.endpoint.Knows d.credential)
    (hproper : d.credential.idCred.isProper) (hinitiator : i.current.role = .initiator)
    (hresponder : r.current.role = .responder) (plaintext3 proof : Bytes) (kept : List Value) :
    verify3 r.current (d.opened plaintext3 proof kept) =
      ((d.authentication i.current.material).check kept proof).map fun _ => d.prk4e3m := by
  obtain ⟨-, -, ⟨gIY, hgIY, hprk⟩, hcredential⟩ := draft3_eq_ok.mp hd
  rw [hinitiator, hafter.method_eq] at hgIY
  have hstatic : r.current.material.staticSecret false (initiatorSigns r.current.material.method)
      d.credential.key.publicKey r.current.material.peerEphemeralKey = .ok gIY := by
    rw [← Material.staticSecret_comm hafter.suite_eq
      (Material.ownCredential_eq_ok.mp hcredential) hafter.responderKey]
    exact hgIY
  rw [hafter.phase2_eq] at hprk
  have hsame : d.credential.toPeer.idCred.received.isSame d.credential.toPeer.idCred :=
    hknown.received_same hproper
  unfold verify3 Draft3.opened Authentication.check Draft3.authentication
  simp only [OwnCredential.key_toPeer_received, checkProof_received hproper hsame]
  rw [hresponder, hafter.method_eq, hafter.suite_eq]
  simp only [show (Role.responder == Role.initiator) = false from rfl, hstatic, hprk, ok_bind,
    pure_eq_ok]
  rfl

end Written

/-- What the proof of a written third message is made over. -/
theorem writeMessage3_proves {message : Bytes} (hinitiator : i.current.role = .initiator)
    (hwrite : i.writeMessage3.value = (some message, i')) :
    ∃ d ead proof, i.draft3 = .ok d ∧ i.endpoint.hooks.produce .message3 = .ok ead ∧
      (d.authentication i.current.material).prove ead = .ok proof := by
  obtain ⟨phase3, hbuilt, -⟩ := writeMessage3_eq_some hwrite hinitiator
  obtain ⟨d, ead, hd, head, hfinish⟩ := build3_eq_ok hbuilt
  obtain ⟨proof, _, _, _, _, _, hproof, -⟩ := finish3_eq_ok hfinish
  exact ⟨d, ead, proof, hd, head, hproof⟩

section Received

variable {message : Bytes} {items : List Ead.Item} (hattuned : r.Attuned i)
  (hsends : i.Sends r .message3 items) (hindexed : r.Indexed)
  (hinitiator : i.current.role = .initiator) (hresponder : r.current.role = .responder)
  (hafter : i.current.material.AfterMessage2 r.current.material)
  (hknows : ∀ credential, i.current.material.credential = some credential →
    r.endpoint.Knows credential)
  (hwrite : i.writeMessage3.value = (some message, i'))
include hattuned hsends hindexed hinitiator hresponder hafter hknows hwrite

/-- A written third message is opened, and all that is left to its reader is to check the proof. -/
theorem check3_written : ∃ d proof material, i.draft3 = .ok d ∧
    (d.authentication i.current.material).prove (items.flatMap Ead.Item.toValues) = .ok proof ∧
    let kept := Ead.handed r.endpoint.eadLabels items
    let verdict := (d.authentication i.current.material).check kept proof
    (r.check3 message).result = verdict.map (fun _ => (r.sessions.currentHandle, material)) ∧
    (r.check3 message).calls = (r.preVerify .message3 kept).calls ++
      (if verdict.isOk then (r.postVerify .message3 d.credential.idCred.received kept).calls else []) ∧
    i'.current.material.AfterMessage3 material := by
  obtain ⟨phase3, hbuilt, hmaterial⟩ := writeMessage3_eq_some hwrite hinitiator
  obtain ⟨d, ead, hd, head, hfinish⟩ := build3_eq_ok hbuilt
  obtain rfl := hsends.eq_of_produce head
  obtain ⟨-, -, -, hcredential⟩ := draft3_eq_ok.mp hd
  obtain ⟨proof, idCredI, plaintext3, key, iv, ciphertext3, hproof, hid, hplaintext, hkeys, hencrypt,
    hmessage, hphase3⟩ := finish3_eq_ok hfinish
  have hcredential := Material.ownCredential_eq_ok.mp hcredential
  have hparse := parse3_written hattuned hafter hd hindexed hmessage
  have hproper := isProper_of_prove hproof
  have hopen := open3_written (hknows _ hcredential) hproper hsends hid hplaintext
    (decrypt3_written hattuned hafter hd hkeys hencrypt)
  have hphase3 := (phase3_congr hattuned.version_eq ..).trans hphase3
  let o := d.opened plaintext3 proof (Ead.handed r.endpoint.eadLabels items)
  have hverify : verify3 r.current o =
      ((d.authentication i.current.material).check o.ead proof).map fun _ => d.prk4e3m :=
    verify3_written hafter hd (hknows _ hcredential) hproper hinitiator hresponder ..
  refine ⟨d, proof, learn3 r.current.material o phase3, hd, hproof, ?_, ?_, ?_⟩
  · exact check3_result hparse hopen (hattuned.preVerify_ok ..) hverify (hattuned.postVerify_ok ..)
      hphase3
  · exact check3_calls hparse hopen (hattuned.preVerify_ok ..) hverify
  · rw [hmaterial]
    exact {
      method_eq := hafter.method_eq
      suite_eq := hafter.suite_eq
      hash_eq := hafter.hash_eq
      initiatorId_eq := hafter.initiatorId_eq
      ids_ne := hafter.ids_ne
      initiatorKey := hafter.initiatorKey
      responderId_eq := hafter.responderId_eq
      responderKey := hafter.responderKey
      responder_eq := hafter.responder_eq
      phase2_eq := hafter.phase2_eq
      initiator_eq := ⟨d.credential, hcredential, rfl⟩
      phase3_eq := rfl }

/-- The Responder whose second message was accepted keeps the supported items of the third message,
and accepts it if its proof covers them. -/
theorem message3_received : ∃ d, i.draft3 = .ok d ∧
    Receives .message3 d.credential.idCred.received (Ead.handed r.endpoint.eadLabels items)
      ((d.authentication i.current.material).Covers (items.flatMap Ead.Item.toValues)
        (Ead.handed r.endpoint.eadLabels items)) (r.readMessage3 message) ∧
    ∀ r', (r.readMessage3 message).value = (true, r') →
      i'.current.material.AfterMessage3 r'.current.material := by
  obtain ⟨d, proof, material, hd, hproof, hresult, hcalls, hafter₃⟩ :=
    check3_written hattuned hsends hindexed hinitiator hresponder hafter hknows hwrite
  have hvalue := readMessage3_of_check hresult hresponder
  refine ⟨d, hd, .of_check r hproof ?_ ?_, fun r' hread => ?_⟩
  · rw [hvalue]
    split <;> simp [*]
  · rw [readMessage3_calls, hcalls]
    rfl
  · rw [hvalue] at hread
    split at hread
    · obtain rfl := (Prod.mk.inj hread).2
      exact (r.settle_current material).symm ▸ hafter₃
    · exact absurd (Prod.mk.inj hread).1 nofun

end Received

/-- A Responder that supports what it is sent accepts the third message. -/
theorem message3_delivered {message : Bytes} (hheard : r.Hears i) (hindexed : r.Indexed)
    (hinitiator : i.current.role = .initiator) (hresponder : r.current.role = .responder)
    (hafter : i.current.material.AfterMessage2 r.current.material)
    (hknows : ∀ credential, i.current.material.credential = some credential →
      r.endpoint.Knows credential)
    (hwrite : i.writeMessage3.value = (some message, i')) :
    ∃ r', (r.readMessage3 message).value = (true, r') ∧
      i'.current.material.AfterMessage3 r'.current.material := by
  obtain ⟨d, ead, proof, hd, head, hproof⟩ := writeMessage3_proves hinitiator hwrite
  obtain ⟨items, hsends, hsent, hkept⟩ := hheard.sends head
  obtain ⟨d', hd', hreceives, hafter₃⟩ := message3_received hheard.toAttuned hsends hindexed
    hinitiator hresponder hafter hknows hwrite
  obtain rfl : d = d' := Except.ok.inj (hd.symm.trans hd')
  have haccepted : (r.readMessage3 message).value.1 = true :=
    hreceives.accepted_iff.mpr (by rw [← hsent, hkept]; exact Authentication.covers_self hproof)
  exact ⟨_, Prod.ext haccepted rfl, hafter₃ _ (Prod.ext haccepted rfl)⟩

end Engine

end EdhocLab
