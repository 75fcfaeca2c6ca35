import EdhocLab.Proofs.Engine.Coverage
import EdhocLab.Proofs.Engine.Delivery.Message1

/-! # Delivery of the second message

The Initiator removes the mask with the keys that both ephemeral keys agree on, and accepts the proof
of the Responder if it covers the authorization data that the Initiator keeps.
-/
namespace EdhocLab

open Cbor (Value)
open Handshake

/-- The identity that a credential proves, as it is received. -/
def OwnCredential.identity (credential : OwnCredential) : PeerIdentity :=
  { idCred := credential.idCred.received, cred := credential.cred
    longTermKey := credential.key.publicKey }

/-- What an Initiator and a Responder have in common after the second message. -/
structure Material.AfterMessage2 (i r : Material) : Prop extends AfterMessage1 i r where
  responderId_eq : i.peerConnectionId = r.connectionId
  responderKey : i.peerEphemeralKey.Same r.ephemeralKey.publicKey
  responder_eq : ∃ credential, r.credential = some credential ∧ i.peer = credential.identity
  phase2_eq : i.phase2 = r.phase2

theorem Handshake.skipPadding_cons {v : Value} (h : v ≠ .bool true) (padded : Bool)
    (items : List Value) : skipPadding padded (v :: items) = v :: items := by
  unfold skipPadding
  split
  · simp [h]
  · rfl

/-- Revisions that send the identifier of the Responder encrypted have no padding. -/
theorem Version.not_padded_of_not_outer {version : Version}
    (h : version.outerResponderId = false) : version.paddedPlaintext = false := by
  cases version <;> first | rfl | cases h

namespace Engine

variable {i r i' r' : Engine}

/-- What a written second message leaves behind. -/
theorem writeMessage2_eq_some {message : Bytes} (h : r.writeMessage2.value = (some message, r'))
    (hrole : r.current.role = .responder) :
    ∃ phase2, r.build2.result = .ok (message, phase2) ∧
      r'.current.material = { r.current.material with phase2 } := by
  rw [writeMessage2_value] at h
  cases hbuilt : r.build2.result with
  | error _ => simp [hbuilt] at h
  | ok built =>
    simp only [hbuilt, hrole, Prod.mk.injEq, Option.some.injEq] at h
    obtain ⟨rfl, rfl⟩ := h
    exact ⟨_, rfl, congrArg Session.material (SessionTable.currentSession_set_current ..)⟩

theorem parse2_ok {e : Engine} {sequence : Bytes} {items : List Value} {masked : Masked2 e}
    (hitems : decodeItems sequence = .ok items)
    (haddressed : e.addressed .cI items = .ok (masked.handle,
      .bytes (masked.gY ++ masked.ciphertext2) :: masked.outerCR.toList))
    (hgY : masked.gY.length = Key.byteLength) (hciphertext : masked.ciphertext2 ≠ [])
    (houter : masked.outerCR.isSome = e.settings.version.outerResponderId) :
    e.parse2 sequence = .ok masked := by
  obtain ⟨handle, gY, ciphertext2, outerCR⟩ := masked
  dsimp only at haddressed hgY hciphertext houter
  have hpos := List.length_pos_iff.mpr hciphertext
  have hlong : ¬(gY ++ ciphertext2).length ≤ Key.byteLength := by
    rw [List.length_append]
    omega
  have htake : (gY ++ ciphertext2).take Key.byteLength = gY := by rw [← hgY, List.take_left]
  have hdrop : (gY ++ ciphertext2).drop Key.byteLength = ciphertext2 := by
    rw [← hgY, List.drop_left]
  cases outerCR with
  | none =>
    simp only [parse2, hitems, haddressed, Option.toList, nextBytes_cons, ok_bind, hlong, if_false,
      ← houter, Option.isSome_none, Bool.false_eq_true, pure_eq_ok, expectEnd, htake, hdrop]
  | some v =>
    simp only [parse2, hitems, haddressed, Option.toList, nextBytes_cons, next_cons, ok_bind, hlong,
      if_false, ← houter, Option.isSome_some, if_true, pure_eq_ok, expectEnd, htake, hdrop]

theorem open2_ok {e : Engine} {m : Material} {gY ciphertext2 : Bytes} {outerCR : Option Value}
    {fields rest : List Value} {cR idCredR : Value} {o : Opened2}
    (hunmask : e.unmask2 m gY ciphertext2 outerCR =
      .ok (o.peerEphemeralKey, o.th2, o.prk2e, o.plaintext2))
    (hfields : decodeItems o.plaintext2 = .ok fields) (hempty : fields ≠ [])
    (hsplit : outerCR.toList ++ skipPadding e.settings.version.paddedPlaintext fields =
      cR :: idCredR :: .bytes o.proof :: rest)
    (hcR : identifierOf .cR cR = .ok o.cR) (hne : o.cR ≠ m.connectionId)
    (head : e.acceptEad rest = .ok o.ead) (hpeer : e.peerOf idCredR true = .ok o.peer) :
    e.open2 m gY ciphertext2 outerCR = .ok o := by
  obtain ⟨peerEphemeralKey, th2, prk2e, plaintext2, id, proof, ead, peer⟩ := o
  dsimp only at hunmask hfields hsplit hcR hne head hpeer
  have hisEmpty : fields.isEmpty = false := List.isEmpty_eq_false_iff.mpr hempty
  have hequal : (e.profile.useOscore && id == m.connectionId) = false := by simp [hne]
  cases outerCR with
  | none =>
    rw [Option.toList, List.nil_append] at hsplit
    simp only [open2, hunmask, hfields, hisEmpty, hsplit, next_cons, nextBytes_cons, hcR, hequal,
      head, hpeer, ok_bind, Bool.false_eq_true, if_false, pure_eq_ok]
  | some v =>
    simp only [Option.toList, List.singleton_append, List.cons.injEq] at hsplit
    obtain ⟨rfl, hsplit⟩ := hsplit
    simp only [open2, hunmask, hfields, hisEmpty, hsplit, next_cons, nextBytes_cons, hcR, hequal,
      head, hpeer, ok_bind, Bool.false_eq_true, if_false, pure_eq_ok]

section Check

variable {e : Engine} {sequence prk3e2m : Bytes} {masked : Masked2 e} {o : Opened2}
  {verdict : Except Error Unit} (hparse : e.parse2 sequence = .ok masked)
  (hopen : e.open2 (e.sessions.get masked.handle).material masked.gY masked.ciphertext2
    masked.outerCR = .ok o)
  (hpre : (e.preVerify .message2 o.ead).result = .ok ())
  (hverify : verify2 (e.sessions.get masked.handle) o = verdict.map fun _ => prk3e2m)
include hparse hopen hpre hverify

/-- With lenient hooks only the proof decides about an opened message. -/
theorem check2_result (hpost : (e.postVerify .message2 o.peer.idCred o.ead).result = .ok ()) :
    (e.check2 sequence).result = verdict.map fun _ =>
      (masked.handle, learn2 (e.sessions.get masked.handle).material o prk3e2m) := by
  simp only [check2, Check.result_bind, Check.result_ofExcept, hparse, hopen, hpre, hverify, ok_bind]
  cases verdict with
  | error _ => rfl
  | ok _ =>
    simp only [Except.map, ok_bind, hpost, Check.result_pure]

/-- The hooks of an opened message. -/
theorem check2_calls : (e.check2 sequence).calls = (e.preVerify .message2 o.ead).calls ++
    if verdict.isOk then (e.postVerify .message2 o.peer.idCred o.ead).calls else [] := by
  unfold check2
  rw [Check.calls_ofExcept_bind hparse, Check.calls_ofExcept_bind hopen, Check.calls_bind_ok hpre,
    hverify]
  cases verdict with
  | error _ => simp [Check.calls_bind, Except.map]
  | ok _ => simp [Check.calls_ofExcept_bind rfl, Except.map]

end Check

/-- An Initiator keeps what it learns for its current session once the proof is checked. -/
theorem readMessage2_of_check {sequence : Bytes} {material : Material} {verdict : Except Error Unit}
    (h : (i.check2 sequence).result = verdict.map fun _ => (i.sessions.currentHandle, material))
    (hrole : i.current.role = .initiator) : (i.readMessage2 sequence).value =
      if verdict.isOk then (true, i.setCurrent { i.current with material }) else (false, i) := by
  rw [readMessage2_value, h]
  cases verdict with
  | error _ => rfl
  | ok _ =>
    simp only [Except.map]
    split
    case h_1 hresponder => cases hrole.symm.trans hresponder
    case h_2 => rfl

section Written

/-- The identifier of the Responder where it is sent in the clear. -/
def Draft2.outerCR (d : Draft2) (version : Version) : Option Value :=
  if version.outerResponderId then some d.cR else none

def Draft2.authentication (d : Draft2) (m : Material) : Authentication :=
  { prk := d.prk3e2m, label := .mac2, signs := responderSigns m.method, suite := m.suite
    credential := d.credential, th := d.th2 }

/-- The message as its reader opens it. -/
def Draft2.opened (d : Draft2) (key : PublicKey) (plaintext2 cR proof : Bytes) (ead : List Value) :
    Opened2 :=
  { peerEphemeralKey := key, th2 := d.th2, prk2e := d.prk2e, plaintext2, cR, proof, ead
    peer := d.credential.toPeer.received }

variable {d : Draft2} (hattuned : i.Attuned r)
  (hafter : i.current.material.AfterMessage1 r.current.material) (hd : r.draft2 = .ok d)
include hattuned hafter hd

/-- The Initiator comes to the first secrets of the Responder, so that the mask comes off. -/
theorem unmask2_written (hr : r.Coherent) {plaintext2 keystream : Bytes}
    (hkeystream : KeySchedule.keystream2 d.prk2e d.th2 plaintext2.length = .ok keystream) :
    ∃ key, key.Same r.current.material.ephemeralKey.publicKey ∧
      i.unmask2 i.current.material d.gY (Bytes.xor plaintext2 keystream)
        (d.outerCR r.settings.version) = .ok (key, d.th2, d.prk2e, plaintext2) := by
  obtain ⟨-, hgY, -, hsecrets, -⟩ := draft2_eq_ok.mp hd
  have hcurve : r.current.material.ephemeralKey.publicKey.curve = i.current.material.suite.dhCurve := by
    rw [hafter.suite_eq]
    exact hr.current.keys.ephemeral_curve
  obtain ⟨key, hkey, hsame⟩ :=
    PublicKey.ofEphemeral_toBytes (hcurve ▸ i.current.material.suite.dhCurve_ne_ed25519)
  rw [hcurve, ← hgY] at hkey
  have hsecrets : i.current.material.secrets2 i.settings.version d.gY
      (d.outerCR r.settings.version) key = .ok (d.th2, d.prk2e) := by
    rw [hattuned.version_eq,
      Material.secrets2_comm hafter.suite_eq hafter.hash_eq hafter.initiatorKey hsame]
    exact hsecrets
  have hlength := KeySchedule.length_of_keystream2 hkeystream
  have hmasked : (Bytes.xor plaintext2 keystream).length = plaintext2.length := by
    rw [Bytes.length_xor, hlength, Nat.min_self]
  refine ⟨key, hsame, ?_⟩
  simp only [unmask2, hkey, mapError_ok, hsecrets, hmasked, hkeystream, ok_bind, pure_eq_ok,
    Bytes.xor_xor_cancel (Nat.le_of_eq hlength.symm)]

omit hattuned hafter in
theorem map_received_outerCR : (d.outerCR r.settings.version).toList.map Value.received =
    (d.outerCR r.settings.version).toList := by
  obtain ⟨-, -, hcR, -⟩ := draft2_eq_ok.mp hd
  unfold Draft2.outerCR
  split <;> simp [Cbor.Identifier.received_toValue? (identifierValue_eq_ok.mp hcR)]

/-- The message is for the current session, whose identifier the Responder learned. -/
theorem parse2_written (hindexed : i.Indexed) {plaintext2 keystream message : Bytes}
    (hplaintext2 : plaintext2 ≠ [])
    (hkeystream : KeySchedule.keystream2 d.prk2e d.th2 plaintext2.length = .ok keystream)
    (hmessage : KeySchedule.encodeItems (d.prepended ++
      [.bytes (d.gY ++ Bytes.xor plaintext2 keystream)] ++
      if r.settings.version.outerResponderId then [d.cR] else []) = .ok message) :
    i.parse2 message = .ok { handle := i.sessions.currentHandle, gY := d.gY
                             ciphertext2 := Bytes.xor plaintext2 keystream
                             outerCR := d.outerCR r.settings.version } := by
  obtain ⟨hprepended, hgY, hcR, -⟩ := draft2_eq_ok.mp hd
  have hidentifier := Cbor.Identifier.depth_toValue? (identifierValue_eq_ok.mp hcR)
  have hfront := depth_front hprepended
  have hlength := KeySchedule.length_of_keystream2 hkeystream
  have houter : d.prepended ++ [.bytes (d.gY ++ Bytes.xor plaintext2 keystream)] ++
      (if r.settings.version.outerResponderId then [d.cR] else []) = d.prepended ++
      .bytes (d.gY ++ Bytes.xor plaintext2 keystream) :: (d.outerCR r.settings.version).toList := by
    unfold Draft2.outerCR
    split <;> simp
  rw [houter] at hmessage
  have hitems := decodeItems_of_encodeItems hmessage (by
    unfold Draft2.outerCR
    split <;> simp [Value.depthOfItems_append, Value.depthOfItems, Value.depth, hfront, hidentifier])
  rw [List.map_append, List.map_cons, map_received_front hprepended, Value.received,
    map_received_outerCR hd] at hitems
  refine parse2_ok hitems (addressed_current hindexed hattuned.prepends_eq
    (hafter.initiatorId_eq ▸ hprepended)) ?_ ?_ ?_
  · rw [hgY, PublicKey.length_toBytes]
  · rw [← List.length_pos_iff, Bytes.length_xor, hlength, Nat.min_self, List.length_pos_iff]
    exact hplaintext2
  · rw [hattuned.version_eq]
    unfold Draft2.outerCR
    cases r.settings.version.outerResponderId <;> rfl

/-- The Initiator finds the identity, the proof and the supported items in the plaintext. -/
theorem open2_written {plaintext2 proof : Bytes} {items : List Ead.Item} {idCredR : Value}
    {key : PublicKey} {ciphertext2 : Bytes} (hknown : i.endpoint.Knows d.credential)
    (hproper : d.credential.idCred.isProper) (hsends : r.Sends i .message2 items) (hid : identityElement .idCredR d.credential = .ok idCredR)
    (hplaintext : KeySchedule.encodeItems ((if r.settings.version.outerResponderId then [] else [d.cR]) ++
      [idCredR, .bytes proof] ++ items.flatMap Ead.Item.toValues) = .ok plaintext2)
    (hunmask : i.unmask2 i.current.material d.gY ciphertext2 (d.outerCR r.settings.version) =
      .ok (key, d.th2, d.prk2e, plaintext2)) :
    plaintext2 ≠ [] ∧ i.open2 i.current.material d.gY ciphertext2 (d.outerCR r.settings.version) =
      .ok (d.opened key plaintext2 r.current.material.connectionId proof
        (Ead.handed i.endpoint.eadLabels items)) := by
  obtain ⟨-, -, hcR, -⟩ := draft2_eq_ok.mp hd
  have helement := toElement?_of_identityElement hid
  have hidentifier := identifierValue_eq_ok.mp hcR
  have hdepth := Nat.le_trans (Cose.depth_toElement?_le helement) hknown.depth_le
  have hfields := decodeItems_of_encodeItems hplaintext (by
    split <;> simpa [Value.depthOfItems_append, Value.depthOfItems, Value.depth,
      Cbor.Identifier.depth_toValue? hidentifier] using hdepth)
  have hreceived : ((if r.settings.version.outerResponderId then [] else [d.cR]) ++
      [idCredR, .bytes proof] ++ items.flatMap Ead.Item.toValues).map Value.received =
      (if r.settings.version.outerResponderId then [] else [d.cR]) ++
        idCredR.received :: .bytes proof :: items.flatMap Ead.Item.toValues := by
    split <;> simp [Value.received, Cbor.Identifier.received_toValue? hidentifier]
  rw [hreceived] at hfields
  constructor
  · rintro rfl
    have hnil : [] = _ := Except.ok.inj hfields
    simp at hnil
  refine open2_ok hunmask hfields (by simp) ?_
    (identifierOf_eq_ok.mpr (Cbor.Identifier.ofValue?_toValue? hidentifier)) hafter.ids_ne
    hsends.acceptEad_ok (peerOf_ok hknown hproper helement true)
  rw [hattuned.version_eq]
  unfold Draft2.outerCR
  cases houter : r.settings.version.outerResponderId with
  | true =>
    exact congrArg (d.cR :: ·) (skipPadding_cons (Cose.received_ne_bool helement true) _ _)
  | false =>
    rw [Version.not_padded_of_not_outer houter]
    simp [skipPadding, Draft2.opened]

omit hattuned in
/-- The Initiator checks the proof with the key that it was made with, over what it keeps. -/
theorem verify2_written (hknown : i.endpoint.Knows d.credential)
    (hproper : d.credential.idCred.isProper) (hinitiator : i.current.role = .initiator)
    (hresponder : r.current.role = .responder) (key : PublicKey) (plaintext2 cR proof : Bytes)
    (kept : List Value) : verify2 i.current (d.opened key plaintext2 cR proof kept) =
      ((d.authentication r.current.material).check kept proof).map fun _ => d.prk3e2m := by
  obtain ⟨-, -, -, -, ⟨gRX, hgRX, hprk⟩, hcredential⟩ := draft2_eq_ok.mp hd
  rw [hresponder] at hgRX
  have hstatic : i.current.material.staticSecret false (responderSigns r.current.material.method)
      d.credential.key.publicKey key = .ok gRX := by
    rw [← Material.staticSecret_comm hafter.suite_eq.symm
      (Material.ownCredential_eq_ok.mp hcredential) hafter.initiatorKey]
    exact hgRX
  have hsame : d.credential.toPeer.idCred.received.isSame d.credential.toPeer.idCred :=
    hknown.received_same hproper
  unfold verify2 Draft2.opened Authentication.check Draft2.authentication
  simp only [OwnCredential.key_toPeer_received, checkProof_received hproper hsame]
  rw [hinitiator, hafter.method_eq, hafter.suite_eq]
  simp only [show (Role.initiator == Role.responder) = false from rfl, hstatic, hprk, ok_bind,
    pure_eq_ok]
  rfl

end Written

/-- What the proof of a written second message is made over. -/
theorem writeMessage2_proves {message : Bytes} (hresponder : r.current.role = .responder)
    (hwrite : r.writeMessage2.value = (some message, r')) :
    ∃ d ead proof, r.draft2 = .ok d ∧ r.endpoint.hooks.produce .message2 = .ok ead ∧
      (d.authentication r.current.material).prove ead = .ok proof := by
  obtain ⟨phase2, hbuilt, -⟩ := writeMessage2_eq_some hwrite hresponder
  obtain ⟨d, ead, hd, head, hfinish⟩ := build2_eq_ok hbuilt
  obtain ⟨proof, _, _, hproof, -⟩ := finish2_eq_ok hfinish
  exact ⟨d, ead, proof, hd, head, hproof⟩

section Received

variable {message : Bytes} {items : List Ead.Item} (hattuned : i.Attuned r)
  (hsends : r.Sends i .message2 items) (hindexed : i.Indexed) (hr : r.Coherent)
  (hinitiator : i.current.role = .initiator) (hresponder : r.current.role = .responder)
  (hafter : i.current.material.AfterMessage1 r.current.material)
  (hknows : ∀ credential, r.current.material.credential = some credential →
    i.endpoint.Knows credential)
  (hwrite : r.writeMessage2.value = (some message, r'))
include hattuned hsends hindexed hr hinitiator hresponder hafter hknows hwrite

/-- A written second message is opened, and all that is left to its reader is to check the proof. -/
theorem check2_written : ∃ d proof material, r.draft2 = .ok d ∧
    (d.authentication r.current.material).prove (items.flatMap Ead.Item.toValues) = .ok proof ∧
    let kept := Ead.handed i.endpoint.eadLabels items
    let verdict := (d.authentication r.current.material).check kept proof
    (i.check2 message).result = verdict.map (fun _ => (i.sessions.currentHandle, material)) ∧
    (i.check2 message).calls = (i.preVerify .message2 kept).calls ++
      (if verdict.isOk then (i.postVerify .message2 d.credential.idCred.received kept).calls else []) ∧
    material.AfterMessage2 r'.current.material := by
  obtain ⟨phase2, hbuilt, hmaterial⟩ := writeMessage2_eq_some hwrite hresponder
  obtain ⟨d, ead, hd, head, hfinish⟩ := build2_eq_ok hbuilt
  obtain rfl := hsends.eq_of_produce head
  obtain ⟨-, -, -, -, -, hcredential⟩ := draft2_eq_ok.mp hd
  obtain ⟨proof, idCredR, keystream, hproof, hid, hplaintext, hkeystream, hmessage, hth2, hprk2e,
    hprk3e2m⟩ := finish2_eq_ok hfinish
  have hcredential := Material.ownCredential_eq_ok.mp hcredential
  obtain ⟨key, hsame, hunmask⟩ := unmask2_written hattuned hafter hd hr hkeystream
  have hproper := isProper_of_prove hproof
  obtain ⟨hplaintext2, hopen⟩ := open2_written hattuned hafter hd (hknows _ hcredential) hproper hsends
    hid hplaintext hunmask
  have hparse := parse2_written hattuned hafter hd hindexed hplaintext2 hkeystream hmessage
  let o := d.opened key phase2.plaintext2 r.current.material.connectionId proof
    (Ead.handed i.endpoint.eadLabels items)
  have hverify : verify2 i.current o =
      ((d.authentication r.current.material).check o.ead proof).map fun _ => d.prk3e2m :=
    verify2_written hafter hd (hknows _ hcredential) hproper hinitiator hresponder ..
  refine ⟨d, proof, learn2 i.current.material o d.prk3e2m, hd, hproof, ?_, ?_, ?_⟩
  · exact check2_result hparse hopen (hattuned.preVerify_ok ..) hverify (hattuned.postVerify_ok ..)
  · exact check2_calls hparse hopen (hattuned.preVerify_ok ..) hverify
  · rw [hmaterial]
    exact {
      method_eq := hafter.method_eq
      suite_eq := hafter.suite_eq
      hash_eq := hafter.hash_eq
      initiatorId_eq := hafter.initiatorId_eq
      ids_ne := hafter.ids_ne
      initiatorKey := hafter.initiatorKey
      responderId_eq := rfl
      responderKey := hsame
      responder_eq := ⟨d.credential, hcredential, rfl⟩
      phase2_eq := by
        obtain ⟨th2, plaintext2, prk2e, prk3e2m⟩ := phase2
        simp only at hth2 hprk2e hprk3e2m
        subst hth2 hprk2e hprk3e2m
        rfl }

/-- The Initiator that the session of the Responder was started for keeps the supported items of the
second message, and accepts it if its proof covers them. -/
theorem message2_received : ∃ d, r.draft2 = .ok d ∧
    Receives .message2 d.credential.idCred.received (Ead.handed i.endpoint.eadLabels items)
      ((d.authentication r.current.material).Covers (items.flatMap Ead.Item.toValues)
        (Ead.handed i.endpoint.eadLabels items)) (i.readMessage2 message) ∧
    ∀ i', (i.readMessage2 message).value = (true, i') →
      i'.current.material.AfterMessage2 r'.current.material := by
  obtain ⟨d, proof, material, hd, hproof, hresult, hcalls, hafter₂⟩ :=
    check2_written hattuned hsends hindexed hr hinitiator hresponder hafter hknows hwrite
  have hvalue := readMessage2_of_check hresult hinitiator
  refine ⟨d, hd, .of_check i hproof ?_ ?_, fun i' hread => ?_⟩
  · rw [hvalue]
    split <;> simp [*]
  · rw [readMessage2_calls, hcalls]
    rfl
  · rw [hvalue] at hread
    split at hread
    · obtain rfl := (Prod.mk.inj hread).2
      exact (congrArg Session.material (SessionTable.currentSession_set_current ..)).symm ▸ hafter₂
    · exact absurd (Prod.mk.inj hread).1 nofun

end Received

/-- An Initiator that supports what it is sent accepts the second message. -/
theorem message2_delivered {message : Bytes} (hheard : i.Hears r) (hindexed : i.Indexed)
    (hr : r.Coherent) (hinitiator : i.current.role = .initiator)
    (hresponder : r.current.role = .responder)
    (hafter : i.current.material.AfterMessage1 r.current.material)
    (hknows : ∀ credential, r.current.material.credential = some credential →
      i.endpoint.Knows credential)
    (hwrite : r.writeMessage2.value = (some message, r')) :
    ∃ i', (i.readMessage2 message).value = (true, i') ∧
      i'.current.material.AfterMessage2 r'.current.material := by
  obtain ⟨d, ead, proof, hd, head, hproof⟩ := writeMessage2_proves hresponder hwrite
  obtain ⟨items, hsends, hsent, hkept⟩ := hheard.sends head
  obtain ⟨d', hd', hreceives, hafter₂⟩ := message2_received hheard.toAttuned hsends hindexed hr
    hinitiator hresponder hafter hknows hwrite
  obtain rfl : d = d' := Except.ok.inj (hd.symm.trans hd')
  have haccepted : (i.readMessage2 message).value.1 = true :=
    hreceives.accepted_iff.mpr (by rw [← hsent, hkept]; exact Authentication.covers_self hproof)
  exact ⟨_, Prod.ext haccepted rfl, hafter₂ _ (Prod.ext haccepted rfl)⟩

end Engine

end EdhocLab
