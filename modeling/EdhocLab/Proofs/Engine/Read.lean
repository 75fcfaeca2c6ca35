import EdhocLab.Proofs.Engine.Change
import EdhocLab.Proofs.Handshake.Items

/-! # What readers check

Each reader is taken apart once: what an accepted message has been, and what the session after it
holds.
-/
namespace EdhocLab.Engine

open Cbor (Value)
open Handshake

variable {e : Engine} {sequence : Bytes} {items rest : List Value}

theorem leading1_eq_ok : e.leading1 items = .ok rest ↔
    items = if e.settings.prependsOnReceive then .bool true :: rest else rest := by
  unfold leading1
  cases e.settings.prependsOnReceive with
  | false => simp
  | true =>
    cases items with
    | nil => simp [next]
    | cons v vs => by_cases hv : v = .bool true <;> simp [hv]

theorem acceptEad_eq_ok {ead : List Value} : e.acceptEad items = .ok ead ↔
    Ead.accept e.eadConvention e.endpoint.eadLabels items = some ead := by
  unfold acceptEad
  cases Ead.accept e.eadConvention e.endpoint.eadLabels items <;> simp

theorem parse1_eq_ok {received : Received1} {ead : List Value}
    (h : e.parse1 sequence = .ok (received, ead)) :
    ∃ items method suitesI cI rest, decodeItems sequence = .ok items ∧
      e.leading1 items = .ok (method :: suitesI :: .bytes received.gX :: cI :: rest) ∧
      e.method1 method = .ok received.method ∧
      Negotiation.checkSuites suitesI e.endpoint.suiteIds = .ok received.selection ∧
      identifierOf .cI cI = .ok received.cI ∧ e.acceptEad rest = .ok ead ∧
      received.hashed = if e.settings.prependsOnReceive then sequence.drop 1 else sequence := by
  rw [parse1] at h
  obtain ⟨items, hitems, h⟩ := bind_eq_ok.mp h
  obtain ⟨-, h⟩ := ite_error_eq_ok.mp h
  obtain ⟨inner, hinner, h⟩ := bind_eq_ok.mp h
  obtain ⟨⟨v, rest₁⟩, hv, h⟩ := bind_eq_ok.mp h
  obtain ⟨method, hmethod, h⟩ := bind_eq_ok.mp h
  obtain ⟨⟨suitesI, rest₂⟩, hsuites, h⟩ := bind_eq_ok.mp h
  obtain ⟨selection, hselection, h⟩ := bind_eq_ok.mp h
  obtain ⟨⟨gX, rest₃⟩, hgX, h⟩ := bind_eq_ok.mp h
  obtain ⟨⟨w, rest₄⟩, hw, h⟩ := bind_eq_ok.mp h
  obtain ⟨cI, hcI, h⟩ := bind_eq_ok.mp h
  obtain ⟨accepted, haccepted, h⟩ := bind_eq_ok.mp h
  cases h
  rw [next_eq_ok.mp hv, next_eq_ok.mp hsuites, nextBytes_eq_ok.mp hgX, next_eq_ok.mp hw] at hinner
  exact ⟨items, v, suitesI, w, rest₄, hitems, hinner, hmethod, hselection, hcI, haccepted, rfl⟩

/-- The suite that a session with the peer runs on, the preferred one if theirs is unknown. -/
def answeredSuite (e : Engine) (selected : Int) : Suite :=
  (e.endpoint.suites.find? fun suite => suite.id == selected).getD e.endpoint.preferredSuite

theorem answeredSuite_mem (selected : Int) : e.answeredSuite selected ∈ e.endpoint.suites := by
  unfold answeredSuite
  cases hfind : e.endpoint.suites.find? fun suite => suite.id == selected with
  | some found => exact List.mem_of_find?_eq_some hfind
  | none => exact List.mem_cons_self

theorem answer1_result (received : Received1) : (e.answer1 received).result =
    match PublicKey.ofEphemeral ((Suite.ofId? received.selection.selected).getD
      (e.answeredSuite received.selection.selected)).dhCurve received.gX with
    | .error error => .error (.key error)
    | .ok peerEphemeralKey =>
      match e.freeId? received.cI with
      | none => .error .noConnectionId
      | some connectionId => .ok {
          received, suite := e.answeredSuite received.selection.selected, peerEphemeralKey
          connectionId } := by
  unfold answer1 answeredSuite
  dsimp only
  cases e.endpoint.suites.find? fun suite => suite.id == received.selection.selected with
  | some found =>
    simp only [pure_bind, Check.result_bind, Check.result_ofExcept, Option.getD_some]
    cases PublicKey.ofEphemeral ((Suite.ofId? received.selection.selected).getD found).dhCurve
      received.gX with
    | error error => rfl
    | ok key => cases e.freeId? received.cI <;> rfl
  | none =>
    simp only [pure_bind, Check.result_bind, Check.result_lift, Check.result_ofExcept, ok_bind,
      Option.getD_none]
    cases PublicKey.ofEphemeral ((Suite.ofId? received.selection.selected).getD
      e.endpoint.preferredSuite).dhCurve received.gX with
    | error error => rfl
    | ok key => cases e.freeId? received.cI <;> rfl

theorem answer1_eq_ok {received : Received1} {a : Accepted1} :
    (e.answer1 received).result = .ok a ↔
      a.received = received ∧ a.suite = e.answeredSuite received.selection.selected ∧
      PublicKey.ofEphemeral ((Suite.ofId? received.selection.selected).getD a.suite).dhCurve
        received.gX = .ok a.peerEphemeralKey ∧
      e.freeId? received.cI = some a.connectionId := by
  rw [answer1_result]
  constructor
  · intro h
    split at h
    · cases h
    · rename_i hkey
      split at h
      · cases h
      · rename_i hid
        cases h
        exact ⟨rfl, rfl, hkey, hid⟩
  · obtain ⟨received', suite, key, id⟩ := a
    dsimp only
    rintro ⟨rfl, rfl, hkey, hid⟩
    simp only [hkey, hid]

/-- A Responder that starts a session has read the message and found an answer to it. -/
theorem check1_eq_ok {a : Accepted1} (h : (e.check1 sequence).result = .ok (some a)) :
    e.current.role = .responder ∧ ∃ ead, e.parse1 sequence = .ok (a.received, ead) ∧
      (e.preVerify .message1 ead).result = .ok () ∧ (e.answer1 a.received).result = .ok a := by
  obtain ⟨⟨received, ead⟩, hparse, h⟩ := Check.result_bind_eq_ok.mp h
  obtain ⟨⟨⟩, hverify, h⟩ := Check.result_bind_eq_ok.mp h
  cases hrole : e.current.role with
  | initiator => simp [hrole] at h
  | responder =>
    simp only [hrole, Check.result_bind] at h
    obtain ⟨b, hb, hba⟩ := bind_eq_ok.mp h
    cases hba
    obtain rfl := (answer1_eq_ok.mp hb).1
    exact ⟨rfl, ead, hparse, hverify, hb⟩

/-- A Responder that accepts a first message starts the session that it answers with. -/
theorem readMessage1_of_responder (hrole : e.current.role = .responder)
    (h : (e.readMessage1 sequence).value.1 = true) : ∃ a,
      (e.check1 sequence).result = .ok (some a) ∧
      (e.readMessage1 sequence).value = (true, (e.accept1 a).value) := by
  rw [readMessage1_value] at h ⊢
  cases hcheck : (e.check1 sequence).result with
  | error _ => simp [hcheck] at h
  | ok accepted =>
    cases accepted with
    | some a => exact ⟨a, rfl, rfl⟩
    | none =>
      obtain ⟨⟨received, ead⟩, -, hcheck⟩ := Check.result_bind_eq_ok.mp hcheck
      obtain ⟨-, -, hcheck⟩ := Check.result_bind_eq_ok.mp hcheck
      simp only [hrole, Check.result_bind] at hcheck
      obtain ⟨accepted, -, hcheck⟩ := bind_eq_ok.mp hcheck
      cases hcheck

theorem addressed_eq_ok {field : Field} {found : e.sessions.Handle × List Value}
    (h : e.addressed field items = .ok found) :
    ∃ id, e.sessions.find? id = some found.1 ∧
      if e.settings.prependsOnReceive then
        ∃ v, items = v :: found.2 ∧ identifierOf field v = .ok id
      else id = e.current.material.connectionId ∧ items = found.2 := by
  unfold addressed at h
  cases hprepends : e.settings.prependsOnReceive with
  | false =>
    simp only [hprepends, Bool.false_eq_true, if_false, pure_eq_ok, ok_bind] at h
    cases hfind : e.sessions.find? e.current.material.connectionId with
    | none => simp [hfind] at h
    | some handle =>
      simp only [hfind, Except.ok.injEq] at h
      cases h
      exact ⟨_, hfind, rfl, rfl⟩
  | true =>
    simp only [hprepends, if_true] at h
    obtain ⟨⟨v, rest⟩, hv, h⟩ := bind_eq_ok.mp h
    obtain ⟨id, hid, h⟩ := bind_eq_ok.mp h
    rw [pure_eq_ok, ok_bind] at h
    cases hfind : e.sessions.find? id with
    | none => simp [hfind] at h
    | some handle =>
      simp only [hfind, pure_eq_ok, Except.ok.injEq] at h
      cases h
      exact ⟨id, hfind, v, next_eq_ok.mp hv, hid⟩

/-- A message is for the session that its identifier refers to. -/
theorem addressed_ok {field : Field} {handle : e.sessions.Handle} {id : Bytes}
    (hfind : e.sessions.find? id = some handle)
    (hsplit : if e.settings.prependsOnReceive then
        ∃ v, items = v :: rest ∧ identifierOf field v = .ok id
      else id = e.current.material.connectionId ∧ items = rest) :
    e.addressed field items = .ok (handle, rest) := by
  unfold addressed
  cases hprepends : e.settings.prependsOnReceive with
  | false =>
    simp only [hprepends, Bool.false_eq_true, if_false] at hsplit
    obtain ⟨rfl, rfl⟩ := hsplit
    simp [hfind]
  | true =>
    simp only [hprepends, if_true] at hsplit
    obtain ⟨v, rfl, hid⟩ := hsplit
    simp [hid, hfind]

theorem peerOf_eq_ok {element : Value} {refuseOwn : Bool} {peer : Peer}
    (h : e.peerOf element refuseOwn = .ok peer) :
    ∃ idCred, Cose.ofElement? element = some idCred ∧ e.endpoint.peer? idCred = some peer ∧
      (refuseOwn → e.endpoint.isOwnIdCred idCred = false) := by
  unfold peerOf at h
  cases hid : Cose.ofElement? element with
  | none => cases element <;> simp [hid] at h
  | some idCred =>
    have hlookup : (match e.endpoint.peer? idCred with
        | some peer =>
          if refuseOwn && e.endpoint.isOwnIdCred idCred then .error .ownIdentity else .ok peer
        | none => .error .unknownIdentity : Except Error Peer) = .ok peer := by
      cases element with
      | text | array | bool | null | float | tag => cases hid
      | bytes | integer | map =>
        simp only [hid] at h
        cases hpeer : e.endpoint.peer? idCred <;> simp_all
    cases hpeer : e.endpoint.peer? idCred with
    | none => simp [hpeer] at hlookup
    | some found =>
      simp only [hpeer] at hlookup
      split at hlookup
      · cases hlookup
      · rename_i hown
        cases hlookup
        exact ⟨idCred, rfl, hpeer, by simpa using hown⟩

/-- A masked message has been a key and at least one byte behind it, with the identifier of the
Responder where that is sent in the clear. -/
theorem parse2_eq_ok {masked : Masked2 e} (h : e.parse2 sequence = .ok masked) :
    ∃ items, decodeItems sequence = .ok items ∧
      e.addressed .cI items = .ok (masked.handle,
        .bytes (masked.gY ++ masked.ciphertext2) :: masked.outerCR.toList) ∧
      masked.gY.length = Key.byteLength ∧ masked.ciphertext2 ≠ [] ∧
      masked.outerCR.isSome = e.settings.version.outerResponderId := by
  obtain ⟨items, hitems, h⟩ := bind_eq_ok.mp h
  obtain ⟨⟨handle, behind⟩, hbehind, h⟩ := bind_eq_ok.mp h
  obtain ⟨⟨bytes, rest⟩, hbytes, h⟩ := bind_eq_ok.mp h
  dsimp only at hbehind hbytes h
  rw [nextBytes_eq_ok.mp hbytes] at hbehind
  obtain ⟨hshort, h⟩ := ite_error_eq_ok.mp h
  have hlength : (bytes.take Key.byteLength).length = Key.byteLength := by
    rw [List.length_take]
    omega
  have hne : bytes.drop Key.byteLength ≠ [] := by
    rw [Ne, List.drop_eq_nil_iff]
    exact hshort
  cases houter : e.settings.version.outerResponderId with
  | true =>
    simp only [houter, if_true] at h
    obtain ⟨⟨v, after⟩, hv, h⟩ := bind_eq_ok.mp h
    rw [pure_eq_ok, ok_bind] at h
    obtain ⟨⟨⟩, hend, h⟩ := bind_eq_ok.mp h
    cases h
    have hrest := next_eq_ok.mp hv
    rw [expectEnd_eq_ok.mp hend] at hrest
    refine ⟨items, hitems, ?_, hlength, hne, rfl⟩
    rw [hbehind, hrest, List.take_append_drop]
    rfl
  | false =>
    simp only [houter, Bool.false_eq_true, if_false, pure_eq_ok, ok_bind] at h
    obtain ⟨⟨⟩, hend, h⟩ := bind_eq_ok.mp h
    cases h
    refine ⟨items, hitems, ?_, hlength, hne, rfl⟩
    rw [hbehind, expectEnd_eq_ok.mp hend, List.take_append_drop]
    rfl

/-- The identifier of the Responder has come in front of the ciphertext or first in the plaintext. -/
theorem leadingIdentifier_eq_ok {outerCR : Option Value} {fields : List Value}
    {behind : Value × List Value → Except Error Opened2} {o : Opened2}
    (h : (match outerCR with
      | some cR => pure (cR, fields) >>= behind
      | none => next .cR fields >>= behind) = .ok o) :
    ∃ found, outerCR.toList ++ fields = found.1 :: found.2 ∧ behind found = .ok o := by
  cases outerCR with
  | some cR => exact ⟨(cR, fields), rfl, h⟩
  | none =>
    obtain ⟨found, hfound, h⟩ := bind_eq_ok.mp h
    exact ⟨found, next_eq_ok.mp hfound, h⟩

/-- An opened message has been a plaintext with an identifier, an identity and a proof. -/
theorem open2_eq_ok {m : Material} {gY ciphertext2 : Bytes} {outerCR : Option Value} {o : Opened2}
    (h : e.open2 m gY ciphertext2 outerCR = .ok o) :
    e.unmask2 m gY ciphertext2 outerCR = .ok (o.peerEphemeralKey, o.th2, o.prk2e, o.plaintext2) ∧
      ∃ fields cR idCredR rest, decodeItems o.plaintext2 = .ok fields ∧
        outerCR.toList ++ skipPadding e.settings.version.paddedPlaintext fields =
          cR :: idCredR :: .bytes o.proof :: rest ∧
        identifierOf .cR cR = .ok o.cR ∧
        (e.profile.useOscore && o.cR == m.connectionId) = false ∧
        e.acceptEad rest = .ok o.ead ∧ e.peerOf idCredR true = .ok o.peer := by
  obtain ⟨⟨key, th2, prk2e, plaintext2⟩, hunmask, h⟩ := bind_eq_ok.mp h
  obtain ⟨fields, hfields, h⟩ := bind_eq_ok.mp h
  obtain ⟨-, h⟩ := ite_error_eq_ok.mp h
  obtain ⟨⟨cRValue, behind⟩, hbehind, h⟩ := leadingIdentifier_eq_ok h
  obtain ⟨cR, hcR, h⟩ := bind_eq_ok.mp h
  obtain ⟨hequal, h⟩ := ite_error_eq_ok.mp h
  obtain ⟨⟨idCredR, rest₁⟩, hid, h⟩ := bind_eq_ok.mp h
  obtain ⟨⟨proof, rest₂⟩, hproof, h⟩ := bind_eq_ok.mp h
  obtain ⟨ead, head, h⟩ := bind_eq_ok.mp h
  obtain ⟨peer, hpeer, h⟩ := bind_eq_ok.mp h
  cases h
  rw [next_eq_ok.mp hid, nextBytes_eq_ok.mp hproof] at hbehind
  exact ⟨hunmask, fields, cRValue, idCredR, rest₂, hfields, hbehind, hcR,
    Bool.eq_false_iff.mpr hequal, head, hpeer⟩

/-- An accepted message was opened and verified with the session that it is for. -/
theorem check2_eq_ok {handle : e.sessions.Handle} {material : Material}
    (h : (e.check2 sequence).result = .ok (handle, material)) :
    ∃ masked o prk3e2m, e.parse2 sequence = .ok masked ∧ masked.handle = handle ∧
      e.open2 (e.sessions.get handle).material masked.gY masked.ciphertext2 masked.outerCR = .ok o ∧
      (e.preVerify .message2 o.ead).result = .ok () ∧
      verify2 (e.sessions.get handle) o = .ok prk3e2m ∧
      (e.postVerify .message2 o.peer.idCred o.ead).result = .ok () ∧
      material = learn2 (e.sessions.get handle).material o prk3e2m := by
  obtain ⟨masked, hmasked, h⟩ := Check.result_bind_eq_ok.mp h
  obtain ⟨o, ho, h⟩ := Check.result_bind_eq_ok.mp h
  obtain ⟨⟨⟩, hpre, h⟩ := Check.result_bind_eq_ok.mp h
  obtain ⟨prk3e2m, hprk, h⟩ := Check.result_bind_eq_ok.mp h
  obtain ⟨⟨⟩, hpost, h⟩ := Check.result_bind_eq_ok.mp h
  cases h
  exact ⟨masked, o, prk3e2m, hmasked, rfl, ho, hpre, hprk, hpost, rfl⟩

theorem open3_eq_ok {m : Material} {ciphertext3 : Bytes} {o : Opened3}
    (h : e.open3 m ciphertext3 = .ok o) :
    e.decrypt3 m ciphertext3 = .ok (o.th3, o.plaintext3) ∧
      ∃ fields idCredI rest, decodeItems o.plaintext3 = .ok fields ∧
        skipPadding e.settings.version.paddedPlaintext fields = idCredI :: .bytes o.proof :: rest ∧
        e.acceptEad rest = .ok o.ead ∧ e.peerOf idCredI false = .ok o.peer := by
  obtain ⟨⟨th3, plaintext3⟩, hdecrypt, h⟩ := bind_eq_ok.mp h
  obtain ⟨fields, hfields, h⟩ := bind_eq_ok.mp h
  obtain ⟨-, h⟩ := ite_error_eq_ok.mp h
  obtain ⟨⟨idCredI, rest₁⟩, hid, h⟩ := bind_eq_ok.mp h
  obtain ⟨⟨proof, rest₂⟩, hproof, h⟩ := bind_eq_ok.mp h
  obtain ⟨ead, head, h⟩ := bind_eq_ok.mp h
  obtain ⟨peer, hpeer, h⟩ := bind_eq_ok.mp h
  cases h
  have hid := next_eq_ok.mp hid
  rw [nextBytes_eq_ok.mp hproof] at hid
  exact ⟨hdecrypt, fields, idCredI, rest₂, hfields, hid, head, hpeer⟩

/-- An accepted message was opened and verified with the session that it is for, and the keys of
the session follow from it. -/
theorem check3_eq_ok {handle : e.sessions.Handle} {material : Material}
    (h : (e.check3 sequence).result = .ok (handle, material)) :
    ∃ ciphertext3 o prk4e3m phase3, e.parse3 sequence = .ok (handle, ciphertext3) ∧
      e.open3 (e.sessions.get handle).material ciphertext3 = .ok o ∧
      (e.preVerify .message3 o.ead).result = .ok () ∧
      verify3 (e.sessions.get handle) o = .ok prk4e3m ∧
      (e.postVerify .message3 o.peer.idCred o.ead).result = .ok () ∧
      e.phase3 o.th3 prk4e3m o.plaintext3 o.peer.cred = .ok phase3 ∧
      material = learn3 (e.sessions.get handle).material o phase3 := by
  obtain ⟨⟨found, ciphertext3⟩, hparse, h⟩ := Check.result_bind_eq_ok.mp h
  obtain ⟨o, ho, h⟩ := Check.result_bind_eq_ok.mp h
  obtain ⟨⟨⟩, hpre, h⟩ := Check.result_bind_eq_ok.mp h
  obtain ⟨prk4e3m, hprk, h⟩ := Check.result_bind_eq_ok.mp h
  obtain ⟨⟨⟩, hpost, h⟩ := Check.result_bind_eq_ok.mp h
  obtain ⟨phase3, hphase3, h⟩ := Check.result_bind_eq_ok.mp h
  cases h
  exact ⟨ciphertext3, o, prk4e3m, phase3, hparse, ho, hpre, hprk, hpost, hphase3, rfl⟩

/-- A third message has been one ciphertext. -/
theorem parse3_eq_ok {handle : e.sessions.Handle} {ciphertext3 : Bytes}
    (h : e.parse3 sequence = .ok (handle, ciphertext3)) :
    ∃ items, decodeItems sequence = .ok items ∧
      e.addressed .cR items = .ok (handle, [.bytes ciphertext3]) := by
  obtain ⟨items, hitems, h⟩ := bind_eq_ok.mp h
  obtain ⟨⟨found, behind⟩, haddressed, h⟩ := bind_eq_ok.mp h
  obtain ⟨⟨bytes, rest⟩, hbytes, h⟩ := bind_eq_ok.mp h
  obtain ⟨⟨⟩, hend, h⟩ := bind_eq_ok.mp h
  cases h
  rw [nextBytes_eq_ok.mp hbytes, expectEnd_eq_ok.mp hend] at haddressed
  exact ⟨items, hitems, haddressed⟩

/-- What was read from a fourth message was decrypted with the keys of the session that it is for. -/
theorem open4_eq_ok {ead : List Value} (h : e.open4 sequence = .ok ead) :
    ∃ items handle ciphertext4 key iv plaintext4 fields, decodeItems sequence = .ok items ∧
      e.addressed .cI items = .ok (handle, [.bytes ciphertext4]) ∧
      keyAndIv4 (e.sessions.get handle).material = .ok (key, iv) ∧
      KeySchedule.decrypt (e.sessions.get handle).material.suite key iv
        (e.sessions.get handle).material.phase3.th4 ciphertext4 = .ok plaintext4 ∧
      decodeItems plaintext4 = .ok fields ∧
      e.acceptEad (skipPadding e.settings.version.paddedPlaintext fields) = .ok ead := by
  obtain ⟨items, hitems, h⟩ := bind_eq_ok.mp h
  obtain ⟨⟨handle, behind⟩, haddressed, h⟩ := bind_eq_ok.mp h
  obtain ⟨⟨ciphertext4, rest⟩, hbytes, h⟩ := bind_eq_ok.mp h
  obtain ⟨⟨⟩, hend, h⟩ := bind_eq_ok.mp h
  obtain ⟨⟨key, iv⟩, hkeys, h⟩ := bind_eq_ok.mp h
  obtain ⟨plaintext4, hplaintext, h⟩ := bind_eq_ok.mp h
  obtain ⟨fields, hfields, h⟩ := bind_eq_ok.mp h
  rw [nextBytes_eq_ok.mp hbytes, expectEnd_eq_ok.mp hend] at haddressed
  exact ⟨items, handle, ciphertext4, key, iv, plaintext4, fields, hitems, haddressed, hkeys,
    hplaintext, hfields, h⟩

/-- An error message has been a code and what follows it, at most three items in all. -/
theorem parseError_eq_ok {handle : e.sessions.Handle} {code : Int} {info : Value}
    (h : e.parseError sequence = .ok (handle, code, info)) :
    ∃ items v, decodeItems sequence = .ok items ∧
      (items.isEmpty || decide (3 < items.length)) = false ∧
      e.addressed .cX items = .ok (handle, [v, info]) ∧ intOf .errCode v = .ok code := by
  obtain ⟨items, hitems, h⟩ := bind_eq_ok.mp h
  obtain ⟨hcount, h⟩ := ite_error_eq_ok.mp h
  obtain ⟨⟨found, behind⟩, haddressed, h⟩ := bind_eq_ok.mp h
  obtain ⟨⟨v, rest⟩, hv, h⟩ := bind_eq_ok.mp h
  obtain ⟨n, hn, h⟩ := bind_eq_ok.mp h
  obtain ⟨⟨w, rest'⟩, hw, h⟩ := bind_eq_ok.mp h
  obtain ⟨⟨⟩, hend, h⟩ := bind_eq_ok.mp h
  cases h
  rw [next_eq_ok.mp hv, next_eq_ok.mp hw, expectEnd_eq_ok.mp hend] at haddressed
  exact ⟨items, v, hitems, Bool.eq_false_iff.mpr hcount, haddressed, hn⟩

theorem checkError_eq_ok {handle : e.sessions.Handle} {suites : Option (List Int)}
    (h : (e.checkError sequence).result = .ok (handle, suites)) :
    ∃ code info, e.parseError sequence = .ok (handle, code, info) ∧
      (errorSuites code info).result = .ok suites := by
  obtain ⟨⟨found, code, info⟩, hparse, h⟩ := Check.result_bind_eq_ok.mp h
  obtain ⟨suites, hsuites, h⟩ := Check.result_bind_eq_ok.mp h
  cases h
  exact ⟨code, info, hparse, hsuites⟩

end EdhocLab.Engine
