import EdhocLab.Proofs.Engine.Handshake

/-! # Calls made twice

A call other than the one that starts sessions can be repeated: what it writes is not among what it
reads, or is what it would write again.  The second call gives the same answer and changes nothing.
-/
namespace EdhocLab

open Cbor (Value)
open Handshake

namespace SessionTable

variable (table : SessionTable)

@[simp] theorem set_get (h : table.Handle) : table.set h (table.get h) = table := by
  simp [set, get]

variable {table} in
theorem set_set {h : table.Handle} {s : Session} {h' : (table.set h s).Handle} (hval : h'.val = h.val)
    (s' : Session) : (table.set h s).set h' s' = table.set h s' := by
  simp [set, hval]

/-- A replaced session is found where the old one was. -/
theorem exists_get_set (h : table.Handle) (s : Session) :
    ∃ h' : (table.set h s).Handle, h'.val = h.val ∧ (table.set h s).get h' = s := by
  have hlt : h.val < (table.set h s).sessions.length := by
    rw [sessions_set, List.length_set]
    exact h.isLt
  exact ⟨⟨h.val, hlt⟩, rfl, by simp [get]⟩

end SessionTable

namespace Material

variable {m : Material} {endpoint : Endpoint} {role : Role} {suite : Suite}

/-- Selecting the suite that the own keys fit already draws no key. -/
theorem Coherent.selectSuite_eq (h : m.Coherent endpoint role) (entropy : Entropy) :
    m.selectSuite endpoint role m.suite entropy = (m, entropy) := by
  unfold selectSuite
  dsimp only
  rw [if_pos h.ephemeral_curve, ← h.credential_eq]

end Material

namespace Engine

variable {e e' : Engine}

@[simp] theorem setCurrent_current (e : Engine) : e.setCurrent e.current = e :=
  congrArg (fun sessions => { e with sessions }) (e.sessions.set_get e.sessions.currentHandle)

/-- Settling what a session that is set up holds already changes nothing. -/
theorem settle_of_ready {h : e.sessions.Handle} (hready : (e.sessions.get h).oscoreReady = true) :
    (e.settle h (e.sessions.get h).material).value = e := by
  have hsetup := Session.setup_of_ready e.settings (e.sessions.get h) e.endpoint.oscoreUri
    e.contexts hready
  have hvalue : (e.settle h (e.sessions.get h).material).value = { e with
      sessions := e.sessions.set h
        ((e.sessions.get h).setup e.settings e.endpoint.oscoreUri e.contexts).value.1
      contexts := ((e.sessions.get h).setup e.settings e.endpoint.oscoreUri e.contexts).value.2 } :=
    rfl
  rw [hvalue, hsetup, SessionTable.set_get]

section Written

/-! ### Calls that write -/

/-- The same party after its current session got new material. -/
structure Updates (e e' : Engine) (m : Material) : Prop where
  settings_eq : e'.settings = e.settings
  endpoint_eq : e'.endpoint = e.endpoint
  role_eq : e'.current.role = e.current.role
  material_eq : e'.current.material = m

variable {m : Material}

theorem updates_setCurrent (e : Engine) (m : Material) :
    e.Updates (e.setCurrent { e.current with material := m }) m where
  settings_eq := rfl
  endpoint_eq := rfl
  role_eq := by
    change (e.sessions.set e.sessions.currentHandle _).currentSession.role = _
    rw [SessionTable.currentSession_set_current]
  material_eq := congrArg Session.material (SessionTable.currentSession_set_current ..)

theorem updates_settle (e : Engine) (m : Material) :
    e.Updates (e.settle e.sessions.currentHandle m).value m where
  settings_eq := rfl
  endpoint_eq := rfl
  role_eq := (congrArg Session.role (SessionTable.currentSession_set_current ..)).trans
    (Session.setup_role ..)
  material_eq := e.settle_current m

theorem updates_selectSuite (e : Engine) (suite : Suite) :
    e.Updates (e.selectSuite e.current.role suite)
      (e.current.material.selectSuite e.endpoint e.current.role suite e.entropy).1 :=
  let hset := e.updates_setCurrent _
  ⟨hset.settings_eq, hset.endpoint_eq, hset.role_eq, hset.material_eq⟩

/-- An offer depends on the identifier of the session and the suites of its peer. -/
theorem Updates.offer1 (h : e.Updates e' m) (hsuites : m.peerSuites = e.current.material.peerSuites)
    (hid : m.connectionId = e.current.material.connectionId) :
    e'.offer1.result = e.offer1.result := by
  simp only [Engine.offer1, produceEad, h.endpoint_eq, h.material_eq, hsuites, hid]

/-- A second message does not depend on what the second messages before it left behind. -/
theorem Updates.build2 {phase2 : Phase2} (h : e.Updates e' { e.current.material with phase2 }) :
    e'.build2.result = e.build2.result := by
  have hdraft : e'.draft2 = e.draft2 := by
    simp only [draft2, prepended, h.settings_eq, h.role_eq, h.material_eq]
    rfl
  have hfinish : e'.finish2 = e.finish2 := by
    funext d ead
    simp only [finish2, h.settings_eq, h.material_eq]
  simp only [Engine.build2, produceEad, hdraft, hfinish, h.endpoint_eq]

/-- A third message does not depend on what the third messages before it left behind. -/
theorem Updates.build3 {phase3 : Phase3} {message3 : Bytes}
    (h : e.Updates e' { e.current.material with phase3, message3 }) :
    e'.build3.result = e.build3.result := by
  have hdraft : e'.draft3 = e.draft3 := by
    simp only [draft3, prepended, coveredCred, h.settings_eq, h.role_eq, h.material_eq]
    rfl
  have hfinish : e'.finish3 = e.finish3 := by
    funext d ead
    simp only [finish3, Engine.phase3, coveredCred, h.settings_eq, h.material_eq]
  simp only [Engine.build3, produceEad, hdraft, hfinish, h.endpoint_eq]

variable {message : Bytes}

theorem selectSuite_self {role : Role} (h : e.current.material.Coherent e.endpoint role) :
    e.selectSuite role e.current.material.suite = e := by
  have hvalue : e.selectSuite role e.current.material.suite =
      { e.setCurrent { e.current with material := (e.current.material.selectSuite e.endpoint role
          e.current.material.suite e.entropy).1 } with
        entropy := (e.current.material.selectSuite e.endpoint role
          e.current.material.suite e.entropy).2 } := rfl
  rw [hvalue, h.selectSuite_eq]
  exact e.setCurrent_current

/-- A session that keeps what its second message establishes writes it again. -/
theorem writeMessage2_of_kept {phase2 : Phase2} (hbuilt : e.build2.result = .ok (message, phase2))
    (hkept : e.current.material.phase2 = phase2) : e.writeMessage2.value = (some message, e) := by
  subst hkept
  rw [writeMessage2_value, hbuilt]
  cases e.current.role with
  | initiator => rfl
  | responder => exact congrArg (Prod.mk _) e.setCurrent_current

theorem writeMessage3_of_kept {phase3 : Phase3} (hbuilt : e.build3.result = .ok (message, phase3))
    (hkept : e.current.material = { e.current.material with phase3, message3 := message })
    (hready : e.current.oscoreReady = true) : e.writeMessage3.value = (some message, e) := by
  rw [writeMessage3_value, hbuilt]
  dsimp only
  rw [← hkept]
  cases e.current.role with
  | responder => rfl
  | initiator => exact congrArg (Prod.mk _) (settle_of_ready hready)

/-- A session with the suite of the offer writes the first message without selecting again. -/
theorem writeMessage1_of_selected {offer : Offer1} (hoffer : e.offer1.result = .ok offer)
    (hsuite : e.current.material.suite = offer.suite)
    (hkeys : e.current.material.Coherent e.endpoint e.current.role) :
    e.writeMessage1.value =
      match KeySchedule.encodeItems (e.leadingTrue ++ elements1 e.current.material offer) with
      | .error _ => (none, e)
      | .ok message =>
        match e.current.role with
        | .responder => (some message, e)
        | .initiator => (some message, e.keepHash
            (KeySchedule.hash (message.drop e.leadingTrue.length))) := by
  have hselect : e.selectSuite e.current.role offer.suite = e := hsuite ▸ selectSuite_self hkeys
  rw [writeMessage1_value, hoffer]
  simp only [hselect]
  rfl

theorem keepHash_of_kept {hash : Bytes} (hkept : e.current.material.hashMessage1 = hash) :
    e.keepHash hash = e := by
  subst hkept
  exact e.setCurrent_current

/-- Once a suite is selected, the first message is the same every time. -/
theorem writeMessage1_again_of_selected {offer : Offer1} (hoffer : e.offer1.result = .ok offer)
    (hsuite : e.current.material.suite = offer.suite)
    (hkeys : e.current.material.Coherent e.endpoint e.current.role) :
    e.writeMessage1.value.2.writeMessage1.value = e.writeMessage1.value := by
  have hwrite := writeMessage1_of_selected hoffer hsuite hkeys
  cases hmessage : KeySchedule.encodeItems (e.leadingTrue ++ elements1 e.current.material offer) with
  | error error =>
    have hvalue : e.writeMessage1.value = (none, e) := by rw [hwrite, hmessage]
    rw [hvalue, hvalue]
  | ok message =>
    cases hrole : e.current.role with
    | responder =>
      have hvalue : e.writeMessage1.value = (some message, e) := by
        simp only [hwrite, hmessage, hrole]
      rw [hvalue, hvalue]
    | initiator =>
      let hash := KeySchedule.hash (message.drop e.leadingTrue.length)
      have hvalue : e.writeMessage1.value = (some message, e.keepHash hash) := by
        simp only [hwrite, hmessage, hrole, hash]
      have hupdates : e.Updates (e.keepHash hash) _ := e.updates_setCurrent _
      have hkept : (e.keepHash hash).keepHash hash = e.keepHash hash :=
        keepHash_of_kept (by rw [hupdates.material_eq])
      have hleading : (e.keepHash hash).leadingTrue = e.leadingTrue := rfl
      have helements : elements1 (e.keepHash hash).current.material offer =
          elements1 e.current.material offer := by
        rw [hupdates.material_eq]
        rfl
      rw [hvalue, writeMessage1_of_selected ((hupdates.offer1 rfl rfl).trans hoffer)]
      · simp only [hleading, helements, hmessage, hupdates.role_eq, hrole]
        exact congrArg (Prod.mk _) hkept
      · rw [hupdates.material_eq, ← hsuite]
      · rw [hupdates.material_eq, hupdates.endpoint_eq, hupdates.role_eq]
        exact ⟨hkeys.suite_mem, hkeys.ephemeral_curve, hkeys.credential_eq⟩

theorem writeMessage1_again (e : Engine) :
    e.writeMessage1.value.2.writeMessage1.value = e.writeMessage1.value := by
  cases hoffer : e.offer1.result with
  | error error =>
    have hvalue : e.writeMessage1.value = (none, e) := by rw [writeMessage1_value, hoffer]
    rw [hvalue, hvalue]
  | ok offer =>
    obtain ⟨e₁, he₁⟩ : ∃ e₁, e₁ = e.selectSuite e.current.role offer.suite := ⟨_, rfl⟩
    have hupdates : e.Updates e₁ _ := he₁ ▸ e.updates_selectSuite offer.suite
    have hkeys : e₁.current.material.Coherent e₁.endpoint e₁.current.role := by
      rw [hupdates.material_eq, hupdates.endpoint_eq, hupdates.role_eq]
      exact Material.selectSuite_coherent _ _ (suite_mem_of_offer1 hoffer)
    have hsuite : e₁.current.material.suite = offer.suite := by
      rw [hupdates.material_eq]
      exact Material.selectSuite_suite ..
    have hoffer₁ : e₁.offer1.result = .ok offer := by
      rw [← hoffer]
      exact hupdates.offer1 (Material.selectSuite_peerSuites ..)
        (Material.selectSuite_connectionId ..)
    have hvalue : e.writeMessage1.value = e₁.writeMessage1.value := by
      rw [writeMessage1_of_selected hoffer₁ hsuite hkeys, writeMessage1_value, hoffer, he₁]
      rfl
    rw [hvalue]
    exact writeMessage1_again_of_selected hoffer₁ hsuite hkeys

theorem writeMessage2_again (e : Engine) :
    e.writeMessage2.value.2.writeMessage2.value = e.writeMessage2.value := by
  cases hbuilt : e.build2.result with
  | error error =>
    have hvalue : e.writeMessage2.value = (none, e) := by rw [writeMessage2_value, hbuilt]
    rw [hvalue, hvalue]
  | ok built =>
    obtain ⟨message, phase2⟩ := built
    cases hrole : e.current.role with
    | initiator =>
      have hvalue : e.writeMessage2.value = (some message, e) := by
        simp only [writeMessage2_value, hbuilt, hrole]
      rw [hvalue, hvalue]
    | responder =>
      have hvalue : e.writeMessage2.value = (some message, e.setCurrent { e.current with
          material := { e.current.material with phase2 } }) := by
        simp only [writeMessage2_value, hbuilt, hrole]
      have hupdates := e.updates_setCurrent { e.current.material with phase2 }
      rw [hvalue]
      apply writeMessage2_of_kept (hupdates.build2.trans hbuilt)
      rw [hupdates.material_eq]

/-- A session that is settled on what its third message established builds the message again. -/
theorem settle_build3 {phase3 : Phase3} (hbuilt : e.build3.result = .ok (message, phase3)) :
    ∃ e', e' = (e.settle e.sessions.currentHandle
        { e.current.material with phase3, message3 := message }).value ∧
      e'.build3.result = .ok (message, phase3) ∧
      e'.current.material = { e'.current.material with phase3, message3 := message } ∧
      e'.current.oscoreReady = true := by
  have hupdates := e.updates_settle { e.current.material with phase3, message3 := message }
  refine ⟨_, rfl, hupdates.build3.trans hbuilt, ?_, ?_⟩
  · rw [hupdates.material_eq]
  · exact (congrArg Session.oscoreReady (SessionTable.currentSession_set_current ..)).trans
      (Session.setup_oscoreReady ..)

theorem writeMessage3_again (e : Engine) :
    e.writeMessage3.value.2.writeMessage3.value = e.writeMessage3.value := by
  cases hbuilt : e.build3.result with
  | error error =>
    have hvalue : e.writeMessage3.value = (none, e) := by rw [writeMessage3_value, hbuilt]
    rw [hvalue, hvalue]
  | ok built =>
    obtain ⟨message, phase3⟩ := built
    cases hrole : e.current.role with
    | responder =>
      have hvalue : e.writeMessage3.value = (some message, e) := by
        simp only [writeMessage3_value, hbuilt, hrole]
      rw [hvalue, hvalue]
    | initiator =>
      obtain ⟨e', he', hbuilt', hkept, hready⟩ := settle_build3 hbuilt
      have hvalue : e.writeMessage3.value = (some message, e') := by
        simp only [writeMessage3_value, hbuilt, hrole, he']
      rw [hvalue]
      exact writeMessage3_of_kept hbuilt' hkept hready

end Written

section Received

/-! ### Calls that read -/

variable {sequence : Bytes} {handle : e.sessions.Handle} {s : Session} {field : Field}
  {items rest : List Value}

/-- The same party after one of its sessions was replaced by one with the same identifier. -/
structure Replaces (e e' : Engine) (handle : e.sessions.Handle) (s : Session) : Prop where
  settings_eq : e'.settings = e.settings
  endpoint_eq : e'.endpoint = e.endpoint
  profile_eq : e'.profile = e.profile
  sessions_eq : e'.sessions = e.sessions.set handle s
  connectionId_eq : s.material.connectionId = (e.sessions.get handle).material.connectionId

/-- A message for a session is for the session that replaces it. -/
theorem Replaces.addressed (h : e.Replaces e' handle s)
    (haddressed : e.addressed field items = .ok (handle, rest)) :
    ∃ handle' : e'.sessions.Handle, e'.addressed field items = .ok (handle', rest) ∧
      e'.sessions.get handle' = s := by
  obtain ⟨id, hfind, hsplit⟩ := addressed_eq_ok haddressed
  have hcurrent : e'.current.material.connectionId = e.current.material.connectionId := by
    change e'.sessions.currentSession.material.connectionId = _
    rw [h.sessions_eq]
    exact SessionTable.connectionId_currentSession_set h.connectionId_eq
  have hexists : ∃ handle' : e'.sessions.Handle, handle'.val = handle.val ∧
      e'.sessions.get handle' = s := by
    rw [h.sessions_eq]
    exact e.sessions.exists_get_set handle s
  obtain ⟨handle', hval, hget⟩ := hexists
  have hfind' : e'.sessions.find? id = some handle' := by
    rw [SessionTable.find?_eq_some_iff, hval, h.sessions_eq, SessionTable.number?_set]
    exact SessionTable.find?_eq_some_iff.mp hfind
  refine ⟨handle', addressed_ok hfind' ?_, hget⟩
  rw [h.settings_eq, hcurrent]
  exact hsplit

theorem readMessage2_of_kept
    (h : (e.check2 sequence).result = .ok (handle, (e.sessions.get handle).material)) :
    (e.readMessage2 sequence).value = (true, e) := by
  rw [readMessage2_value, h]
  dsimp only
  split
  · rfl
  · exact congrArg (fun sessions => (true, { e with sessions })) (e.sessions.set_get handle)

theorem readMessage3_of_kept
    (h : (e.check3 sequence).result = .ok (handle, (e.sessions.get handle).material))
    (hready : (e.sessions.get handle).oscoreReady = true) :
    (e.readMessage3 sequence).value = (true, e) := by
  rw [readMessage3_value, h]
  dsimp only
  split
  · rfl
  · rw [settle_of_ready hready]

/-- What is learned from a second message is not needed to check it. -/
theorem Replaces.check2 (h : e.Replaces e' handle s) {material : Material}
    (hrole : s.role = (e.sessions.get handle).role)
    (hlearn : ∀ o prk3e2m, learn2 s.material o prk3e2m =
      learn2 (e.sessions.get handle).material o prk3e2m)
    (hcheck : (e.check2 sequence).result = .ok (handle, material)) :
    ∃ handle' : e'.sessions.Handle, (e'.check2 sequence).result = .ok (handle', material) ∧
      e'.sessions.get handle' = s := by
  obtain ⟨masked, o, prk3e2m, hparse, rfl, hopen, hpre, hverify, hpost, rfl⟩ := check2_eq_ok hcheck
  obtain ⟨items, hitems, haddressed, hgY, hciphertext, houter⟩ := parse2_eq_ok hparse
  obtain ⟨handle', haddressed', hget⟩ := h.addressed haddressed
  have hparse' : e'.parse2 sequence = .ok
      { handle := handle', gY := masked.gY, ciphertext2 := masked.ciphertext2
        outerCR := masked.outerCR } :=
    parse2_ok hitems haddressed' hgY hciphertext (h.settings_eq ▸ houter)
  -- The sessions differ in nothing but what `learn2` overwrites, and opening reads none of that.
  have hopen' : e'.open2 (e'.sessions.get handle').material masked.gY masked.ciphertext2
      masked.outerCR = .ok o := by
    rw [← hopen, hget]
    change e'.open2 (learn2 s.material o prk3e2m) _ _ _ = e.open2 (learn2 _ o prk3e2m) _ _ _
    rw [hlearn]
    simp only [open2, unmask2, acceptEad, eadConvention, peerOf, h.settings_eq, h.endpoint_eq,
      h.profile_eq]
  have hverify' : verify2 (e'.sessions.get handle') o =
      (Except.ok () : Except Error Unit).map fun _ => prk3e2m := by
    refine Eq.trans ?_ hverify
    rw [hget]
    change verify2 { s with material := learn2 s.material o prk3e2m } o = _
    rw [hlearn, verify2, hrole]
    rfl
  refine ⟨handle', ?_, hget⟩
  rw [check2_result hparse' hopen' ?_ hverify' ?_]
  · dsimp only
    rw [hget, ← hlearn]
    rfl
  · exact (preVerify_result_congr h.endpoint_eq ..).trans hpre
  · exact (postVerify_result_congr h.endpoint_eq ..).trans hpost

theorem Replaces.parse3 (h : e.Replaces e' handle s) {ciphertext3 : Bytes}
    (hparse : e.parse3 sequence = .ok (handle, ciphertext3)) :
    ∃ handle' : e'.sessions.Handle, e'.parse3 sequence = .ok (handle', ciphertext3) ∧
      e'.sessions.get handle' = s := by
  obtain ⟨items, hitems, haddressed⟩ := parse3_eq_ok hparse
  obtain ⟨handle', haddressed', hget⟩ := h.addressed haddressed
  exact ⟨handle', parse3_ok hitems haddressed', hget⟩

/-- What is learned from a third message is not needed to check it. -/
theorem Replaces.check3 (h : e.Replaces e' handle s) {material : Material}
    (hrole : s.role = (e.sessions.get handle).role)
    (hlearn : ∀ o phase3, learn3 s.material o phase3 =
      learn3 (e.sessions.get handle).material o phase3)
    (hcheck : (e.check3 sequence).result = .ok (handle, material)) :
    ∃ handle' : e'.sessions.Handle, (e'.check3 sequence).result = .ok (handle', material) ∧
      e'.sessions.get handle' = s := by
  obtain ⟨ciphertext3, o, prk4e3m, phase3, hparse, hopen, hpre, hverify, hpost, hphase3, rfl⟩ :=
    check3_eq_ok hcheck
  obtain ⟨handle', hparse', hget⟩ := h.parse3 hparse
  have hopen' : e'.open3 (e'.sessions.get handle').material ciphertext3 = .ok o := by
    rw [← hopen, hget]
    change e'.open3 (learn3 s.material o phase3) _ = e.open3 (learn3 _ o phase3) _
    rw [hlearn]
    simp only [open3, decrypt3, coveredCred, acceptEad, eadConvention, peerOf, h.settings_eq,
      h.endpoint_eq]
  have hverify' : verify3 (e'.sessions.get handle') o =
      (Except.ok () : Except Error Unit).map fun _ => prk4e3m := by
    refine Eq.trans ?_ hverify
    rw [hget]
    change verify3 { s with material := learn3 s.material o phase3 } o = _
    rw [hlearn, verify3, hrole]
    rfl
  refine ⟨handle', ?_, hget⟩
  rw [check3_result hparse' hopen' ?_ hverify' ?_
    ((phase3_congr (congrArg Settings.version h.settings_eq) ..).trans hphase3)]
  · rw [hget, ← hlearn]
    rfl
  · exact (preVerify_result_congr h.endpoint_eq ..).trans hpre
  · exact (postVerify_result_congr h.endpoint_eq ..).trans hpost

theorem Replaces.parseError (h : e.Replaces e' handle s) {code : Int} {info : Value}
    (hparse : e.parseError sequence = .ok (handle, code, info)) :
    ∃ handle' : e'.sessions.Handle, e'.parseError sequence = .ok (handle', code, info) ∧
      e'.sessions.get handle' = s := by
  obtain ⟨items, v, hitems, hcount, haddressed, hcode⟩ := parseError_eq_ok hparse
  obtain ⟨handle', haddressed', hget⟩ := h.addressed haddressed
  refine ⟨handle', ?_, hget⟩
  simp only [Engine.parseError, hitems, hcount, haddressed', hcode, next_cons, expectEnd, ok_bind,
    Bool.false_eq_true, if_false, pure_eq_ok]

/-- The suites that are learned from an error message are not needed to check it. -/
theorem Replaces.checkError (h : e.Replaces e' handle s) {peerSuites : Option (List Int)}
    (hcheck : (e.checkError sequence).result = .ok (handle, peerSuites)) :
    ∃ handle' : e'.sessions.Handle, (e'.checkError sequence).result = .ok (handle', peerSuites) ∧
      e'.sessions.get handle' = s := by
  obtain ⟨code, info, hparse, hsuites⟩ := checkError_eq_ok hcheck
  obtain ⟨handle', hparse', hget⟩ := h.parseError hparse
  refine ⟨handle', ?_, hget⟩
  simp only [Engine.checkError, Check.result_bind, Check.result_ofExcept, hparse', hsuites, ok_bind,
    Check.result_pure]

theorem readMessage2_again (e : Engine) (sequence : Bytes) :
    ((e.readMessage2 sequence).value.2.readMessage2 sequence).value =
      (e.readMessage2 sequence).value := by
  cases hcheck : (e.check2 sequence).result with
  | error error =>
    have hvalue : (e.readMessage2 sequence).value = (false, e) := by
      rw [readMessage2_value, hcheck]
    rw [hvalue, hvalue]
  | ok found =>
    obtain ⟨handle, material⟩ := found
    obtain ⟨_, _, _, -, -, -, -, -, -, hmaterial⟩ := check2_eq_ok hcheck
    cases hrole : (e.sessions.get handle).role with
    | responder =>
      have hvalue : (e.readMessage2 sequence).value = (true, e) := by
        rw [readMessage2_value, hcheck]
        simp only [hrole]
      rw [hvalue, hvalue]
    | initiator =>
      let s := { e.sessions.get handle with material }
      let e' := { e with sessions := e.sessions.set handle s }
      have hvalue : (e.readMessage2 sequence).value = (true, e') := by
        rw [readMessage2_value, hcheck]
        simp only [hrole, s, e']
      have hid : material.connectionId = (e.sessions.get handle).material.connectionId := by
        rw [hmaterial]
        rfl
      have hlearn : ∀ o prk3e2m, learn2 material o prk3e2m =
          learn2 (e.sessions.get handle).material o prk3e2m := by
        rw [hmaterial]
        exact fun _ _ => rfl
      have hreplaces : e.Replaces e' handle s := ⟨rfl, rfl, rfl, rfl, hid⟩
      obtain ⟨handle', hcheck', hget⟩ := hreplaces.check2 rfl hlearn hcheck
      rw [hvalue]
      exact readMessage2_of_kept (hcheck'.trans (by rw [hget]))

/-- A session that is settled on what was learned from a third message accepts the message again. -/
theorem settle_check3 {material : Material}
    (hcheck : (e.check3 sequence).result = .ok (handle, material)) :
    ∃ e', e' = (e.settle handle material).value ∧ ∃ handle' : e'.sessions.Handle,
      (e'.check3 sequence).result = .ok (handle', (e'.sessions.get handle').material) ∧
      (e'.sessions.get handle').oscoreReady = true := by
  obtain ⟨_, _, _, _, -, -, -, -, -, -, hmaterial⟩ := check3_eq_ok hcheck
  let s := (Session.setup { e.sessions.get handle with material } e.settings
    e.endpoint.oscoreUri e.contexts).value.1
  have hset : s.material = material := Session.setup_material ..
  have hreplaces : e.Replaces (e.settle handle material).value handle s :=
    ⟨rfl, rfl, rfl, rfl, by rw [hset, hmaterial]; rfl⟩
  obtain ⟨handle', hcheck', hget⟩ := hreplaces.check3 (Session.setup_role ..)
    (fun _ _ => by rw [hset, hmaterial]; rfl) hcheck
  refine ⟨_, rfl, handle', hcheck'.trans (by rw [hget, hset]), ?_⟩
  rw [hget]
  exact Session.setup_oscoreReady ..

theorem readMessage3_again (e : Engine) (sequence : Bytes) :
    ((e.readMessage3 sequence).value.2.readMessage3 sequence).value =
      (e.readMessage3 sequence).value := by
  cases hcheck : (e.check3 sequence).result with
  | error error =>
    have hvalue : (e.readMessage3 sequence).value = (false, e) := by
      rw [readMessage3_value, hcheck]
    rw [hvalue, hvalue]
  | ok found =>
    obtain ⟨handle, material⟩ := found
    cases hrole : (e.sessions.get handle).role with
    | initiator =>
      have hvalue : (e.readMessage3 sequence).value = (true, e) := by
        rw [readMessage3_value, hcheck]
        simp only [hrole]
      rw [hvalue, hvalue]
    | responder =>
      obtain ⟨e', he', handle', hcheck', hready⟩ := settle_check3 hcheck
      have hvalue : (e.readMessage3 sequence).value = (true, e') := by
        rw [readMessage3_value, hcheck]
        simp only [hrole, he']
      rw [hvalue]
      exact readMessage3_of_kept hcheck' hready

theorem readError_again (e : Engine) (sequence : Bytes) :
    ((e.readError sequence).value.2.readError sequence).value = (e.readError sequence).value := by
  cases hcheck : (e.checkError sequence).result with
  | error error =>
    have hvalue : (e.readError sequence).value = (false, e) := by rw [readError_value, hcheck]
    rw [hvalue, hvalue]
  | ok found =>
    obtain ⟨handle, suites⟩ := found
    cases suites with
    | none =>
      have hvalue : (e.readError sequence).value = (true, e) := by rw [readError_value, hcheck]
      rw [hvalue, hvalue]
    | some peerSuites =>
      let s := { e.sessions.get handle with
        material := { (e.sessions.get handle).material with peerSuites } }
      let e' := { e with sessions := e.sessions.set handle s }
      have hvalue : (e.readError sequence).value = (true, e') := by
        rw [readError_value, hcheck]
      have hreplaces : e.Replaces e' handle s := ⟨rfl, rfl, rfl, rfl, rfl⟩
      obtain ⟨handle', hcheck', hget⟩ := hreplaces.checkError hcheck
      have hkept : { e'.sessions.get handle' with
          material := { (e'.sessions.get handle').material with peerSuites } } =
          e'.sessions.get handle' := by
        rw [hget]
      rw [hvalue, readError_value, hcheck']
      dsimp only
      rw [hkept, SessionTable.set_get]

end Received

/-- A call that leaves the engine alone is the same call the next time. -/
theorem perform_again_of_unchanged {call : Call} (h : e.act (.call call) = e) :
    ((e.act (.call call)).perform call).value = (e.perform call).value := by
  rw [h]

/-- A call that starts no session gives the same answer again and changes nothing more. -/
theorem perform_again (e : Engine) (call : Call)
    (hcall : ∀ sequence, call ≠ .readMessage1 sequence) :
    ((e.act (.call call)).perform call).value = (e.perform call).value := by
  cases call with
  | writeMessage1 => exact congrArg (Prod.map Answer.written id) e.writeMessage1_again
  | writeMessage2 => exact congrArg (Prod.map Answer.written id) e.writeMessage2_again
  | writeMessage3 => exact congrArg (Prod.map Answer.written id) e.writeMessage3_again
  | writeMessage4 => exact perform_again_of_unchanged (congrArg Prod.snd e.writeMessage4_value)
  | writeError code diagnostic =>
    exact perform_again_of_unchanged (congrArg Prod.snd (e.writeError_value code diagnostic))
  | readMessage1 sequence => exact absurd rfl (hcall sequence)
  | readMessage2 sequence => exact congrArg (Prod.map Answer.read id) (e.readMessage2_again sequence)
  | readMessage3 sequence => exact congrArg (Prod.map Answer.read id) (e.readMessage3_again sequence)
  | readMessage4 sequence =>
    exact perform_again_of_unchanged (congrArg Prod.snd (e.readMessage4_value sequence))
  | readError sequence => exact congrArg (Prod.map Answer.read id) (e.readError_again sequence)

/-- The first message of a fresh Initiator is the same when it is written again. -/
theorem caller_writes_again : ∃ m₁, (caller.perform .writeMessage1).value.1 = .written (some m₁) ∧
    (∀ sequence, Call.writeMessage1 ≠ .readMessage1 sequence) ∧
    ((caller.act (.call .writeMessage1)).perform .writeMessage1).value =
      (caller.perform .writeMessage1).value := by
  obtain ⟨m₁, i₁, hwrite, -⟩ := caller_writeMessage1
  have hanswer : (caller.perform .writeMessage1).value.1 = .written (some m₁) :=
    congrArg Answer.written (congrArg Prod.fst hwrite)
  exact ⟨m₁, hanswer, fun _ => nofun, perform_again caller .writeMessage1 fun _ => nofun⟩

end Engine

end EdhocLab
