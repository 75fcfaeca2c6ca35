import EdhocLab.Proofs.Engine.Scope
import EdhocLab.Proofs.Engine.Solitary

/-! # Edits of one session

A call edits the material of at most one session or starts a new one, and a reset renews the current
one.  An invariant of single sessions is proved by cases over these edits and does not mention the
table that the sessions are in.
-/
namespace EdhocLab.Engine

open Handshake

variable {settings : Settings} {endpoint : Endpoint} {e e' : Engine} {s : Session} {n : Nat}

/-- What a call makes of the material of a session. -/
inductive Edit (e : Engine) (s : Session) : Material → Prop
  | kept : Edit e s s.material
  | offered {offer : Offer1} (hcurrent : s = e.current) (h : e.offer1.result = .ok offer) :
      Edit e s (s.material.selectSuite e.endpoint s.role offer.suite e.entropy).1
  | written1 {offer : Offer1} (hcurrent : s = e.current) (h : e.offer1.result = .ok offer)
      (hrole : s.role = .initiator) (hashMessage1 : Bytes) :
      Edit e s { (s.material.selectSuite e.endpoint s.role offer.suite e.entropy).1 with
        hashMessage1 }
  | written2 {message : Bytes} {phase2 : Phase2} (hcurrent : s = e.current)
      (h : e.build2.result = .ok (message, phase2)) (hrole : s.role = .responder) :
      Edit e s { s.material with phase2 }
  | written3 {message : Bytes} {phase3 : Phase3} (hcurrent : s = e.current)
      (h : e.build3.result = .ok (message, phase3)) (hrole : s.role = .initiator) :
      Edit e s { s.material with phase3, message3 := message }
  | accepted2 {gY ciphertext2 : Bytes} {outerCR : Option Cbor.Value} {o : Opened2} {prk3e2m : Bytes}
      (hopen : e.open2 s.material gY ciphertext2 outerCR = .ok o)
      (hverify : verify2 s o = .ok prk3e2m) (hrole : s.role = .initiator) :
      Edit e s (learn2 s.material o prk3e2m)
  | accepted3 {ciphertext3 : Bytes} {o : Opened3} {prk4e3m : Bytes} {phase3 : Phase3}
      (hopen : e.open3 s.material ciphertext3 = .ok o) (hverify : verify3 s o = .ok prk4e3m)
      (hphase3 : e.phase3 o.th3 prk4e3m o.plaintext3 o.peer.cred = .ok phase3)
      (hrole : s.role = .responder) : Edit e s (learn3 s.material o phase3)
  | acceptedError (peerSuites : List Int) : Edit e s { s.material with peerSuites }

/-- The material of a session that is started for a first message. -/
def acceptedMaterial (e : Engine) (a : Accepted1) : Material :=
  let (fresh, entropy) := Material.fresh e.endpoint .responder a.received.method a.connectionId
    e.current.material.peerSuites e.entropy
  { (fresh.selectSuite e.endpoint .responder a.suite entropy).1 with
    peerConnectionId := a.received.cI
    peerEphemeralKey := a.peerEphemeralKey
    hashMessage1 := KeySchedule.hash a.received.hashed
    suitesInError := a.received.selection.offer }

/-- Where a session comes from that has a number after a call. -/
inductive Source (e : Engine) (n : Nat) (s' : Session) : Prop
  | edited {s : Session} (hs : e.session? n = some s) (hrole : s'.role = s.role)
      (hedit : e.Edit s s'.material)
  | started {sequence : Bytes} {a : Accepted1} (hn : n = e.sessions.sessions.length)
      (ha : (e.check1 sequence).result = .ok (some a)) (hrole : s'.role = .responder)
      (hmaterial : s'.material = e.acceptedMaterial a)

section Table

theorem session?_handle (e : Engine) (handle : e.sessions.Handle) :
    e.session? handle = some (e.sessions.get handle) := List.getElem?_eq_getElem handle.isLt

theorem session?_set {handle : e.sessions.Handle} {t : Session}
    (hsessions : e'.sessions = e.sessions.set handle t) :
    e'.session? n = if n = handle then some t else e.session? n := by
  rw [session?, hsessions, SessionTable.sessions_set, List.getElem?_set]
  split
  · rename_i hn
    rw [if_pos handle.isLt, if_pos hn.symm]
  · rename_i hn
    rw [if_neg (Ne.symm hn)]
    rfl

/-- Sessions that are not replaced stay as they are, and the replaced one is edited. -/
theorem Source.of_set {handle : e.sessions.Handle} {s' t : Session}
    (h : e'.session? n = some s') (hsessions : e'.sessions = e.sessions.set handle t)
    (hrole : t.role = (e.sessions.get handle).role)
    (hedit : e.Edit (e.sessions.get handle) t.material) : e.Source n s' := by
  rw [session?_set hsessions] at h
  split at h
  · rename_i hn
    cases h
    exact .edited (hn ▸ e.session?_handle handle) hrole hedit
  · exact .edited h rfl .kept

theorem Source.of_settle {handle : e.sessions.Handle} {material : Material}
    (h : (e.settle handle material).value.session? n = some s)
    (hedit : e.Edit (e.sessions.get handle) material) : e.Source n s := by
  refine .of_set h rfl (Session.setup_role ..) ?_
  rw [Session.setup_material]
  exact hedit

theorem accept1_role (e : Engine) (a : Accepted1) :
    (e.accept1 a).value.current.role = .responder := by
  change (SessionTable.add _ a.connectionId _).currentSession.role = _
  rw [SessionTable.currentSession_add]
  exact startSession_role ..

theorem accept1_material (e : Engine) (a : Accepted1) :
    (e.accept1 a).value.current.material = e.acceptedMaterial a := by
  let started := (startSession e.settings e.endpoint .responder a.received.method a.connectionId
    e.current.material.peerSuites e.contexts e.entropy).value
  have hfresh : started.1.material = (Material.fresh e.endpoint .responder a.received.method
      a.connectionId e.current.material.peerSuites e.entropy).1 := startSession_material ..
  have hcurrent : (e.accept1 a).value.current.material =
      { (started.1.material.selectSuite e.endpoint .responder a.suite started.2.2).1 with
        peerConnectionId := a.received.cI
        peerEphemeralKey := a.peerEphemeralKey
        hashMessage1 := KeySchedule.hash a.received.hashed
        suitesInError := a.received.selection.offer } :=
    congrArg Session.material (SessionTable.currentSession_add ..)
  rw [hcurrent, hfresh]
  rfl

/-- The session of an accepted first message follows all others. -/
theorem Source.of_accept1 {sequence : Bytes} {a : Accepted1}
    (ha : (e.check1 sequence).result = .ok (some a))
    (h : (e.accept1 a).value.session? n = some s) : e.Source n s := by
  rw [session?, accept1_sessions, SessionTable.sessions_add] at h
  rcases Nat.lt_or_ge n e.sessions.sessions.length with hn | hn
  · rw [List.getElem?_append_left hn] at h
    exact .edited h rfl .kept
  · rw [List.getElem?_append_right hn, List.getElem?_singleton] at h
    split at h
    · cases h
      exact .started (by omega) ha (e.accept1_role a) (e.accept1_material a)
    · cases h

end Table

section Calls

theorem writeMessage1_source (h : e.writeMessage1.value.2.session? n = some s) : e.Source n s := by
  rw [writeMessage1_value] at h
  cases hoffer : e.offer1.result with
  | error _ =>
    rw [hoffer] at h
    exact .edited h rfl .kept
  | ok offer =>
    simp only [hoffer] at h
    have hcurrent : (e.selectSuite e.current.role offer.suite).current =
        { e.current with material := (e.current.material.selectSuite e.endpoint e.current.role
          offer.suite e.entropy).1 } := SessionTable.currentSession_set_current ..
    have hselected (h : (e.selectSuite e.current.role offer.suite).session? n = some s) :
        e.Source n s := .of_set h rfl rfl (.offered rfl hoffer)
    split at h
    · exact hselected h
    · split at h
      · exact hselected h
      · rename_i hrole
        rw [hcurrent] at hrole h
        exact .of_set h (SessionTable.set_set rfl _) rfl (.written1 rfl hoffer hrole _)

theorem writeMessage2_source (h : e.writeMessage2.value.2.session? n = some s) : e.Source n s := by
  rw [writeMessage2_value] at h
  cases hbuild : e.build2.result with
  | error _ =>
    rw [hbuild] at h
    exact .edited h rfl .kept
  | ok built =>
    cases hrole : e.current.role with
    | initiator =>
      simp only [hbuild, hrole] at h
      exact .edited h rfl .kept
    | responder =>
      simp only [hbuild, hrole] at h
      exact .of_set h rfl hrole.symm (.written2 rfl hbuild hrole)

theorem writeMessage3_source (h : e.writeMessage3.value.2.session? n = some s) : e.Source n s := by
  rw [writeMessage3_value] at h
  cases hbuild : e.build3.result with
  | error _ =>
    rw [hbuild] at h
    exact .edited h rfl .kept
  | ok built =>
    cases hrole : e.current.role with
    | responder =>
      simp only [hbuild, hrole] at h
      exact .edited h rfl .kept
    | initiator =>
      simp only [hbuild, hrole] at h
      exact .of_settle h (.written3 rfl hbuild hrole)

variable {sequence : Bytes}

theorem readMessage1_source (h : (e.readMessage1 sequence).value.2.session? n = some s) :
    e.Source n s := by
  rw [readMessage1_value] at h
  cases hcheck : (e.check1 sequence).result with
  | error _ =>
    rw [hcheck] at h
    exact .edited h rfl .kept
  | ok accepted =>
    rw [hcheck] at h
    cases accepted with
    | none => exact .edited h rfl .kept
    | some a => exact .of_accept1 hcheck h

theorem readMessage2_source (h : (e.readMessage2 sequence).value.2.session? n = some s) :
    e.Source n s := by
  rw [readMessage2_value] at h
  cases hcheck : (e.check2 sequence).result with
  | error _ =>
    rw [hcheck] at h
    exact .edited h rfl .kept
  | ok found =>
    obtain ⟨handle, material⟩ := found
    obtain ⟨masked, o, prk3e2m, -, -, hopen, -, hverify, -, rfl⟩ := check2_eq_ok hcheck
    cases hrole : (e.sessions.get handle).role with
    | responder =>
      simp only [hcheck, hrole] at h
      exact .edited h rfl .kept
    | initiator =>
      simp only [hcheck, hrole] at h
      exact .of_set h rfl hrole.symm (.accepted2 hopen hverify hrole)

theorem readMessage3_source (h : (e.readMessage3 sequence).value.2.session? n = some s) :
    e.Source n s := by
  rw [readMessage3_value] at h
  cases hcheck : (e.check3 sequence).result with
  | error _ =>
    rw [hcheck] at h
    exact .edited h rfl .kept
  | ok found =>
    obtain ⟨handle, material⟩ := found
    obtain ⟨ciphertext3, o, prk4e3m, phase3, -, hopen, -, hverify, -, hphase3, rfl⟩ :=
      check3_eq_ok hcheck
    cases hrole : (e.sessions.get handle).role with
    | initiator =>
      simp only [hcheck, hrole] at h
      exact .edited h rfl .kept
    | responder =>
      simp only [hcheck, hrole] at h
      exact .of_settle h (.accepted3 hopen hverify hphase3 hrole)

theorem readError_source (h : (e.readError sequence).value.2.session? n = some s) :
    e.Source n s := by
  rw [readError_value] at h
  cases hcheck : (e.checkError sequence).result with
  | error _ =>
    rw [hcheck] at h
    exact .edited h rfl .kept
  | ok found =>
    obtain ⟨handle, suites⟩ := found
    rw [hcheck] at h
    cases suites with
    | none => exact .edited h rfl .kept
    | some peerSuites => exact .of_set h rfl rfl (.acceptedError peerSuites)

/-- Every session after a call is one from before it, edited, or has been started by it. -/
theorem call_source {call : Call} (h : (e.act (.call call)).session? n = some s) :
    e.Source n s := by
  cases call with
  | writeMessage1 => exact writeMessage1_source h
  | writeMessage2 => exact writeMessage2_source h
  | writeMessage3 => exact writeMessage3_source h
  | writeMessage4 =>
    change e.writeMessage4.value.2.session? n = some s at h
    rw [writeMessage4_value] at h
    exact .edited h rfl .kept
  | writeError code diagnostic =>
    change (e.writeError code diagnostic).value.2.session? n = some s at h
    rw [writeError_value] at h
    exact .edited h rfl .kept
  | readMessage1 sequence => exact readMessage1_source h
  | readMessage2 sequence => exact readMessage2_source h
  | readMessage3 sequence => exact readMessage3_source h
  | readMessage4 sequence =>
    change (e.readMessage4 sequence).value.2.session? n = some s at h
    rw [readMessage4_value] at h
    exact .edited h rfl .kept
  | readError sequence => exact readError_source h

end Calls

/-- A reset renews the current session where that is enabled, and no other material. -/
theorem reset_session (hs : (e.act .reset).session? n = some s) :
    (e.settings.sessionReset ∧ n = e.sessions.current ∧ s.role = e.current.role ∧
        s.material = e.renewed.material) ∨
      (e.settings.sessionReset → n ≠ e.sessions.current) ∧
        ∃ t, e.session? n = some t ∧ s.role = t.role ∧ s.material = t.material := by
  change e.resetSession.value.session? n = some s at hs
  unfold resetSession at hs
  split at hs
  · rename_i hreset
    rw [session?_set e.reset_sessions] at hs
    split at hs
    · rename_i hn
      cases hs
      exact .inl ⟨hreset, hn, Session.setupPlaceholder_role .., Session.setupPlaceholder_material ..⟩
    · rename_i hn
      exact .inr ⟨fun _ => hn, s, hs, rfl, rfl⟩
  · rename_i hreset
    change (e.setCurrent { e.current with oscoreReady := false }).session? n = some s at hs
    rw [session?_set rfl] at hs
    refine .inr ⟨fun h => absurd h hreset, ?_⟩
    split at hs
    · rename_i hn
      cases hs
      exact ⟨e.current, hn ▸ e.session?_handle e.sessions.currentHandle, rfl, rfl⟩
    · exact ⟨s, hs, rfl, rfl⟩

theorem mem_sessions_iff : s ∈ e.sessions.sessions ↔ ∃ n, e.session? n = some s :=
  List.mem_iff_getElem?

/-- What holds of the material of new and renewed sessions, and what edits preserve, holds of all
sessions on every run. -/
theorem Reachable.induction_on_sessions {P : Role → Material → Prop}
    (hfresh : ∀ role method connectionId peerSuites entropy suitesInError,
      P role { (Material.fresh endpoint role method connectionId peerSuites entropy).1 with
        suitesInError })
    (hstarted : ∀ (e : Engine) sequence a, e.settings = settings → e.endpoint = endpoint →
      (e.check1 sequence).result = .ok (some a) → P .responder (e.acceptedMaterial a))
    (hedit : ∀ (e : Engine) s m, e.settings = settings → e.endpoint = endpoint → P s.role s.material →
      e.Edit s m → P s.role m)
    (h : Reachable settings endpoint e) (hs : s ∈ e.sessions.sessions) : P s.role s.material := by
  induction h generalizing s with
  | created hcreate =>
    obtain ⟨profile, -, rfl⟩ := create_eq_ok.mp hcreate
    rw [mem_sessions_initial hs, startSession_role, startSession_material]
    exact hfresh ..
  | @acted e h action ih =>
    obtain ⟨hsettings, hendpoint, -⟩ := h.coherent
    obtain ⟨n, hn⟩ := mem_sessions_iff.mp hs
    cases action with
    | call call =>
      cases call_source hn with
      | edited hs hrole hmaterial =>
        rw [hrole]
        exact hedit _ _ _ hsettings hendpoint (ih (mem_sessions_iff.mpr ⟨n, hs⟩)) hmaterial
      | started _ ha hrole hmaterial =>
        rw [hrole, hmaterial]
        exact hstarted _ _ _ hsettings hendpoint ha
    | reset =>
      rcases reset_session hn with ⟨-, -, hrole, hmaterial⟩ | ⟨-, t, ht, hrole, hmaterial⟩
      · rw [hrole, hmaterial, renewed, hendpoint]
        exact hfresh ..
      · rw [hrole, hmaterial]
        exact ih (mem_sessions_iff.mpr ⟨n, ht⟩)

end EdhocLab.Engine
