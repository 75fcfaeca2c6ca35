import EdhocLab.Proofs.Engine.Repetition

/-! # The scope of a call

A call is for one session, and where the part of that session leaves nothing to be done, the engine
stays as it is.  Otherwise the session gets new contents or, for a first message, another session is
started.  No other session changes, and what identifies a session never does.
-/
namespace EdhocLab

open Handshake

namespace Call

/-- Whether a call leaves nothing to be kept in a session with the given part. -/
def isIdle (role : Role) : Call → Bool
  | .readMessage1 _ | .writeMessage2 | .readMessage3 _ => role == .initiator
  | .readMessage2 _ | .writeMessage3 => role == .responder
  | .writeMessage4 | .readMessage4 _ | .writeError .. => true
  | .writeMessage1 | .readError _ => false

def isReadMessage1 : Call → Bool
  | .readMessage1 _ => true
  | _ => false

def isReadError : Call → Bool
  | .readError _ => true
  | _ => false

/-- What a call keeps of the session that it is for. -/
structure Keeps (call : Call) (before after : Session) : Prop where
  role_eq : after.role = before.role
  method_eq : after.material.method = before.material.method
  connectionId_eq : after.material.connectionId = before.material.connectionId
  keys_eq : call ≠ .writeMessage1 →
    after.material.suite = before.material.suite ∧
    after.material.ephemeralKey = before.material.ephemeralKey ∧
    after.material.credential = before.material.credential
  peerSuites_eq : call.isReadError = false →
    after.material.peerSuites = before.material.peerSuites

theorem Keeps.refl (call : Call) (s : Session) : call.Keeps s s :=
  ⟨rfl, rfl, rfl, fun _ => ⟨rfl, rfl, rfl⟩, fun _ => rfl⟩

/-- Installing a context changes nothing that a call keeps. -/
theorem Keeps.setup {call : Call} {before after : Session} (h : call.Keeps before after)
    (settings : Settings) (uri : String) (store : Oscore.Store) :
    call.Keeps before (after.setup settings uri store).value.1 where
  role_eq := (Session.setup_role ..).trans h.role_eq
  method_eq := by rw [Session.setup_material, h.method_eq]
  connectionId_eq := by rw [Session.setup_material, h.connectionId_eq]
  keys_eq hcall := by
    rw [Session.setup_material]
    exact h.keys_eq hcall
  peerSuites_eq hcall := by rw [Session.setup_material, h.peerSuites_eq hcall]

end Call

namespace Engine

variable {e e' : Engine} {call : Call}

/-- The session that the identifier in front of a message refers to. -/
def addressee? (e : Engine) (field : Field) (sequence : Bytes) : Option e.sessions.Handle :=
  (decodeItems sequence >>= e.addressed field).toOption.map Prod.fst

theorem addressee?_eq_some {field : Field} {sequence : Bytes} {items rest : List Cbor.Value}
    {handle : e.sessions.Handle} (hitems : decodeItems sequence = .ok items)
    (haddressed : e.addressed field items = .ok (handle, rest)) :
    e.addressee? field sequence = some handle := by
  rw [addressee?, hitems, ok_bind, haddressed]
  rfl

/-- The session that a call is for: the current one, unless a message has arrived for a session. -/
def sessionFor? (e : Engine) : Call → Option e.sessions.Handle
  | .readMessage2 sequence | .readMessage4 sequence => e.addressee? .cI sequence
  | .readMessage3 sequence => e.addressee? .cR sequence
  | .readError sequence => e.addressee? .cX sequence
  | _ => some e.sessions.currentHandle

/-- The session with a number. -/
def session? (e : Engine) (n : Nat) : Option Session := e.sessions.sessions[n]?

/-- What a call does to the sessions of an engine, if it does anything. -/
inductive Effect (e : Engine) (call : Call) : Engine → Prop
  | nothing : Effect e call e
  | replaced {e' : Engine} {handle : e.sessions.Handle} {s : Session}
      (hfor : e.sessionFor? call = some handle)
      (hbusy : call.isIdle (e.sessions.get handle).role = false)
      (hcall : call.isReadMessage1 = false)
      (hsessions : e'.sessions = e.sessions.set handle s)
      (hkeeps : call.Keeps (e.sessions.get handle) s) : Effect e call e'
  | added {e' : Engine} {id : Bytes} {s : Session}
      (hfor : e.sessionFor? call = some e.sessions.currentHandle)
      (hbusy : call.isIdle e.current.role = false)
      (hcall : call.isReadMessage1 = true)
      (hsessions : e'.sessions = e.sessions.add id s) : Effect e call e'

/-- A session that gets new material is kept as far as its material is. -/
theorem Effect.settle {handle : e.sessions.Handle} {material : Material}
    (hfor : e.sessionFor? call = some handle)
    (hbusy : call.isIdle (e.sessions.get handle).role = false) (hcall : call.isReadMessage1 = false)
    (hkeeps : call.Keeps (e.sessions.get handle) { e.sessions.get handle with material }) :
    e.Effect call (e.settle handle material).value := by
  have hsessions : (e.settle handle material).value.sessions = e.sessions.set handle
      (Session.setup { e.sessions.get handle with material } e.settings e.endpoint.oscoreUri
        e.contexts).value.1 := rfl
  exact .replaced hfor hbusy hcall hsessions (hkeeps.setup ..)

section Cases

variable (e) (sequence : Bytes)

theorem writeMessage1_effect : e.Effect .writeMessage1 e.writeMessage1.value.2 := by
  rw [writeMessage1_value]
  cases e.offer1.result with
  | error _ => exact .nothing
  | ok offer =>
    let material := (e.current.material.selectSuite e.endpoint e.current.role offer.suite e.entropy).1
    have hkeeps (hashMessage1 : Bytes) : Call.writeMessage1.Keeps e.current
        { e.current with material := { material with hashMessage1 } } :=
      ⟨rfl, Material.selectSuite_method .., Material.selectSuite_connectionId ..,
        fun hcall => absurd rfl hcall, fun _ => Material.selectSuite_peerSuites ..⟩
    have hcurrent : (e.selectSuite e.current.role offer.suite).current =
        { e.current with material } := SessionTable.currentSession_set_current ..
    have hselected : e.Effect .writeMessage1 (e.selectSuite e.current.role offer.suite) :=
      .replaced rfl rfl rfl rfl (hkeeps material.hashMessage1)
    dsimp only
    split
    · exact hselected
    · split
      · exact hselected
      · refine .replaced rfl rfl rfl (SessionTable.set_set rfl _) ?_
        rw [hcurrent]
        exact hkeeps _

theorem writeMessage2_effect : e.Effect .writeMessage2 e.writeMessage2.value.2 := by
  rw [writeMessage2_value]
  cases e.build2.result with
  | error _ => exact .nothing
  | ok built =>
    cases hrole : e.current.role with
    | initiator => exact .nothing
    | responder =>
      refine .replaced rfl ?_ rfl rfl ⟨rfl, rfl, rfl, fun _ => ⟨rfl, rfl, rfl⟩, fun _ => rfl⟩
      exact congrArg (· == Role.initiator) hrole

theorem writeMessage3_effect : e.Effect .writeMessage3 e.writeMessage3.value.2 := by
  rw [writeMessage3_value]
  cases e.build3.result with
  | error _ => exact .nothing
  | ok built =>
    cases hrole : e.current.role with
    | responder => exact .nothing
    | initiator =>
      refine .settle rfl ?_ rfl ⟨rfl, rfl, rfl, fun _ => ⟨rfl, rfl, rfl⟩, fun _ => rfl⟩
      exact congrArg (· == Role.responder) hrole

theorem readMessage1_effect :
    e.Effect (.readMessage1 sequence) (e.readMessage1 sequence).value.2 := by
  rw [readMessage1_value]
  cases hcheck : (e.check1 sequence).result with
  | error _ => exact .nothing
  | ok accepted =>
    cases accepted with
    | none => exact .nothing
    | some a =>
      exact .added rfl (congrArg (· == Role.initiator) (check1_eq_ok hcheck).1) rfl rfl

theorem readMessage2_effect :
    e.Effect (.readMessage2 sequence) (e.readMessage2 sequence).value.2 := by
  rw [readMessage2_value]
  cases hcheck : (e.check2 sequence).result with
  | error _ => exact .nothing
  | ok found =>
    obtain ⟨handle, material⟩ := found
    obtain ⟨masked, o, prk3e2m, hparse, rfl, -, -, -, -, rfl⟩ := check2_eq_ok hcheck
    obtain ⟨items, hitems, haddressed, -⟩ := parse2_eq_ok hparse
    cases hrole : (e.sessions.get masked.handle).role with
    | responder => simpa only [hrole] using Effect.nothing
    | initiator =>
      simp only [hrole]
      refine .replaced (addressee?_eq_some hitems haddressed) ?_ rfl rfl
        ⟨hrole.symm, rfl, rfl, fun _ => ⟨rfl, rfl, rfl⟩, fun _ => rfl⟩
      exact congrArg (· == Role.responder) hrole

theorem readMessage3_effect :
    e.Effect (.readMessage3 sequence) (e.readMessage3 sequence).value.2 := by
  rw [readMessage3_value]
  cases hcheck : (e.check3 sequence).result with
  | error _ => exact .nothing
  | ok found =>
    obtain ⟨handle, material⟩ := found
    obtain ⟨ciphertext3, o, prk4e3m, phase3, hparse, -, -, -, -, -, rfl⟩ := check3_eq_ok hcheck
    obtain ⟨items, hitems, haddressed⟩ := parse3_eq_ok hparse
    cases hrole : (e.sessions.get handle).role with
    | initiator => simpa only [hrole] using Effect.nothing
    | responder =>
      simp only [hrole]
      refine .settle (addressee?_eq_some hitems haddressed) ?_ rfl
        ⟨rfl, rfl, rfl, fun _ => ⟨rfl, rfl, rfl⟩, fun _ => rfl⟩
      exact congrArg (· == Role.initiator) hrole

theorem readError_effect : e.Effect (.readError sequence) (e.readError sequence).value.2 := by
  rw [readError_value]
  cases hcheck : (e.checkError sequence).result with
  | error _ => exact .nothing
  | ok found =>
    obtain ⟨handle, suites⟩ := found
    obtain ⟨code, info, hparse, -⟩ := checkError_eq_ok hcheck
    obtain ⟨items, v, hitems, -, haddressed, -⟩ := parseError_eq_ok hparse
    cases suites with
    | none => exact .nothing
    | some peerSuites =>
      exact .replaced (addressee?_eq_some hitems haddressed) rfl rfl rfl
        ⟨rfl, rfl, rfl, fun _ => ⟨rfl, rfl, rfl⟩, nofun⟩

theorem call_effect (call : Call) : e.Effect call (e.act (.call call)) := by
  cases call with
  | writeMessage1 => exact e.writeMessage1_effect
  | writeMessage2 => exact e.writeMessage2_effect
  | writeMessage3 => exact e.writeMessage3_effect
  | writeMessage4 =>
    change e.Effect _ e.writeMessage4.value.2
    rw [writeMessage4_value]
    exact .nothing
  | writeError code diagnostic =>
    change e.Effect _ (e.writeError code diagnostic).value.2
    rw [writeError_value]
    exact .nothing
  | readMessage1 sequence => exact e.readMessage1_effect sequence
  | readMessage2 sequence => exact e.readMessage2_effect sequence
  | readMessage3 sequence => exact e.readMessage3_effect sequence
  | readMessage4 sequence =>
    change e.Effect _ (e.readMessage4 sequence).value.2
    rw [readMessage4_value]
    exact .nothing
  | readError sequence => exact e.readError_effect sequence

end Cases

section Scope

/-- Sessions that a call is not for stay as they are, and all sessions if it starts another one. -/
theorem Effect.others (h : e.Effect call e') (handle : e.sessions.Handle)
    (hother : e.sessionFor? call ≠ some handle ∨ call.isReadMessage1) :
    e'.session? handle = some (e.sessions.get handle) := by
  cases h with
  | nothing => exact List.getElem?_eq_getElem handle.isLt
  | @replaced _ found _ hfor _ hcall hsessions _ =>
    have hne : found.val ≠ handle.val := by
      rintro hval
      obtain rfl := Fin.ext hval
      rcases hother with hother | hother
      · exact hother hfor
      · rw [hcall] at hother
        cases hother
    rw [session?, hsessions, SessionTable.sessions_set, List.getElem?_set_ne hne]
    exact List.getElem?_eq_getElem handle.isLt
  | added _ _ _ hsessions =>
    rw [session?, hsessions, SessionTable.sessions_add, List.getElem?_append_left handle.isLt]
    exact List.getElem?_eq_getElem handle.isLt

/-- A call that leaves nothing to be kept in its session keeps the engine. -/
theorem Effect.of_idle (h : e.Effect call e') (hidle : ∀ handle, e.sessionFor? call = some handle →
    call.isIdle (e.sessions.get handle).role = true) : e' = e := by
  cases h with
  | nothing => rfl
  | replaced hfor hbusy =>
    rw [hidle _ hfor] at hbusy
    cases hbusy
  | added hfor hbusy =>
    rw [show e.current = e.sessions.get e.sessions.currentHandle from rfl, hidle _ hfor] at hbusy
    cases hbusy

theorem Effect.keeps (h : e.Effect call e') (handle : e.sessions.Handle) :
    ∃ s, e'.session? handle = some s ∧ call.Keeps (e.sessions.get handle) s := by
  by_cases hother : e.sessionFor? call ≠ some handle ∨ call.isReadMessage1
  · exact ⟨_, h.others handle hother, .refl call _⟩
  · cases h with
    | nothing => exact ⟨_, List.getElem?_eq_getElem handle.isLt, .refl call _⟩
    | @replaced _ found s hfor _ _ hsessions hkeeps =>
      rw [not_or, not_not] at hother
      cases hfor.symm.trans hother.1
      refine ⟨s, ?_, hkeeps⟩
      rw [session?, hsessions, SessionTable.sessions_set, List.getElem?_set_self handle.isLt]
    | added _ _ hcall => exact absurd (.inr hcall) hother

/-- A call changes no session but the one that it is for, which keeps its part, method and
identifier, its own keys but for a first message that is written, and the suites of its peer but
for an error message that is read.  The engine does not change where the part of the session leaves
nothing to be kept. -/
theorem act_call_confined (e : Engine) (call : Call) :
    (∀ handle, e.sessionFor? call ≠ some handle ∨ call.isReadMessage1 →
      (e.act (.call call)).session? handle = some (e.sessions.get handle)) ∧
    ((∀ handle, e.sessionFor? call = some handle →
      call.isIdle (e.sessions.get handle).role = true) → e.act (.call call) = e) ∧
    ∀ handle : e.sessions.Handle, ∃ s, (e.act (.call call)).session? handle = some s ∧
      call.Keeps (e.sessions.get handle) s := by
  have h := e.call_effect call
  exact ⟨h.others, h.of_idle, h.keeps⟩

end Scope

end Engine

end EdhocLab
