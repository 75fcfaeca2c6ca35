import EdhocLab.Proofs.Engine.Call

/-! # Changes of an engine

An action leaves an engine alone or changes it in one of ten ways, each with the check that came
before it.  Invariants of runs are proved by cases over these changes and never unfold a call.
-/
namespace EdhocLab.Engine

open Handshake

/-- Keeps the hash of a first message that was written for the current session. -/
def keepHash (e : Engine) (hashMessage1 : Bytes) : Engine :=
  e.setCurrent { e.current with material := { e.current.material with hashMessage1 } }

/-- What an action does to an engine. -/
inductive Change (e : Engine) : Engine → Prop
  | unchanged : Change e e
  /-- The first message selected a suite, but could not be encoded or was not an Initiator's. -/
  | offered {offer : Offer1} (h : e.offer1.result = .ok offer) :
      Change e (e.selectSuite e.current.role offer.suite)
  | written1 {offer : Offer1} (h : e.offer1.result = .ok offer) (hashMessage1 : Bytes) :
      Change e ((e.selectSuite e.current.role offer.suite).keepHash hashMessage1)
  | written2 {message : Bytes} {phase2 : Phase2} (h : e.build2.result = .ok (message, phase2))
      (hrole : e.current.role = .responder) :
      Change e (e.setCurrent { e.current with material := { e.current.material with phase2 } })
  | written3 {message : Bytes} {phase3 : Phase3} (h : e.build3.result = .ok (message, phase3))
      (hrole : e.current.role = .initiator) :
      Change e (e.settle e.sessions.currentHandle
        { e.current.material with phase3, message3 := message }).value
  | accepted1 {sequence : Bytes} {a : Accepted1} (h : (e.check1 sequence).result = .ok (some a)) :
      Change e (e.accept1 a).value
  | accepted2 {sequence : Bytes} {handle : e.sessions.Handle} {material : Material}
      (h : (e.check2 sequence).result = .ok (handle, material))
      (hrole : (e.sessions.get handle).role = .initiator) :
      Change e { e with sessions := e.sessions.set handle { e.sessions.get handle with material } }
  | accepted3 {sequence : Bytes} {handle : e.sessions.Handle} {material : Material}
      (h : (e.check3 sequence).result = .ok (handle, material))
      (hrole : (e.sessions.get handle).role = .responder) :
      Change e (e.settle handle material).value
  | acceptedError {sequence : Bytes} {handle : e.sessions.Handle} {peerSuites : List Int}
      (h : (e.checkError sequence).result = .ok (handle, some peerSuites)) :
      Change e { e with sessions := e.sessions.set handle { e.sessions.get handle with
        material := { (e.sessions.get handle).material with peerSuites } } }
  | replaced (h : e.settings.sessionReset = true) : Change e e.reset.value
  | released (h : e.settings.sessionReset = false) :
      Change e (e.setCurrent { e.current with oscoreReady := false })

section Cases

variable (e : Engine) (sequence : Bytes)

theorem writeMessage1_change : Change e e.writeMessage1.value.2 := by
  rw [writeMessage1_value]
  cases h : e.offer1.result with
  | error _ => exact .unchanged
  | ok offer =>
    dsimp only
    cases KeySchedule.encodeItems (e.leadingTrue ++
        elements1 (e.selectSuite e.current.role offer.suite).current.material offer) with
    | error _ => exact .offered h
    | ok message =>
      dsimp only
      split
      · exact .offered h
      · exact .written1 h _

theorem writeMessage2_change : Change e e.writeMessage2.value.2 := by
  rw [writeMessage2_value]
  cases h : e.build2.result with
  | error _ => exact .unchanged
  | ok built =>
    cases hrole : e.current.role with
    | initiator => exact .unchanged
    | responder => exact .written2 h hrole

theorem writeMessage3_change : Change e e.writeMessage3.value.2 := by
  rw [writeMessage3_value]
  cases h : e.build3.result with
  | error _ => exact .unchanged
  | ok built =>
    cases hrole : e.current.role with
    | responder => exact .unchanged
    | initiator => exact .written3 h hrole

theorem readMessage1_change : Change e (e.readMessage1 sequence).value.2 := by
  rw [readMessage1_value]
  cases h : (e.check1 sequence).result with
  | error _ => exact .unchanged
  | ok accepted =>
    cases accepted with
    | none => exact .unchanged
    | some a => exact .accepted1 h

theorem readMessage2_change : Change e (e.readMessage2 sequence).value.2 := by
  rw [readMessage2_value]
  cases h : (e.check2 sequence).result with
  | error _ => exact .unchanged
  | ok found =>
    cases hrole : (e.sessions.get found.1).role with
    | responder => simpa only [hrole] using Change.unchanged
    | initiator => simpa only [hrole] using Change.accepted2 h hrole

theorem readMessage3_change : Change e (e.readMessage3 sequence).value.2 := by
  rw [readMessage3_value]
  cases h : (e.check3 sequence).result with
  | error _ => exact .unchanged
  | ok found =>
    cases hrole : (e.sessions.get found.1).role with
    | initiator => simpa only [hrole] using Change.unchanged
    | responder => simpa only [hrole] using Change.accepted3 h hrole

theorem readError_change : Change e (e.readError sequence).value.2 := by
  rw [readError_value]
  cases h : (e.checkError sequence).result with
  | error _ => exact .unchanged
  | ok found =>
    obtain ⟨handle, suites⟩ := found
    cases suites with
    | none => exact .unchanged
    | some peerSuites => exact .acceptedError h

/-- Every action changes an engine in one of the ways above. -/
theorem act_change (action : Action) : Change e (e.act action) := by
  cases action with
  | reset =>
    change Change e e.resetSession.value
    rw [resetSession]
    cases h : e.settings.sessionReset with
    | true => exact .replaced h
    | false => exact .released h
  | call call =>
    cases call with
    | writeMessage1 => exact e.writeMessage1_change
    | writeMessage2 => exact e.writeMessage2_change
    | writeMessage3 => exact e.writeMessage3_change
    | writeMessage4 =>
      change Change e e.writeMessage4.value.2
      rw [writeMessage4_value]
      exact .unchanged
    | writeError code diagnostic =>
      change Change e (e.writeError code diagnostic).value.2
      rw [writeError_value]
      exact .unchanged
    | readMessage1 sequence => exact e.readMessage1_change sequence
    | readMessage2 sequence => exact e.readMessage2_change sequence
    | readMessage3 sequence => exact e.readMessage3_change sequence
    | readMessage4 sequence =>
      change Change e (e.readMessage4 sequence).value.2
      rw [readMessage4_value]
      exact .unchanged
    | readError sequence => exact e.readError_change sequence

end Cases

/-- The queues belong to the engine, and no action on its sessions changes them. -/
theorem Change.exchanger_eq {e e' : Engine} (h : Change e e') : e'.exchanger = e.exchanger := by
  cases h <;> rfl

/-- A property that a created engine has and that changes preserve holds on every run. -/
theorem Reachable.induction_on_changes {settings : Settings} {endpoint : Endpoint}
    {P : Engine → Prop}
    (hinitial : ∀ profile entropy, endpoint.profile? settings.edhocUri = some profile →
      P (initial settings endpoint profile entropy))
    (hchange : ∀ e e', P e → Change e e' → P e') {e : Engine}
    (h : Reachable settings endpoint e) : P e := by
  induction h with
  | created hcreate =>
    obtain ⟨profile, hprofile, rfl⟩ := create_eq_ok.mp hcreate
    exact hinitial profile _ hprofile
  | @acted e h action ih => exact hchange e _ ih (e.act_change action)

end EdhocLab.Engine
