import EdhocLab.Engine.ErrorMessage
import EdhocLab.Engine.Message1
import EdhocLab.Engine.Message3
import EdhocLab.Engine.Message4
import EdhocLab.Proofs.Check
import EdhocLab.Proofs.Engine.Table

/-! # Runs of an engine

The calls that build and read messages, as data, and the engines that any sequence of them leads
to.  Every call is described once by its value: the result of its checks decides the answer and
the engine after it.
-/
namespace EdhocLab

open Handshake

/-- The calls that build or read one message. -/
inductive Call
  | writeMessage1
  | writeMessage2
  | writeMessage3
  | writeMessage4
  | writeError (code : Int) (diagnostic : Option String)
  | readMessage1 (sequence : Bytes)
  | readMessage2 (sequence : Bytes)
  | readMessage3 (sequence : Bytes)
  | readMessage4 (sequence : Bytes)
  | readError (sequence : Bytes)

/-- What a call answers: a message if one was built, or whether one was accepted. -/
inductive Answer
  | written (message : Option Bytes)
  | read (accepted : Bool)
  deriving DecidableEq

/-- What drives an engine: calls, and resets of the current session. -/
inductive Action
  | call (call : Call)
  | reset

namespace Engine

/-- Performs a call. -/
def perform (e : Engine) : Call → Traced (Answer × Engine)
  | .writeMessage1 => Prod.map Answer.written id <$> e.writeMessage1
  | .writeMessage2 => Prod.map Answer.written id <$> e.writeMessage2
  | .writeMessage3 => Prod.map Answer.written id <$> e.writeMessage3
  | .writeMessage4 => Prod.map Answer.written id <$> e.writeMessage4
  | .writeError code diagnostic => Prod.map Answer.written id <$> e.writeError code diagnostic
  | .readMessage1 sequence => Prod.map Answer.read id <$> e.readMessage1 sequence
  | .readMessage2 sequence => Prod.map Answer.read id <$> e.readMessage2 sequence
  | .readMessage3 sequence => Prod.map Answer.read id <$> e.readMessage3 sequence
  | .readMessage4 sequence => Prod.map Answer.read id <$> e.readMessage4 sequence
  | .readError sequence => Prod.map Answer.read id <$> e.readError sequence

/-- The engine after an action. -/
def act (e : Engine) : Action → Engine
  | .call call => (e.perform call).value.2
  | .reset => e.resetSession.value

/-- The engines that an endpoint with some source of keys gets to by any actions. -/
inductive Reachable (settings : Settings) (endpoint : Endpoint) : Engine → Prop
  | created {entropy : Entropy} {e : Engine} (h : (create settings endpoint entropy).result = .ok e) :
      Reachable settings endpoint e
  | acted {e : Engine} (h : Reachable settings endpoint e) (action : Action) :
      Reachable settings endpoint (e.act action)

/-- The engine that an endpoint starts with. -/
def initial (settings : Settings) (endpoint : Endpoint) (profile : AppProfile) (entropy : Entropy) :
    Engine :=
  let started := (startSession settings endpoint (if settings.isInitiator then .initiator else .responder)
    settings.method settings.connectionId [] [] entropy).value
  let sessions := (SessionTable.single started.1).register settings.connectionId
    (SessionTable.single started.1).currentHandle
  let sessions := settings.forcedRecipientId.elim sessions fun id =>
    sessions.register id sessions.currentHandle
  let e : Engine := {
    settings, endpoint, profile, sessions, used := fun _ => false, contexts := started.2.1
    exchanger := .empty, entropy := started.2.2 }
  (e.markUsed []).markUsed settings.connectionId

theorem create_result (settings : Settings) (endpoint : Endpoint) (entropy : Entropy) :
    (create settings endpoint entropy).result =
      match endpoint.profile? settings.edhocUri with
      | none => .error .unknownProfile
      | some profile => .ok (initial settings endpoint profile entropy) := by
  unfold create
  cases endpoint.profile? settings.edhocUri with
  | none => rfl
  | some profile =>
    simp only [Check.result_bind, Check.result_lift, ok_bind, initial]
    cases settings.forcedRecipientId <;> rfl

theorem create_eq_ok {settings : Settings} {endpoint : Endpoint} {entropy : Entropy} {e : Engine} :
    (create settings endpoint entropy).result = .ok e ↔
      ∃ profile, endpoint.profile? settings.edhocUri = some profile ∧
        initial settings endpoint profile entropy = e := by
  rw [create_result]
  cases endpoint.profile? settings.edhocUri <;> simp

section Values

variable (e : Engine) (sequence : Bytes)

/-- What stands in front of the first message in a request. -/
def leadingTrue : List Cbor.Value := if e.settings.prependsOnSend then [.bool true] else []

theorem writeMessage1_value : e.writeMessage1.value =
    match e.offer1.result with
    | .error _ => (none, e)
    | .ok offer =>
      let e' := e.selectSuite e.current.role offer.suite
      let m := e'.current.material
      match KeySchedule.encodeItems (e.leadingTrue ++ elements1 m offer) with
      | .error _ => (none, e')
      | .ok message =>
        match e'.current.role with
        | .responder => (some message, e')
        | .initiator => (some message, e'.setCurrent { e'.current with material := { m with
            hashMessage1 := KeySchedule.hash (message.drop e.leadingTrue.length) } }) := by
  rw [writeMessage1, Traced.value_bind, Check.report_value]
  cases e.offer1.result with
  | error _ => rfl
  | ok offer =>
    have hleading : (if (e.selectSuite e.current.role offer.suite).settings.prependsOnSend then
        [Cbor.Value.bool true] else []) = e.leadingTrue := rfl
    simp only [Except.toOption, Traced.value_bind, Check.report_value, Check.result_ofExcept, hleading]
    cases KeySchedule.encodeItems (e.leadingTrue ++ elements1
        (e.selectSuite e.current.role offer.suite).current.material offer) with
    | error _ => rfl
    | ok message =>
      cases (e.selectSuite e.current.role offer.suite).current.role <;> rfl

theorem writeMessage2_value : e.writeMessage2.value =
    match e.build2.result with
    | .error _ => (none, e)
    | .ok (message, phase2) =>
      match e.current.role with
      | .initiator => (some message, e)
      | .responder => (some message,
          e.setCurrent { e.current with material := { e.current.material with phase2 } }) := by
  rw [writeMessage2, Traced.value_bind, Check.report_value]
  cases e.build2.result with
  | error _ => rfl
  | ok built =>
    simp only [Except.toOption]
    cases e.current.role <;> rfl

theorem writeMessage3_value : e.writeMessage3.value =
    match e.build3.result with
    | .error _ => (none, e)
    | .ok (message, phase3) =>
      match e.current.role with
      | .responder => (some message, e)
      | .initiator => (some message, (e.settle e.sessions.currentHandle
          { e.current.material with phase3, message3 := message }).value) := by
  rw [writeMessage3, Traced.value_bind, Check.report_value]
  cases e.build3.result with
  | error _ => rfl
  | ok built =>
    simp only [Except.toOption]
    cases e.current.role <;> rfl

theorem writeMessage4_value : e.writeMessage4.value = (e.build4.result.toOption, e) := by
  rw [writeMessage4, Traced.value_bind, Check.report_value]
  rfl

theorem writeError_value (code : Int) (diagnostic : Option String) :
    (e.writeError code diagnostic).value = ((e.buildError code diagnostic).toOption, e) := by
  rw [writeError, Traced.value_bind, Check.report_value]
  rfl

theorem readMessage1_value : (e.readMessage1 sequence).value =
    match (e.check1 sequence).result with
    | .error _ => (false, e)
    | .ok none => (true, e)
    | .ok (some accepted) => (true, (e.accept1 accepted).value) := by
  rw [readMessage1, Traced.value_bind, Check.report_value]
  cases (e.check1 sequence).result with
  | error _ => rfl
  | ok accepted => cases accepted <;> rfl

theorem readMessage2_value : (e.readMessage2 sequence).value =
    match (e.check2 sequence).result with
    | .error _ => (false, e)
    | .ok (h, material) =>
      match (e.sessions.get h).role with
      | .responder => (true, e)
      | .initiator =>
        (true, { e with sessions := e.sessions.set h { e.sessions.get h with material } }) := by
  rw [readMessage2, Traced.value_bind, Check.report_value]
  cases (e.check2 sequence).result with
  | error _ => rfl
  | ok found =>
    simp only [Except.toOption]
    cases (e.sessions.get found.1).role <;> rfl

theorem readMessage3_value : (e.readMessage3 sequence).value =
    match (e.check3 sequence).result with
    | .error _ => (false, e)
    | .ok (h, material) =>
      match (e.sessions.get h).role with
      | .initiator => (true, e)
      | .responder => (true, (e.settle h material).value) := by
  rw [readMessage3, Traced.value_bind, Check.report_value]
  cases (e.check3 sequence).result with
  | error _ => rfl
  | ok found =>
    simp only [Except.toOption]
    cases (e.sessions.get found.1).role <;> rfl

theorem readMessage4_value :
    (e.readMessage4 sequence).value = ((e.check4 sequence).result.toOption.isSome, e) := by
  rw [readMessage4, Traced.value_bind, Check.report_value]
  rfl

theorem readError_value : (e.readError sequence).value =
    match (e.checkError sequence).result with
    | .error _ => (false, e)
    | .ok (_, none) => (true, e)
    | .ok (h, some peerSuites) => (true, { e with
        sessions := e.sessions.set h { e.sessions.get h with
          material := { (e.sessions.get h).material with peerSuites } } }) := by
  rw [readError, Traced.value_bind, Check.report_value]
  cases (e.checkError sequence).result with
  | error _ => rfl
  | ok found =>
    obtain ⟨h, suites⟩ := found
    cases suites <;> rfl

end Values

/-- A read that fails keeps the engine. -/
theorem act_of_rejected {e : Engine} {call : Call} (h : (e.perform call).value.1 = .read false) :
    e.act (.call call) = e := by
  cases call with
  | writeMessage1 | writeMessage2 | writeMessage3 | writeMessage4 | writeError => cases h
  | readMessage1 sequence =>
    change (e.readMessage1 sequence).value.2 = e
    replace h : Answer.read (e.readMessage1 sequence).value.1 = .read false := h
    rw [readMessage1_value] at h ⊢
    cases hcheck : (e.check1 sequence).result with
    | error _ => rfl
    | ok accepted => cases accepted <;> simp [hcheck] at h
  | readMessage2 sequence =>
    change (e.readMessage2 sequence).value.2 = e
    replace h : Answer.read (e.readMessage2 sequence).value.1 = .read false := h
    rw [readMessage2_value] at h ⊢
    cases hcheck : (e.check2 sequence).result with
    | error _ => rfl
    | ok found => cases hrole : (e.sessions.get found.1).role <;> simp [hcheck, hrole] at h
  | readMessage3 sequence =>
    change (e.readMessage3 sequence).value.2 = e
    replace h : Answer.read (e.readMessage3 sequence).value.1 = .read false := h
    rw [readMessage3_value] at h ⊢
    cases hcheck : (e.check3 sequence).result with
    | error _ => rfl
    | ok found => cases hrole : (e.sessions.get found.1).role <;> simp [hcheck, hrole] at h
  | readMessage4 sequence =>
    change (e.readMessage4 sequence).value.2 = e
    rw [readMessage4_value]
  | readError sequence =>
    change (e.readError sequence).value.2 = e
    replace h : Answer.read (e.readError sequence).value.1 = .read false := h
    rw [readError_value] at h ⊢
    cases hcheck : (e.checkError sequence).result with
    | error _ => rfl
    | ok found =>
      obtain ⟨handle, suites⟩ := found
      cases suites <;> simp [hcheck] at h

end Engine

end EdhocLab
