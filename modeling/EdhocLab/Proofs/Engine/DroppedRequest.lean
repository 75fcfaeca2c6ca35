import EdhocLab.Proofs.Engine.CombinedRequest
import EdhocLab.Proofs.Transport.Exchange

/-! # Dropped requests

A request that is dropped on its way in leaves an engine as it was, but for the record of a third
message that was not accepted.  One that is held back on its way out leaves itself as it was, too.
-/
namespace EdhocLab.Engine

open Coap (Packet)
open Transport (Combined.JoinError Exchange)

variable {e : Engine} {packet : Packet}

section Incoming

/-- The engine with a draft, if there is room for it. -/
def withDraft (e : Engine) (exchange : Exchange) : Engine :=
  { e with exchanger := { e.exchanger with draft := e.exchanger.draft.offer exchange } }

/-- The engine with a finished exchange, if there is room for it. -/
def withReceived (e : Engine) (exchange : Exchange) : Engine :=
  { e with exchanger := { e.exchanger with received := e.exchanger.received.offer exchange } }

theorem recordRequest_value (e : Engine) (packet : Packet) :
    (e.recordRequest packet).value = e.withDraft (exchangeOf packet) := by
  simp only [recordRequest, Traced.value_bind, Traced.value_pure,
    Transport.Exchanger.offerDraft_value]
  rfl

theorem recordReceived_value (e : Engine) (exchange : Exchange) :
    (e.recordReceived exchange).value = e.withReceived exchange := by
  simp only [recordReceived, Traced.value_bind, Traced.value_pure,
    Transport.Exchanger.offerReceived_value]
  rfl

theorem readMessage3_rejected {message3 : Bytes} (h : (e.readMessage3 message3).value.1 = false) :
    (e.readMessage3 message3).value.2 = e := by
  have hanswer : (e.perform (.readMessage3 message3)).value.1 = .read false := congrArg Answer.read h
  exact act_of_rejected hanswer

/-- What comes of an incoming request: whether it continues, the request behind it and the engine. -/
inductive Handled (e : Engine) (packet : Packet) : Bool × Packet × Engine → Prop
  | plain (hedhoc : hasEdhoc packet = false) :
      Handled e packet (true, packet, e.withDraft (exchangeOf packet))
  | dropped {reason : Dropped} (hedhoc : hasEdhoc packet)
      (h : e.splitRequest packet = .error reason) : Handled e packet (false, packet, e)
  | accepted {message3 payload : Bytes} (hedhoc : hasEdhoc packet)
      (h : e.splitRequest packet = .ok (message3, payload))
      (haccepted : (e.readMessage3 message3).value.1 = true) :
      Handled e packet (true, { packet with payload },
        (e.readMessage3 message3).value.2.withDraft (exchangeOf packet))
  | rejected {message3 payload : Bytes} (hedhoc : hasEdhoc packet)
      (h : e.splitRequest packet = .ok (message3, payload))
      (hrejected : (e.readMessage3 message3).value.1 = false) :
      Handled e packet (false, { packet with payload }, e.withReceived (.failed packet.messageId))

/-- Every incoming request is handled in one of the ways above. -/
theorem receiveRequest_handled (e : Engine) (packet : Packet) :
    Handled e packet (e.receiveRequest packet).value := by
  unfold receiveRequest
  cases hedhoc : hasEdhoc packet with
  | false =>
    simp only [Bool.not_false, if_true, Traced.value_bind, Traced.value_pure, recordRequest_value]
    exact .plain hedhoc
  | true =>
    simp only [Bool.not_true, Bool.false_eq_true, if_false]
    cases hsplit : e.splitRequest packet with
    | error reason => exact .dropped hedhoc hsplit
    | ok parts =>
      obtain ⟨message3, payload⟩ := parts
      simp only [Traced.value_bind]
      cases hread : (e.readMessage3 message3).value.1 with
      | true =>
        simp only [if_true, Traced.value_bind, Traced.value_pure, recordRequest_value]
        exact .accepted hedhoc hsplit hread
      | false =>
        simp only [Bool.false_eq_true, if_false, Traced.value_bind, Traced.value_pure,
          recordReceived_value, readMessage3_rejected hread]
        exact .rejected hedhoc hsplit hread

/-- A full queue stays as it is, any other gains the new entry. -/
theorem withReceived_received (e : Engine) (exchange : Exchange) :
    (e.withReceived exchange).exchanger.received = e.exchanger.received ∨
      (e.withReceived exchange).exchanger.received =
        { e.exchanger.received with items := e.exchanger.received.items ++ [exchange] } := by
  rw [withReceived, Transport.Queue.offer_eq]
  split
  · exact .inr rfl
  · exact .inl rfl

end Incoming

section Outgoing

/-- A request on its way out through an engine. -/
structure Passing where
  engine : Engine
  packet : Packet

/-- Handles an outgoing request in place: the answer only tells whether it is sent, and what is sent
is what the request has become. -/
def sendInPlace (uri : String) : StateT Passing Traced (Except Combined.JoinError Bool) := do
  let passing ← get
  if !(hasEdhoc passing.packet && hasOscore passing.packet) then return .ok true
  match passing.engine.pendingMessage3 uri with
  | .error reason => do
    liftM (Traced.log .error reason.message)
    return .ok false
  | .ok (message3, context) =>
    match Transport.Combined.join passing.engine.settings.combinedLayout message3
        passing.engine.settings.prependsOnSend passing.packet.payload
        context.maxUnfragmentedSize with
    | .error error => do
      liftM (Traced.log .error error.message)
      return .error error
    | .ok payload => do
      set { passing with packet := { passing.packet with payload } }
      return .ok true

/-- The answer of a request that was handled in place, and what it left, from the request that goes
out or the error. -/
def Passing.after (passing : Passing) :
    Except Combined.JoinError (Bool × Packet) → Except Combined.JoinError Bool × Passing
  | .ok (sent, packet) => (.ok sent, { passing with packet })
  | .error error => (.error error, passing)

/-- Handling a request in place and returning what goes out are the same. -/
theorem sendInPlace_eq (uri : String) (passing : Passing) :
    (sendInPlace uri).run passing =
      passing.after <$> passing.engine.sendRequest uri passing.packet := by
  obtain ⟨e, packet⟩ := passing
  unfold sendInPlace sendRequest
  simp only [StateT.run_bind, StateT.run_get, pure_bind]
  split
  · rfl
  cases hpending : e.pendingMessage3 uri with
  | error reason => rfl
  | ok pending =>
    obtain ⟨message3, context⟩ := pending
    dsimp only
    cases Transport.Combined.join e.settings.combinedLayout message3 e.settings.prependsOnSend
      packet.payload context.maxUnfragmentedSize with
    | error error => rfl
    | ok payload => rfl

/-- A request that is held back is not changed. -/
theorem sendRequest_heldBack {uri : String} {packet' : Packet}
    (h : (e.sendRequest uri packet).value = .ok (false, packet')) : packet' = packet := by
  unfold sendRequest at h
  split at h
  · cases h
  split at h
  · cases h
    rfl
  · split at h <;> cases h

/-- Only a request that is sent is changed. -/
theorem sendInPlace_unsent (uri : String) (passing : Passing)
    (h : ((sendInPlace uri).run passing).value.1 ≠ .ok true) :
    ((sendInPlace uri).run passing).value.2 = passing := by
  have heq : ((sendInPlace uri).run passing).value =
      passing.after (passing.engine.sendRequest uri passing.packet).value :=
    congrArg Traced.value (sendInPlace_eq uri passing)
  rw [heq] at h ⊢
  cases hanswer : (passing.engine.sendRequest uri passing.packet).value with
  | error error => rfl
  | ok answer =>
    obtain ⟨sent, packet'⟩ := answer
    cases sent with
    | true => exact absurd (by rw [hanswer]; rfl) h
    | false =>
      obtain rfl := sendRequest_heldBack hanswer
      rfl

end Outgoing

/-- A request that is dropped on its way in leaves all of the engine as it was, with at most one more
finished exchange, its own that failed.  One that is held back on its way out is not changed, and if
it is handled in place, no error changes it or the engine either. -/
theorem dropped_request_leaves_record (e : Engine) (uri : String) (packet : Packet) :
    (∀ packet' e', (e.receiveRequest packet).value = (false, packet', e') →
      e' = { e with exchanger := e'.exchanger } ∧
      e'.exchanger.draft = e.exchanger.draft ∧
      (e'.exchanger.received = e.exchanger.received ∨
        ∃ exchange : Exchange, exchange.unsuccessful = true ∧
          exchange.messageId = packet.messageId ∧ e'.exchanger.received =
            { e.exchanger.received with items := e.exchanger.received.items ++ [exchange] })) ∧
    (∀ packet', (e.sendRequest uri packet).value = .ok (false, packet') → packet' = packet) ∧
    (∀ answer passing', ((sendInPlace uri).run { engine := e, packet }).value = (answer, passing') →
      answer = .ok false ∨ (∃ error, answer = .error error) →
      passing' = { engine := e, packet }) := by
  refine ⟨?_, fun packet' => sendRequest_heldBack, ?_⟩
  · intro packet' e' h
    have hhandled := e.receiveRequest_handled packet
    rw [h] at hhandled
    cases hhandled with
    | dropped => exact ⟨rfl, rfl, .inl rfl⟩
    | rejected =>
      refine ⟨rfl, rfl, ?_⟩
      exact (e.withReceived_received _).imp_right fun hgains => ⟨_, rfl, rfl, hgains⟩
  · intro answer passing' h hunsent
    have hleft := sendInPlace_unsent uri { engine := e, packet } (by
      rw [h]
      rintro rfl
      simp at hunsent)
    rwa [h] at hleft

/-- A third message that is not one is recorded, and a request for which there is no third message or
no context is not sent. -/
theorem acquainted_drop : ∃ e', (callee.receiveRequest
      { protectedRequest [0x36] with payload := [0x40, 0xaa] }).value =
        (false, { protectedRequest [0x36] with payload := [0xaa] }, e') ∧
    e' = { callee with exchanger := e'.exchanger } ∧
    e'.exchanger.received.items = [Exchange.failed 7] ∧
    ((sendInPlace "").run { engine := caller, packet := protectedRequest [0] }).value =
      (.error .invalidMessage3, { engine := caller, packet := protectedRequest [0] }) ∧
    ((sendInPlace "coap://localhost").run
      { engine := caller, packet := protectedRequest [0] }).value =
        (.ok false, { engine := caller, packet := protectedRequest [0] }) := by
  obtain ⟨hdropped, -⟩ := dropped_request_leaves_record callee ""
    { protectedRequest [0x36] with payload := [0x40, 0xaa] }
  have hvalue : (callee.receiveRequest
      { protectedRequest [0x36] with payload := [0x40, 0xaa] }).value =
        (false, { protectedRequest [0x36] with payload := [0xaa] }, _) :=
    Prod.ext (by rfl) (Prod.ext (by rfl) rfl)
  have hjoin : ((sendInPlace "").run
      { engine := caller, packet := protectedRequest [0] }).value.1 = .error .invalidMessage3 := by
    rfl
  have hcontext : ((sendInPlace "coap://localhost").run
      { engine := caller, packet := protectedRequest [0] }).value.1 = .ok false := by
    rfl
  have hunsent uri := (dropped_request_leaves_record caller uri (protectedRequest [0])).2.2 _ _ rfl
  exact ⟨_, hvalue, (hdropped _ _ hvalue).1, by rfl,
    Prod.ext hjoin (hunsent "" (.inr ⟨_, hjoin⟩)),
    Prod.ext hcontext (hunsent "coap://localhost" (.inl hcontext))⟩

end EdhocLab.Engine
