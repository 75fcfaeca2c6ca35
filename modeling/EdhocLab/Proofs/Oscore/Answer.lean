import EdhocLab.Proofs.Oscore.Replay

/-! # Answers to the latest request

A context keeps no record of its requests.  It takes a response for the answer to the number before
its next one, which is that of its latest request only as long as nothing else has taken a number:
no response with a nonce of its own, and no message that could not be protected.
-/
namespace EdhocLab.Oscore

open Coap (Packet)

/-- Whether a number is taken for a message, which is so even if it cannot be protected. -/
def Use.takesNumber : Use → Bool
  | .request _ => true
  | .response _ answered reusePiv =>
    !reusePiv && ((Packet.ofBytes answered).mapError Error.coap >>= Context.requestParts).isOk

namespace Context

/-- Opens the response to the request with the given number. -/
def openAnswer (context : Context) (n : Nat) (message : Bytes) : Except Error Bytes := do
  let packet ← (Packet.ofBytes message).mapError Error.coap
  let value := OptionValue.decode (← optionOf packet)
  let (id, piv) := match value.piv with
    | some piv => (context.recipientId, piv)
    | none => (context.senderId, formatPiv n)
  context.unprotect packet (aad context.algorithm.coseId context.senderId (formatPiv n))
    (nonce piv id context.commonIv)

section Outstanding

variable {context : Context} {n : Nat}

/-- A response is opened as the answer to the number before the next one. -/
theorem unprotectResponse_eq (h : context.senderSequence = n + 1) (message : Bytes) :
    context.unprotectResponse message = context.openAnswer n message := by
  unfold unprotectResponse openAnswer
  cases (Packet.ofBytes message).mapError Error.coap with
  | error error => rfl
  | ok packet =>
    simp only [ok_bind]
    cases optionOf packet with
    | error error => rfl
    | ok value =>
      cases hpiv : (OptionValue.decode value).piv <;>
        simp only [ok_bind, h, Nat.succ_ne_zero, if_false, Nat.add_sub_cancel, hpiv]

theorem senderSequence_perform (context : Context) (use : Use) :
    (context.perform use).2.senderSequence =
      context.senderSequence + if use.takesNumber then 1 else 0 := by
  cases use with
  | request message => rfl
  | response message request reusePiv =>
    cases hparts : (Packet.ofBytes request).mapError Error.coap >>= requestParts with
    | error error => simp [perform, protectResponse, Use.takesNumber, hparts]
    | ok parts =>
      cases reusePiv <;> simp [perform, protectResponse, Use.takesNumber, hparts, advance]

theorem senderSequence_after (context : Context) (uses : List Use) :
    (context.after uses).senderSequence =
      context.senderSequence + uses.countP Use.takesNumber := by
  induction uses generalizing context with
  | nil => rfl
  | cons use uses ih => rw [after_cons, ih, senderSequence_perform, List.countP_cons]; omega

/-- Of the messages that were sent since, only those count that took a number. -/
theorem unprotectResponse_after {uses : List Use}
    (h : context.senderSequence + uses.countP Use.takesNumber = n + 1) (message : Bytes) :
    (context.after uses).unprotectResponse message = context.openAnswer n message := by
  have hsequence : (context.after uses).senderSequence = n + 1 := by rw [senderSequence_after, h]
  rw [unprotectResponse_eq hsequence, after_eq]
  rfl

/-- Responses are opened as answers to the latest request, unless one was sent since under a number
of its own: each message that takes a number moves the context on to the next number. -/
theorem outstanding_after (h : context.senderSequence = n + 1) (uses : List Use) :
    (∀ message, (context.after uses).unprotectResponse message =
      context.openAnswer (n + uses.countP Use.takesNumber) message) ∧
    ((∀ use ∈ uses, use.takesNumber = false) → ∀ message,
      (context.after uses).unprotectResponse message = context.unprotectResponse message) := by
  have hopens : ∀ message, (context.after uses).unprotectResponse message =
      context.openAnswer (n + uses.countP Use.takesNumber) message :=
    unprotectResponse_after (by rw [h, Nat.add_right_comm])
  refine ⟨hopens, ?_⟩
  intro hnone message
  have hcount : uses.countP Use.takesNumber = 0 := by
    rw [List.countP_eq_zero]
    intro use huse
    rw [hnone use huse]
    exact Bool.false_ne_true
  rw [hopens, hcount, unprotectResponse_eq h, Nat.add_zero]

end Outstanding

section Answer

variable {client server : Context} {n m : Nat} {message request bytes : Bytes} {reusePiv : Bool}
  {outer : Packet}

theorem openAnswer_of_reused (houter : Packet.ofBytes bytes = .ok outer)
    (hoption : optionOf outer = .ok OptionValue.empty.encode) :
    client.openAnswer n bytes =
      client.unprotect outer (aad client.algorithm.coseId client.senderId (formatPiv n))
        (nonce (formatPiv n) client.senderId client.commonIv) := by
  unfold openAnswer
  simp only [houter, mapError_ok, ok_bind, hoption]
  rfl

theorem openAnswer_of_own (hroom : m < 2 ^ 40) (houter : Packet.ofBytes bytes = .ok outer)
    (hoption : optionOf outer = .ok (OptionValue.encode
      { piv := some (formatPiv m), kidContext := none, kid := none })) :
    client.openAnswer n bytes =
      client.unprotect outer (aad client.algorithm.coseId client.senderId (formatPiv n))
        (nonce (formatPiv m) client.recipientId client.commonIv) := by
  have hannounced : OptionValue.Announced
      { piv := some (formatPiv m), kidContext := none, kid := none } :=
    OptionValue.announced_formatPiv (Nat.lt_trans hroom (by decide)) (by simp) none
  unfold openAnswer
  simp only [houter, mapError_ok, ok_bind, hoption, OptionValue.decode_encode hannounced]

/-- The answer to a request is opened as such, with the nonce of the request or one of its own. -/
theorem openAnswer_of_protectResponse (hpaired : server.Paired client)
    (hid : client.senderId = server.recipientId)
    (hrequest : (Packet.ofBytes request).mapError Error.coap >>= requestParts =
      .ok (client.senderId, formatPiv n))
    (hroom : reusePiv = false → server.senderSequence < 2 ^ 40)
    (hsendable : ∀ packet, Packet.ofBytes message = .ok packet → Sendable packet)
    (h : (server.protectResponse message request reusePiv).1 = .ok bytes) :
    ∃ packet out, Packet.ofBytes message = .ok packet ∧ client.openAnswer n bytes = .ok out ∧
      Packet.ofBytes out = .ok packet := by
  simp only [protectResponse, hrequest] at h
  cases reusePiv with
  | true =>
    obtain ⟨packet, outer, out, hread, houter, hoption, hout, hopens⟩ :=
      unprotect_of_protect hsendable h
    refine ⟨packet, out, hread, ?_, hout⟩
    rw [openAnswer_of_reused houter hoption, ← hopens client hpaired, ← hpaired.algorithm_eq, hid,
      ← hpaired.commonIv_eq]
  | false =>
    obtain ⟨packet, outer, out, hread, houter, hoption, hout, hopens⟩ :=
      unprotect_of_protect hsendable h
    refine ⟨packet, out, hread, ?_, hout⟩
    rw [openAnswer_of_own (hroom rfl) houter hoption, ← hopens client hpaired, ← hpaired.algorithm_eq,
      ← hpaired.id_eq, ← hpaired.commonIv_eq]
    rfl

/-- With a full tag, an answer with a nonce of its own is refused as the answer to a request of
which the associated data differ in one block. -/
theorem openAnswer_refused (hpaired : server.Paired client) (hlong : server.algorithm = .longTag)
    (hrequest : (Packet.ofBytes request).mapError Error.coap >>= requestParts =
      .ok (client.senderId, formatPiv n))
    (hroom : server.senderSequence < 2 ^ 40)
    (hdata : Aead.Ccm.OneBlockApart (aad 30 client.senderId (formatPiv n))
      (aad 30 client.senderId (formatPiv m)))
    (h : (server.protectResponse message request false).1 = .ok bytes) :
    client.openAnswer m bytes = .error (.aead .rejected) := by
  simp only [protectResponse, hrequest] at h
  obtain ⟨packet, plaintext, payload, -, hoptions, -, hseal, -, houter⟩ := protect_eq_ok h
  rw [hlong] at hseal
  have hrefused := Aead.Algorithm.decrypt_of_oneBlockApart hseal hdata
  rw [hpaired.key_eq] at hrefused
  have hpayload : (outerPacket packet (OptionValue.encode
      { piv := some server.nextPiv, kidContext := none, kid := none }) payload).payload = payload :=
    rfl
  rw [openAnswer_of_own hroom houter optionOf_outerPacket, ← hpaired.algorithm_eq, hlong,
    ← hpaired.id_eq, ← hpaired.commonIv_eq]
  have hopen : client.algorithm.decrypt client.recipientKey
      (nonce (formatPiv server.senderSequence) server.senderId server.commonIv)
      (aad Aead.Algorithm.longTag.coseId client.senderId (formatPiv m)) payload =
        .error .rejected := by
    rw [← hpaired.algorithm_eq, hlong]
    exact hrefused
  simp only [unprotect, checkOptions_outerPacket hoptions, ok_bind, hpayload, hopen,
    mapError_error, error_bind]

theorem requestParts_of_protectRequest (hroom : client.senderSequence < 2 ^ 40)
    (h : (client.protectRequest message).1 = .ok bytes) :
    (Packet.ofBytes bytes).mapError Error.coap >>= requestParts =
      .ok (client.senderId, client.nextPiv) := by
  obtain ⟨packet, plaintext, payload, -, -, -, -, -, houter⟩ := protect_eq_ok h
  rw [houter, mapError_ok, ok_bind]
  exact requestParts_of_option hroom optionOf_outerPacket

end Answer

section Example

variable {secret salt senderId recipientId : Bytes} {algorithm : Aead.Algorithm}
  {context client server : Context} {request response : Bytes}

/-- A response with the text `Hello World!`. -/
def helloResponse : Bytes :=
  [0x60, 0x45, 0x5d, 0x1f, 0xff, 0x48, 0x65, 0x6c, 0x6c, 0x6f, 0x20, 0x57, 0x6f, 0x72, 0x6c, 0x64,
    0x21]

def helloPacket : Packet where
  first := 0x60
  code := 0x45
  messageId := 0x5d1f
  token := []
  options := []
  payload := [0x48, 0x65, 0x6c, 0x6c, 0x6f, 0x20, 0x57, 0x6f, 0x72, 0x6c, 0x64, 0x21]

theorem read_helloResponse : Packet.ofBytes helloResponse = .ok helloPacket := rfl

theorem helloResponse_sendable (packet : Packet) (h : Packet.ofBytes helloResponse = .ok packet) :
    Sendable packet := by
  obtain rfl := Except.ok.inj (read_helloResponse.symm.trans h)
  exact ⟨.inl (by decide), by decide⟩

/-- A new server answers the first request of a client without an identifier. -/
theorem helloResponse_isOk (hclient : derive .longTag secret salt [] [0x01] = .ok client)
    (hserver : derive .longTag secret salt [0x01] [] = .ok server)
    (hrequest : (client.protectRequest Channel.getRequest).1 = .ok request) :
    (Packet.ofBytes request).mapError Error.coap >>= requestParts =
        .ok (client.senderId, formatPiv 0) ∧
      ∃ response, (server.protectResponse helloResponse request false).1 = .ok response := by
  obtain ⟨hclientDerived, hclientZero⟩ := of_derive hclient
  obtain ⟨hserverDerived, hserverZero⟩ := of_derive hserver
  have hparts := requestParts_of_protectRequest (by rw [hclientZero]; decide) hrequest
  rw [nextPiv, hclientZero] at hparts
  have hpiv : server.nextPiv = [0] := by rw [nextPiv, hserverZero]; rfl
  refine ⟨hparts, ?_⟩
  simp only [protectResponse, hparts]
  refine hserverDerived.protect_isOk read_helloResponse rfl
    (show innerBytes helloPacket = .ok (0x45 :: 0xff :: helloPacket.payload) from rfl) (by decide) ?_
  rw [hpiv]
  decide

/-- Which of its first two requests a client means shows in one byte of the associated data. -/
theorem aad_oneBlockApart :
    Aead.Ccm.OneBlockApart (aad 30 [] (formatPiv 0)) (aad 30 [] (formatPiv 1)) :=
  ⟨[[0x00, 0x15, 0x83, 0x68, 0x45, 0x6e, 0x63, 0x72, 0x79, 0x70, 0x74, 0x30, 0x40, 0x49, 0x85, 0x01]],
    [0x81, 0x18, 0x1e, 0x40, 0x41, 0x00, 0x40, 0, 0, 0, 0, 0, 0, 0, 0, 0],
    [0x81, 0x18, 0x1e, 0x40, 0x41, 0x01, 0x40, 0, 0, 0, 0, 0, 0, 0, 0, 0], [], by decide +kernel⟩

theorem helloResponse_opened (hclient : derive .longTag secret salt [] [0x01] = .ok client)
    (hserver : derive .longTag secret salt [0x01] [] = .ok server)
    (hrequest : (client.protectRequest Channel.getRequest).1 = .ok request)
    (hresponse : (server.protectResponse helloResponse request false).1 = .ok response) :
    ∃ out, client.openAnswer 0 response = .ok out := by
  obtain ⟨hclientDerived, -⟩ := of_derive hclient
  obtain ⟨hserverDerived, hserverZero⟩ := of_derive hserver
  obtain ⟨hparts, -⟩ := helloResponse_isOk hclient hserver hrequest
  have hid : client.senderId = server.recipientId :=
    hclientDerived.senderId_eq.trans hserverDerived.recipientId_eq.symm
  obtain ⟨packet, out, -, hout, -⟩ := openAnswer_of_protectResponse
    (hserverDerived.paired hclientDerived) hid hparts (fun _ => by rw [hserverZero]; decide)
    helloResponse_sendable hresponse
  exact ⟨out, hout⟩

/-- The answer to the first request is refused as the answer to the second number. -/
theorem helloResponse_refused (hclient : derive .longTag secret salt [] [0x01] = .ok client)
    (hserver : derive .longTag secret salt [0x01] [] = .ok server)
    (hrequest : (client.protectRequest Channel.getRequest).1 = .ok request)
    (hresponse : (server.protectResponse helloResponse request false).1 = .ok response) :
    client.openAnswer 1 response = .error (.aead .rejected) := by
  obtain ⟨hclientDerived, -⟩ := of_derive hclient
  obtain ⟨hserverDerived, hserverZero⟩ := of_derive hserver
  obtain ⟨hparts, -⟩ := helloResponse_isOk hclient hserver hrequest
  apply openAnswer_refused (hserverDerived.paired hclientDerived) hserverDerived.algorithm_eq hparts
    (by rw [hserverZero]; decide) _ hresponse
  rw [hclientDerived.senderId_eq]
  exact aad_oneBlockApart

/-- The server protects a request of its own after its first response. -/
theorem peerRequest_isOk (hserver : derive .longTag secret salt [0x01] [] = .ok server) :
    ∃ bytes, (server.advance.protectRequest Channel.getRequest).1 = .ok bytes := by
  obtain ⟨hderived, hzero⟩ := of_derive hserver
  have hone : server.advance.senderSequence = 1 := congrArg (· + 1) hzero
  exact Channel.getRequest_isOk hderived.advance (by decide) (by rw [hone]; decide)

end Example

/-- Responses with the nonces of requests, to a message that is no request, and with an own nonce. -/
def lateResponses : List Use :=
  [.response helloResponse protectedRequest true, .response helloResponse [] false,
    .response helloResponse protectedRequest false]

theorem outstanding_after_lateResponses :
    lateContext.senderSequence = 2 ^ 40 - 4 + 1 ∧
    (∀ message, (lateContext.after lateResponses).unprotectResponse message =
      lateContext.openAnswer (2 ^ 40 - 3) message) ∧
    (∀ use ∈ lateResponses.take 2, use.takesNumber = false) ∧
    ∀ message, (lateContext.after (lateResponses.take 2)).unprotectResponse message =
      lateContext.unprotectResponse message := by
  have hsequence : lateContext.senderSequence = 2 ^ 40 - 4 + 1 := rfl
  have hquiet : ∀ use ∈ lateResponses.take 2, use.takesNumber = false := by decide
  have hcount : lateResponses.countP Use.takesNumber = 1 := by decide
  obtain ⟨hopens, -⟩ := outstanding_after hsequence lateResponses
  rw [hcount] at hopens
  exact ⟨hsequence, hopens, hquiet, (outstanding_after hsequence (lateResponses.take 2)).2 hquiet⟩

/-- The answer to the only request of a client is opened, but no longer once the client has answered
a request of the server under its own number. -/
theorem answering_loses_response :
    ∃ client server request response peerRequest,
      derive .longTag [0x01] [] [] [0x01] = .ok client ∧
      derive .longTag [0x01] [] [0x01] [] = .ok server ∧
      (client.protectRequest Channel.getRequest).1 = .ok request ∧
      (server.protectResponse helloResponse request false).1 = .ok response ∧
      ((server.after [.response helloResponse request false]).protectRequest
        Channel.getRequest).1 = .ok peerRequest ∧
      (∃ out, (client.after [.request Channel.getRequest]).unprotectResponse response = .ok out) ∧
      (client.after [.request Channel.getRequest,
        .response helloResponse peerRequest false]).unprotectResponse response =
          .error (.aead .rejected) := by
  obtain ⟨client, hclient, -⟩ := derive_eq_ok [0x01] [] .longTag [] [0x01]
  obtain ⟨server, hserver, -⟩ := derive_eq_ok [0x01] [] .longTag [0x01] []
  obtain ⟨-, hclientZero⟩ := of_derive hclient
  obtain ⟨-, hserverZero⟩ := of_derive hserver
  obtain ⟨request, hrequest⟩ := protectRequest_isOk hclient
  obtain ⟨hparts, response, hresponse⟩ := helloResponse_isOk hclient hserver hrequest
  have hanswered : server.after [.response helloResponse request false] = server.advance := by
    show (server.protectResponse helloResponse request false).2 = _
    simp only [protectResponse, hparts]
    rfl
  have hone : server.advance.senderSequence = 1 := congrArg (· + 1) hserverZero
  obtain ⟨peerRequest, hpeer⟩ := peerRequest_isOk hserver
  have hpeerParts := requestParts_of_protectRequest (by rw [hone]; decide) hpeer
  refine ⟨client, server, request, response, peerRequest, hclient, hserver, hrequest, hresponse,
    by rw [hanswered]; exact hpeer, ?_, ?_⟩
  · have hnumber : client.senderSequence +
        [Use.request Channel.getRequest].countP Use.takesNumber = 0 + 1 := by rw [hclientZero]; rfl
    rw [unprotectResponse_after hnumber]
    exact helloResponse_opened hclient hserver hrequest hresponse
  -- The answer took the number after that of the request, and the client expects a response to
  -- the last number that it used.
  · have hnumber : client.senderSequence + [Use.request Channel.getRequest,
        .response helloResponse peerRequest false].countP Use.takesNumber = 1 + 1 := by
      have htakes : (Use.response helloResponse peerRequest false).takesNumber = true := by
        simp only [Use.takesNumber, hpeerParts]
        rfl
      rw [hclientZero, List.countP_cons, List.countP_cons, htakes]
      rfl
    rw [unprotectResponse_after hnumber]
    exact helloResponse_refused hclient hserver hrequest hresponse

end Context

end EdhocLab.Oscore
