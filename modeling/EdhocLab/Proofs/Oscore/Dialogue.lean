import EdhocLab.Proofs.Oscore.Answer

/-! # Requests and their responses

A client protects requests and opens responses, a server opens requests and protects responses, in
any order.  The client opens every response to the request for which it took its last number.
-/
namespace EdhocLab.Oscore

open Coap (Packet)

inductive Move
  /-- The client protects a request, which may fail. -/
  | ask (message : Bytes)
  /-- Something reaches the server, which opens it if it is a request. -/
  | hear (message : Bytes)
  /-- The server protects a response to a request. -/
  | answer (message request : Bytes) (reusePiv : Bool)
  /-- Something reaches the client, which opens it if it is a response. -/
  | learn (message : Bytes)
  deriving DecidableEq, Repr

def Move.isAsk : Move → Bool
  | ask _ => true
  | _ => false

structure Dialogue where
  client : Context
  server : Context

namespace Dialogue

/-- A client keeps nothing of what it opens. -/
def step (dialogue : Dialogue) : Move → Dialogue
  | .ask message => { dialogue with client := (dialogue.client.protectRequest message).2 }
  | .hear message => { dialogue with server := (dialogue.server.unprotectRequest message).2 }
  | .answer message request reusePiv =>
    { dialogue with server := (dialogue.server.protectResponse message request reusePiv).2 }
  | .learn _ => dialogue

def run (dialogue : Dialogue) (moves : List Move) : Dialogue := moves.foldl step dialogue

/-- Each side opens what the other side protects. -/
structure Mirrored (dialogue : Dialogue) : Prop where
  toServer : dialogue.client.Paired dialogue.server
  toClient : dialogue.server.Paired dialogue.client

section Step

variable {dialogue : Dialogue}

/-- A request takes a number of the client; whatever else happens concerns the server alone. -/
theorem step_cases (dialogue : Dialogue) (move : Move) :
    (move.isAsk = true ∧
      dialogue.step move = { dialogue with client := dialogue.client.advance }) ∨
    (move.isAsk = false ∧ ∃ window n, dialogue.step move = { dialogue with
      server := { dialogue.server with
        window, senderSequence := dialogue.server.senderSequence + n } }) := by
  cases move with
  | ask message => exact .inl ⟨rfl, rfl⟩
  | hear message =>
    refine .inr ⟨rfl, ?_⟩
    rcases dialogue.server.unprotectRequest_cases message with
      ⟨error, hrefused⟩ | ⟨out, n, window, -, -, haccepted⟩
    · exact ⟨dialogue.server.window, 0, by rw [step, hrefused]; rfl⟩
    · exact ⟨window, 0, by rw [step, haccepted]; rfl⟩
  | answer message request reusePiv =>
    refine .inr ⟨rfl, dialogue.server.window, ?_⟩
    rcases dialogue.server.perform_snd (.response message request reusePiv) with hsame | hnext
    · exact ⟨0, congrArg (Dialogue.mk dialogue.client) hsame⟩
    · exact ⟨1, congrArg (Dialogue.mk dialogue.client) hnext⟩
  | learn message => exact .inr ⟨rfl, dialogue.server.window, 0, rfl⟩

theorem step_mirrored (h : dialogue.Mirrored) (move : Move) : (dialogue.step move).Mirrored := by
  rcases dialogue.step_cases move with ⟨-, hstep⟩ | ⟨-, window, n, hstep⟩
  · rw [hstep]
    exact ⟨h.toServer.renew .., h.toClient.renew ..⟩
  · rw [hstep]
    exact ⟨h.toServer.renew .., h.toClient.renew ..⟩

theorem step_client {move : Move} (h : move.isAsk = false) :
    (dialogue.step move).client = dialogue.client := by
  rcases dialogue.step_cases move with ⟨hask, -⟩ | ⟨-, window, n, hstep⟩
  · rw [h] at hask
    cases hask
  · rw [hstep]

theorem senderSequence_le_step (dialogue : Dialogue) (move : Move) :
    dialogue.server.senderSequence ≤ (dialogue.step move).server.senderSequence := by
  rcases dialogue.step_cases move with ⟨-, hstep⟩ | ⟨-, window, n, hstep⟩
  · exact Nat.le_of_eq (by rw [hstep])
  · rw [hstep]
    exact Nat.le_add_right _ n

/-- A response with a nonce of its own takes a number of the server. -/
theorem senderSequence_answer {message request : Bytes} {parts : Bytes × Bytes}
    (h : (Packet.ofBytes request).mapError Error.coap >>= Context.requestParts = .ok parts) :
    (dialogue.step (.answer message request false)).server.senderSequence =
      dialogue.server.senderSequence + 1 := by
  have htakes : (Use.response message request false).takesNumber = true := by
    rw [Use.takesNumber, h]
    rfl
  have hnext := dialogue.server.senderSequence_perform (.response message request false)
  rwa [htakes, if_pos rfl] at hnext

end Step

section Run

variable {dialogue : Dialogue}

theorem run_mirrored (h : dialogue.Mirrored) (moves : List Move) : (dialogue.run moves).Mirrored := by
  induction moves generalizing dialogue with
  | nil => exact h
  | cons move moves ih => exact ih (step_mirrored h move)

theorem run_client {moves : List Move} (h : ∀ move ∈ moves, move.isAsk = false) :
    (dialogue.run moves).client = dialogue.client := by
  induction moves generalizing dialogue with
  | nil => rfl
  | cons move moves ih =>
    have hrest : ((dialogue.step move).run moves).client = (dialogue.step move).client :=
      ih fun other hmem => h other (List.mem_cons_of_mem move hmem)
    exact hrest.trans (step_client (h move List.mem_cons_self))

theorem senderSequence_le_run (dialogue : Dialogue) (moves : List Move) :
    dialogue.server.senderSequence ≤ (dialogue.run moves).server.senderSequence := by
  induction moves generalizing dialogue with
  | nil => exact Nat.le_refl _
  | cons move moves ih => exact Nat.le_trans (dialogue.senderSequence_le_step move) (ih _)

end Run

section Response

variable {algorithm : Aead.Algorithm} {secret salt clientId serverId : Bytes}
  {client server : Context} {asked answered opened : Dialogue}
  {message request response bytes : Bytes} {reusePiv : Bool}

theorem mirrored_of_derivesFrom
    (hclient : client.DerivesFrom secret salt algorithm clientId serverId)
    (hserver : server.DerivesFrom secret salt algorithm serverId clientId) :
    (Dialogue.mk client server).Mirrored :=
  ⟨hclient.paired hserver, hserver.paired hclient⟩

/-- As long as the client takes no further number, it opens every response to its latest request,
whichever nonce the response has and whatever else goes back and forth before and after it. -/
theorem latest_response_opened
    (hclient : client.DerivesFrom secret salt algorithm clientId serverId)
    (hserver : server.DerivesFrom secret salt algorithm serverId clientId)
    (earlier between later : List Move)
    (hasked : asked = (Dialogue.mk client server).run earlier)
    (hrequest : (asked.client.protectRequest message).1 = .ok request)
    (hanswered : answered = (asked.step (.ask message)).run between)
    (hresponse : (answered.server.protectResponse response request reusePiv).1 = .ok bytes)
    (hopened : opened = (answered.step (.answer response request reusePiv)).run later)
    (hlatest : ∀ move ∈ between ++ later, move.isAsk = false)
    (hclientRoom : opened.client.senderSequence ≤ 2 ^ 40)
    (hserverRoom : opened.server.senderSequence ≤ 2 ^ 40)
    (hsendable : ∀ packet, Packet.ofBytes response = .ok packet → Sendable packet) :
    ∃ packet out, Packet.ofBytes response = .ok packet ∧
      opened.client.unprotectResponse bytes = .ok out ∧ Packet.ofBytes out = .ok packet := by
  have hbetween : ∀ move ∈ between, move.isAsk = false :=
    fun move hmem => hlatest move (List.mem_append_left _ hmem)
  have hlater : ∀ move ∈ later, move.isAsk = false :=
    fun move hmem => hlatest move (List.mem_append_right _ hmem)
  have hasking : answered.client = asked.client.advance := by
    rw [hanswered, run_client hbetween]
    rfl
  have hopening : opened.client = asked.client.advance := by
    rw [hopened, run_client hlater, step_client rfl, hasking]
  have hmirrored : answered.Mirrored := by
    rw [hanswered, hasked]
    exact run_mirrored (step_mirrored (run_mirrored (mirrored_of_derivesFrom hclient hserver) _) _) _
  have hroom : asked.client.senderSequence < 2 ^ 40 := by
    rw [hopening] at hclientRoom
    exact hclientRoom
  have hparts := Context.requestParts_of_protectRequest hroom hrequest
  -- The number of the response was in use when it was protected, so the bound at the end covers it.
  have hownRoom : reusePiv = false → answered.server.senderSequence < 2 ^ 40 := by
    rintro rfl
    have hlast := senderSequence_le_run (answered.step (.answer response request false)) later
    rw [senderSequence_answer hparts, ← hopened] at hlast
    exact Nat.le_trans hlast hserverRoom
  have hsequence : opened.client.senderSequence = asked.client.senderSequence + 1 := by
    rw [hopening]
    rfl
  -- Both sides now name the request by the client's identifier and the number before its next one.
  have hpaired := hmirrored.toClient
  have hid := hmirrored.toServer.id_eq
  rw [hasking, ← hopening] at hpaired hid
  obtain ⟨packet, out, hread, hopen, hout⟩ := Context.openAnswer_of_protectResponse hpaired hid
    (by rw [hparts, hopening]; rfl) hownRoom hsendable hresponse
  exact ⟨packet, out, hread, (Context.unprotectResponse_eq hsequence bytes).trans hopen, hout⟩

end Response

/-- A server answers the only request of a client, which opens the response. -/
theorem latest_response_opened_hello :
    ∃ client server request response,
      Context.derive .longTag [0x01] [] [] [0x01] = .ok client ∧
      Context.derive .longTag [0x01] [] [0x01] [] = .ok server ∧
      (client.protectRequest Channel.getRequest).1 = .ok request ∧
      (server.protectResponse Context.helloResponse request false).1 = .ok response ∧
      ∃ packet out, Packet.ofBytes Context.helloResponse = .ok packet ∧
        ((Dialogue.mk client server).run [.ask Channel.getRequest, .hear [],
          .answer Context.helloResponse request false, .learn response]).client.unprotectResponse
            response = .ok out ∧ Packet.ofBytes out = .ok packet := by
  obtain ⟨client, hclient, -⟩ := Context.derive_eq_ok [0x01] [] .longTag [] [0x01]
  obtain ⟨server, hserver, -⟩ := Context.derive_eq_ok [0x01] [] .longTag [0x01] []
  obtain ⟨hclientDerived, hclientZero⟩ := Context.of_derive hclient
  obtain ⟨hserverDerived, hserverZero⟩ := Context.of_derive hserver
  obtain ⟨request, hrequest⟩ := Context.protectRequest_isOk hclient
  obtain ⟨hparts, response, hresponse⟩ := Context.helloResponse_isOk hclient hserver hrequest
  let answered : Dialogue := (Dialogue.mk client server).run [.ask Channel.getRequest, .hear []]
  let opened : Dialogue :=
    (answered.step (.answer Context.helloResponse request false)).run [.learn response]
  have hclientRoom : opened.client.senderSequence ≤ 2 ^ 40 := by
    show client.senderSequence + 1 ≤ 2 ^ 40
    rw [hclientZero]
    decide
  have hserverRoom : opened.server.senderSequence ≤ 2 ^ 40 := by
    show (answered.step (.answer Context.helloResponse request false)).server.senderSequence ≤ _
    rw [senderSequence_answer hparts]
    show server.senderSequence + 1 ≤ 2 ^ 40
    rw [hserverZero]
    decide
  have hlatest : ∀ move ∈ [Move.hear []] ++ [Move.learn response], move.isAsk = false := by
    simp [Move.isAsk]
  exact ⟨client, server, request, response, hclient, hserver, hrequest, hresponse,
    latest_response_opened hclientDerived hserverDerived [] [.hear []] [.learn response] rfl hrequest
      rfl hresponse rfl hlatest hclientRoom hserverRoom Context.helloResponse_sendable⟩

/-- A message with the Observe option, which cannot be protected. -/
def observation : Bytes := [0x40, 0x01, 0x5d, 0x1f, 0x60]

/-- The answer to the only request of a client is opened, but no longer once the client has failed
to protect another one. -/
theorem failed_request_loses_response :
    ∃ client server request response,
      Context.derive .longTag [0x01] [] [] [0x01] = .ok client ∧
      Context.derive .longTag [0x01] [] [0x01] [] = .ok server ∧
      (client.protectRequest Channel.getRequest).1 = .ok request ∧
      (server.protectResponse Context.helloResponse request false).1 = .ok response ∧
      let asked := (Dialogue.mk client server).run [.ask Channel.getRequest, .hear request,
        .answer Context.helloResponse request false]
      (∃ out, asked.client.unprotectResponse response = .ok out) ∧
      (asked.client.protectRequest observation).1 = .error (.unsupportedOption 6) ∧
      (asked.step (.ask observation)).client.unprotectResponse response =
        .error (.aead .rejected) := by
  obtain ⟨client, hclient, -⟩ := Context.derive_eq_ok [0x01] [] .longTag [] [0x01]
  obtain ⟨server, hserver, -⟩ := Context.derive_eq_ok [0x01] [] .longTag [0x01] []
  obtain ⟨-, hzero⟩ := Context.of_derive hclient
  obtain ⟨request, hrequest⟩ := Context.protectRequest_isOk hclient
  obtain ⟨-, response, hresponse⟩ := Context.helloResponse_isOk hclient hserver hrequest
  refine ⟨client, server, request, response, hclient, hserver, hrequest, hresponse, ?_, rfl, ?_⟩
  · show ∃ out, client.advance.unprotectResponse response = .ok out
    have hsequence : client.advance.senderSequence = 0 + 1 := congrArg (· + 1) hzero
    have hopened := Context.helloResponse_opened hclient hserver hrequest hresponse
    rw [Context.unprotectResponse_eq hsequence]
    exact hopened
  · show client.advance.advance.unprotectResponse response = _
    have hsequence : client.advance.advance.senderSequence = 1 + 1 := congrArg (· + 1 + 1) hzero
    have hrefused := Context.helloResponse_refused hclient hserver hrequest hresponse
    rw [Context.unprotectResponse_eq hsequence]
    exact hrefused

end Dialogue

end EdhocLab.Oscore
