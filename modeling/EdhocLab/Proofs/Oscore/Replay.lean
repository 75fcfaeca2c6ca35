import EdhocLab.Proofs.Oscore.NonceUse

/-! # Replayed and forged requests

Whatever reaches a context, it accepts no partial IV twice, and a request that it refuses leaves it
exactly as it was: the requests that it accepts are the same without the others in between.
-/
namespace EdhocLab.Oscore

open Coap (Packet)

/-- A request that reached a context, with the context before and after it. -/
structure Opening where
  message : Bytes
  before : Context
  result : Except Error Bytes
  after : Context

def Opening.isAccepted (opening : Opening) : Bool := opening.result.isOk

namespace Context

/-- The partial IV of a protected request. -/
def requestPiv? (message : Bytes) : Option Bytes :=
  ((Packet.ofBytes message).mapError Error.coap >>= requestParts).toOption.map Prod.snd

/-- The number that the partial IV of a protected request stands for. -/
def requestNumber? (message : Bytes) : Option Nat := (requestPiv? message).map Bytes.natOfBE

/-- The contexts that a party gets: derived ones, adjusted, and used in any way. -/
inductive Obtained : Context → Prop
  | derived {algorithm : Aead.Algorithm} {secret salt senderId recipientId : Bytes}
      {context : Context} (h : derive algorithm secret salt senderId recipientId = .ok context) :
      Obtained context
  | withWindow {context : Context} (h : Obtained context) (size : Nat) :
      Obtained (context.withWindow size)
  | withMaxUnfragmentedSize {context : Context} (h : Obtained context) (size : Nat) :
      Obtained (context.withMaxUnfragmentedSize size)
  | used {context : Context} (h : Obtained context) (use : Use) : Obtained (context.perform use).2
  | opened {context : Context} (h : Obtained context) (message : Bytes) :
      Obtained (context.unprotectRequest message).2

/-- What becomes of requests that reach a context one after the other. -/
def openings : Context → List Bytes → List Opening
  | _, [] => []
  | context, message :: messages =>
    { message, before := context, result := (context.unprotectRequest message).1
      after := (context.unprotectRequest message).2 } ::
      (context.unprotectRequest message).2.openings messages

section Numbers

variable {packet : Packet} {kid piv : Bytes}

/-- The flag byte announces seven bytes of a partial IV at most. -/
theorem length_piv_le {bs : Bytes} (h : (OptionValue.decode bs).piv = some piv) : piv.length ≤ 7 := by
  rcases OptionValue.laidOut_of_decode bs with hempty | ⟨flags, rest, hlaid⟩
  · rw [hempty] at h
    cases h
  · have hlength := hlaid.length_piv
    rw [h, Option.getD_some] at hlength
    omega

theorem length_piv_of_requestParts (h : requestParts packet = .ok (kid, piv)) : piv.length ≤ 7 := by
  obtain ⟨value, -, h⟩ := bind_eq_ok.mp h
  dsimp only at h
  split at h
  · rename_i hpiv
    cases h
    exact length_piv_le hpiv
  · cases h

/-- The window is asked about the whole partial IV of a request. -/
theorem pivNumber_of_requestParts (h : requestParts packet = .ok (kid, piv)) :
    pivNumber piv = Bytes.natOfBE piv := by
  have hlength : piv.length - 8 = 0 := by
    have := length_piv_of_requestParts h
    omega
  rw [pivNumber, Bytes.takeLast, hlength, List.drop_zero]

end Numbers

section Step

variable (context : Context) (message : Bytes)

/-- A request is refused without a trace, or its number is one that the window takes. -/
theorem unprotectRequest_cases :
    (∃ error, context.unprotectRequest message = (.error error, context)) ∨
      ∃ out n window, requestNumber? message = some n ∧ context.window.accept? n = some window ∧
        context.unprotectRequest message = (.ok out, { context with window }) := by
  unfold unprotectRequest requestNumber? requestPiv?
  cases (Packet.ofBytes message).mapError Error.coap with
  | error error => exact .inl ⟨error, rfl⟩
  | ok packet =>
    simp only [ok_bind]
    cases hparts : requestParts packet with
    | error error => exact .inl ⟨error, rfl⟩
    | ok parts =>
      obtain ⟨kid, piv⟩ := parts
      simp only [ok_bind]
      cases context.unprotect packet (aad context.algorithm.coseId kid piv)
          (nonce piv context.recipientId context.commonIv) with
      | error error => exact .inl ⟨error, rfl⟩
      | ok out =>
        simp only [ok_bind, pure_eq_ok, pivNumber_of_requestParts hparts]
        cases hwindow : context.window.accept? (Bytes.natOfBE piv) with
        | none => exact .inl ⟨.replayDetected, rfl⟩
        | some window => exact .inr ⟨out, _, window, rfl, hwindow, rfl⟩

theorem remembers_of_derive {algorithm : Aead.Algorithm} {secret salt senderId recipientId : Bytes}
    {context : Context} (h : derive algorithm secret salt senderId recipientId = .ok context) :
    context.window.Remembers [] := by
  obtain ⟨senderKey, -, h⟩ := bind_eq_ok.mp h
  obtain ⟨recipientKey, -, h⟩ := bind_eq_ok.mp h
  obtain ⟨commonIv, -, h⟩ := bind_eq_ok.mp h
  cases h
  exact ReplayWindow.ofSize_remembers defaultWindow

/-- The window of every context stands for the numbers that it accepted. -/
theorem Obtained.remembers {context : Context} (h : Obtained context) :
    ∃ numbers, context.window.Remembers numbers := by
  induction h with
  | derived h => exact ⟨[], remembers_of_derive h⟩
  | withWindow _ size => exact ⟨[], ReplayWindow.ofSize_remembers size⟩
  | withMaxUnfragmentedSize _ _ ih => exact ih
  | @used context _ use ih =>
    rcases context.perform_snd use with hsame | hnext
    · rwa [hsame]
    · rwa [hnext]
  | @opened context _ message ih =>
    obtain ⟨numbers, hnumbers⟩ := ih
    rcases context.unprotectRequest_cases message with
      ⟨error, hrefused⟩ | ⟨out, n, window, -, hwindow, haccepted⟩
    · rw [hrefused]
      exact ⟨numbers, hnumbers⟩
    · rw [haccepted]
      exact ⟨n :: numbers, (ReplayWindow.accept?_eq_some hnumbers hwindow).1⟩

end Step

section Run

variable {context next : Context} {numbers : List Nat} {message out : Bytes} {messages : List Bytes}

/-- The requests that are accepted among some that reach a context. -/
def accepted (context : Context) (messages : List Bytes) : List Opening :=
  (context.openings messages).filter Opening.isAccepted

theorem openings_cons {result : Except Error Bytes}
    (h : context.unprotectRequest message = (result, next)) :
    context.openings (message :: messages) =
      { message, before := context, result, after := next } :: next.openings messages := by
  rw [openings, h]

theorem accepted_cons_of_error {error : Error}
    (h : context.unprotectRequest message = (.error error, next)) :
    context.accepted (message :: messages) = next.accepted messages := by
  rw [accepted, openings_cons h]
  rfl

theorem accepted_cons_of_ok (h : context.unprotectRequest message = (.ok out, next)) :
    context.accepted (message :: messages) =
      { message, before := context, result := .ok out, after := next } :: next.accepted messages := by
  rw [accepted, openings_cons h]
  rfl

/-- The numbers that are accepted in a run are new, to the context and to each other. -/
theorem accepted_new (h : context.window.Remembers numbers) (messages : List Bytes) :
    (∀ o ∈ context.accepted messages, ∃ n, requestNumber? o.message = some n ∧ n ∉ numbers) ∧
      ((context.accepted messages).map fun o => requestNumber? o.message).Nodup := by
  induction messages generalizing context numbers with
  | nil => exact ⟨nofun, List.nodup_nil⟩
  | cons message messages ih =>
    rcases context.unprotectRequest_cases message with
      ⟨error, hrefused⟩ | ⟨out, n, window, hn, hwindow, haccepted⟩
    · rw [accepted_cons_of_error hrefused]
      exact ih h
    · have hfresh : n ∉ numbers := ((ReplayWindow.accept?_isSome h).mp (by rw [hwindow]; rfl)).1
      have hremembers : ({ context with window } : Context).window.Remembers (n :: numbers) :=
        (ReplayWindow.accept?_eq_some h hwindow).1
      obtain ⟨hlater, hnodup⟩ := ih hremembers
      rw [accepted_cons_of_ok haccepted]
      constructor
      · intro o ho
        rcases List.mem_cons.mp ho with rfl | ho
        · exact ⟨n, hn, hfresh⟩
        · obtain ⟨m, hm, hnew⟩ := hlater o ho
          exact ⟨m, hm, fun hmem => hnew (List.mem_cons_of_mem n hmem)⟩
      · rw [List.map_cons, List.nodup_cons]
        refine ⟨fun hmem => ?_, hnodup⟩
        obtain ⟨o, ho, hsame⟩ := List.mem_map.mp hmem
        obtain ⟨m, hm, hnew⟩ := hlater o ho
        obtain rfl : m = n := Option.some.inj (hm.symm.trans (hsame.trans hn))
        exact hnew List.mem_cons_self

theorem after_of_not_accepted {opening : Opening} (h : opening ∈ context.openings messages)
    (hrefused : opening.isAccepted = false) : opening.after = opening.before := by
  induction messages generalizing context with
  | nil => cases h
  | cons message messages ih =>
    rcases List.mem_cons.mp h with rfl | h
    · rcases context.unprotectRequest_cases message with
        ⟨error, hcall⟩ | ⟨out, n, window, -, -, hcall⟩
      · exact congrArg Prod.snd hcall
      · rw [Opening.isAccepted, hcall] at hrefused
        cases hrefused
    · exact ih h

/-- Without the requests that are refused the others are opened from and to the same contexts. -/
theorem openings_accepted (context : Context) (messages : List Bytes) :
    context.openings ((context.accepted messages).map Opening.message) =
      context.accepted messages := by
  induction messages generalizing context with
  | nil => rfl
  | cons message messages ih =>
    rcases context.unprotectRequest_cases message with
      ⟨error, hrefused⟩ | ⟨out, n, window, -, -, haccepted⟩
    · rw [accepted_cons_of_error hrefused]
      exact ih context
    · rw [accepted_cons_of_ok haccepted, List.map_cons, openings_cons haccepted, ih]

/-- A new client without an identifier protects its first request. -/
theorem protectRequest_isOk {algorithm : Aead.Algorithm} {secret salt recipientId : Bytes}
    (h : derive algorithm secret salt [] recipientId = .ok context) :
    ∃ bytes, (context.protectRequest Channel.getRequest).1 = .ok bytes := by
  obtain ⟨hderived, hsequence⟩ := of_derive h
  exact Channel.getRequest_isOk hderived (by decide) (by rw [hsequence]; decide)

/-- A new server opens the first request of its client. -/
theorem unprotectRequest_of_derive {algorithm : Aead.Algorithm} {secret salt clientId serverId : Bytes}
    {client server : Context} (hclient : derive algorithm secret salt clientId serverId = .ok client)
    (hserver : derive algorithm secret salt serverId clientId = .ok server)
    (hsendable : ∀ packet, Packet.ofBytes message = .ok packet → Sendable packet)
    (h : (client.protectRequest message).1 = .ok out) :
    ∃ packet opened, Packet.ofBytes message = .ok packet ∧ Packet.ofBytes opened = .ok packet ∧
      (server.unprotectRequest out).1 = .ok opened := by
  have hzero : client.senderSequence = 0 := (of_derive hclient).2
  obtain ⟨packet, opened, hread, hopened, hopens⟩ :=
    sealsRequest_of_protectRequest (by rw [hzero]; decide) hsendable h
  obtain ⟨window, hwindow⟩ := Option.isSome_iff_exists.mp
    ((ReplayWindow.accept?_isSome (remembers_of_derive hserver) (n := 0)).mpr ⟨nofun, nofun⟩)
  refine ⟨packet, opened, hread, hopened, ?_⟩
  rw [hopens server (Channel.paired_of_derive hclient hserver), hzero, hwindow]

/-- Among any requests that reach a context, no two with one sequence number are accepted, those
that are refused change nothing, and the others do not depend on them. -/
theorem requests_accepted_once (h : Obtained context) (messages : List Bytes) :
    (∀ o ∈ context.accepted messages, (requestNumber? o.message).isSome) ∧
    ((context.accepted messages).map fun o => requestNumber? o.message).Nodup ∧
    (∀ o ∈ context.openings messages, o.isAccepted = false → o.after = o.before) ∧
    context.openings ((context.accepted messages).map Opening.message) =
      context.accepted messages := by
  obtain ⟨numbers, hnumbers⟩ := h.remembers
  obtain ⟨hnew, hnodup⟩ := accepted_new hnumbers messages
  refine ⟨fun o ho => ?_, hnodup, fun o => after_of_not_accepted, openings_accepted context messages⟩
  obtain ⟨n, hn, -⟩ := hnew o ho
  rw [hn]
  rfl

/-- A new server accepts a request, refuses what is none, and refuses the request again. -/
theorem requests_accepted_once_repeated : ∃ context bytes, Obtained context ∧
    (context.openings [bytes, [], bytes]).map Opening.isAccepted = [true, false, false] ∧
    (∀ o ∈ context.accepted [bytes, [], bytes], (requestNumber? o.message).isSome) ∧
    ((context.accepted [bytes, [], bytes]).map fun o => requestNumber? o.message).Nodup ∧
    (∀ o ∈ context.openings [bytes, [], bytes], o.isAccepted = false → o.after = o.before) ∧
    context.openings ((context.accepted [bytes, [], bytes]).map Opening.message) =
      context.accepted [bytes, [], bytes] := by
  obtain ⟨client, hclient, -⟩ := derive_eq_ok [0x01] [] .shortTag [] [0x01]
  obtain ⟨server, hserver, -⟩ := derive_eq_ok [0x01] [] .shortTag [0x01] []
  obtain ⟨bytes, hbytes⟩ := protectRequest_isOk hclient
  have hzero : client.senderSequence = 0 := (of_derive hclient).2
  obtain ⟨packet, out, -, -, hopens⟩ := sealsRequest_of_protectRequest (by rw [hzero]; decide)
    Channel.getRequest_admissible hbytes
  have hpaired := Channel.paired_of_derive hclient hserver
  rw [hzero] at hopens
  have hnew := remembers_of_derive hserver
  obtain ⟨window, hwindow⟩ := Option.isSome_iff_exists.mp
    ((ReplayWindow.accept?_isSome hnew (n := 0)).mpr ⟨nofun, nofun⟩)
  have hagain : window.accept? 0 = none := by
    rw [← Option.not_isSome_iff_eq_none,
      ReplayWindow.accept?_isSome (ReplayWindow.accept?_eq_some hnew hwindow).1]
    exact fun hfresh => hfresh.1 List.mem_cons_self
  have hfirst : server.unprotectRequest bytes = (.ok out, { server with window }) := by
    rw [hopens server hpaired, hwindow]
  have hnone : ({ server with window } : Context).unprotectRequest [] =
      (.error (.coap .invalidHeader), { server with window }) := rfl
  have hsecond : ({ server with window } : Context).unprotectRequest bytes =
      (.error .replayDetected, { server with window }) := by
    rw [hopens { server with window } ⟨hpaired.1, hpaired.2, hpaired.3, hpaired.4⟩]
    simp only [hagain]
  refine ⟨server, bytes, .derived hserver, ?_, requests_accepted_once (.derived hserver) _⟩
  rw [openings_cons hfirst, openings_cons hnone, openings_cons hsecond]
  rfl

end Run

end Context

end EdhocLab.Oscore
