import EdhocLab.Proofs.Oscore.Derivation
import EdhocLab.Proofs.Oscore.Protection
import EdhocLab.Proofs.Oscore.ReplayWindow

/-! # Requests over an unreliable channel

A client protects requests, and copies of them reach a server in any order, repeatedly or not at
all.  Whatever the server accepts is a packet that was protected, at most once each, and nothing
but the replay window keeps a copy from being accepted.
-/
namespace EdhocLab.Oscore

open Coap

namespace Context.DerivesFrom

variable {algorithm : Aead.Algorithm} {secret salt senderId recipientId : Bytes}

/-- Contexts of one secret that name each other open what the other one protects. -/
theorem paired {sender recipient : Context}
    (hsender : sender.DerivesFrom secret salt algorithm senderId recipientId)
    (hrecipient : recipient.DerivesFrom secret salt algorithm recipientId senderId) :
    sender.Paired recipient where
  algorithm_eq := hsender.algorithm_eq.trans hrecipient.algorithm_eq.symm
  commonIv_eq := Except.ok.inj (hsender.commonIv_eq.symm.trans hrecipient.commonIv_eq)
  id_eq := hsender.senderId_eq.trans hrecipient.recipientId_eq.symm
  key_eq := Except.ok.inj (hsender.senderKey_eq.symm.trans hrecipient.recipientKey_eq)

theorem advance {context : Context}
    (h : context.DerivesFrom secret salt algorithm senderId recipientId) :
    context.advance.DerivesFrom secret salt algorithm senderId recipientId :=
  ⟨h.1, h.2, h.3, h.4, h.5, h.6⟩

/-- A derived context protects every message that leaves enough room. -/
theorem protect_isOk {context : Context} {packet : Packet} {message plaintext aad piv id : Bytes}
    {option : OptionValue} (h : context.DerivesFrom secret salt algorithm senderId recipientId)
    (hread : Packet.ofBytes message = .ok packet) (hoptions : checkOptions packet = .ok ())
    (hinner : innerBytes packet = .ok plaintext)
    (hshort : plaintext.length ≤ Aead.Algorithm.maxTextLength)
    (hroom : 4 + packet.token.length +
      (writeFields 0 (outerPacket packet option.encode []).options).length +
        (1 + plaintext.length + algorithm.tagLength) ≤ Packet.maxLength) :
    ∃ bytes, context.protect message aad (nonce piv id context.commonIv) option = .ok bytes := by
  apply Context.protect_isOk hread hoptions hinner
  · have hkey : context.senderKey.length = algorithm.keyLength := length_deriveKey h.senderKey_eq
    have hnonce : nonceLength = algorithm.nonceLength := rfl
    rw [Aead.Algorithm.accepts, h.algorithm_eq, hkey, length_nonce]
    simpa using ⟨hnonce, hshort⟩
  · rw [h.algorithm_eq]
    exact hroom

end Context.DerivesFrom

inductive Event
  /-- The client protects a request, which may fail. -/
  | protect (message : Bytes)
  /-- A copy of the protected request with the given number reaches the server. -/
  | deliver (n : Nat)
  deriving DecidableEq, Repr

namespace Event

/-- Requests are packets that lose nothing when they are sent, or no packets at all. -/
def Admissible : Event → Prop
  | protect message => ∀ packet, Packet.ofBytes message = .ok packet → Sendable packet
  | deliver _ => True

def isProtect : Event → Bool
  | protect _ => true
  | deliver _ => false

end Event

structure Channel where
  client : Context
  server : Context
  /-- The requests by sequence number, with their protected forms. -/
  requests : List (Bytes × Except Error Bytes)
  /-- What the server made of the copies that it accepted, by sequence number, latest first. -/
  accepted : List (Nat × Bytes)

namespace Channel

/-- The channel between two new contexts. -/
def between (client server : Context) : Channel :=
  { client, server, requests := [], accepted := [] }

/-- The numbers of the accepted requests. -/
def acceptedNumbers (channel : Channel) : List Nat := channel.accepted.map Prod.fst

def step (channel : Channel) : Event → Channel
  | .protect message =>
    let (bytes, client) := channel.client.protectRequest message
    { channel with client, requests := channel.requests ++ [(message, bytes)] }
  | .deliver n =>
    match channel.requests[n]? with
    | some (_, .ok bytes) =>
      match channel.server.unprotectRequest bytes with
      | (.ok out, server) => { channel with server, accepted := (n, out) :: channel.accepted }
      | (.error _, server) => { channel with server }
    | _ => channel

def run (channel : Channel) (events : List Event) : Channel := events.foldl step channel

/-- What holds throughout a run, for a window of the given size. -/
structure Faithful (size : Nat) (channel : Channel) : Prop where
  paired : channel.client.Paired channel.server
  sequence_eq : channel.client.senderSequence = channel.requests.length
  size_eq : channel.server.window.size = size
  remembers : channel.server.window.Remembers channel.acceptedNumbers
  nodup : channel.acceptedNumbers.Nodup
  seals : ∀ n message bytes, channel.requests[n]? = some (message, .ok bytes) →
    ∃ packet out, Packet.ofBytes message = .ok packet ∧ Packet.ofBytes out = .ok packet ∧
      channel.client.SealsRequest n bytes out
  restores : ∀ n out, (n, out) ∈ channel.accepted → ∃ message bytes packet,
    channel.requests[n]? = some (message, .ok bytes) ∧ Packet.ofBytes message = .ok packet ∧
      Packet.ofBytes out = .ok packet

section Step

variable {size n : Nat} {channel : Channel} {message bytes : Bytes}

/-- A request leaves everything before it as it was. -/
theorem step_protect_faithful (h : channel.Faithful size)
    (hadmissible : (Event.protect message).Admissible) (hroom : channel.requests.length < 2 ^ 40) :
    (channel.step (.protect message)).Faithful size where
  paired := ⟨h.paired.1, h.paired.2, h.paired.3, h.paired.4⟩
  sequence_eq := by
    simp [step, Context.protectRequest, Context.advance, h.sequence_eq]
  size_eq := h.size_eq
  remembers := h.remembers
  nodup := h.nodup
  seals n message' bytes hrequest := by
    change (channel.requests ++ [(message, (channel.client.protectRequest message).1)])[n]? = _
      at hrequest
    rcases Nat.lt_trichotomy n channel.requests.length with hlt | rfl | hgt
    · rw [List.getElem?_append_left hlt] at hrequest
      obtain ⟨packet, out, hread, hout, hseals⟩ := h.seals n message' bytes hrequest
      exact ⟨packet, out, hread, hout, fun server hpaired =>
        hseals server ⟨hpaired.1, hpaired.2, hpaired.3, hpaired.4⟩⟩
    · simp only [List.getElem?_concat_length, Option.some.injEq, Prod.mk.injEq] at hrequest
      obtain ⟨rfl, hbytes⟩ := hrequest
      rw [← h.sequence_eq] at hroom ⊢
      obtain ⟨packet, out, hread, hout, hseals⟩ :=
        Context.sealsRequest_of_protectRequest hroom hadmissible hbytes
      exact ⟨packet, out, hread, hout, fun server hpaired =>
        hseals server ⟨hpaired.1, hpaired.2, hpaired.3, hpaired.4⟩⟩
    · rw [List.getElem?_eq_none (by rw [List.length_append]; exact hgt)] at hrequest
      cases hrequest
  restores n out hmem := by
    obtain ⟨message', bytes, packet, hrequest, hread, hout⟩ := h.restores n out hmem
    refine ⟨message', bytes, packet, ?_, hread, hout⟩
    obtain ⟨hlt, -⟩ := List.getElem?_eq_some_iff.mp hrequest
    exact (List.getElem?_append_left hlt).trans hrequest

/-- Only the window decides what becomes of a copy. -/
theorem step_deliver (h : channel.Faithful size)
    (hrequest : channel.requests[n]? = some (message, .ok bytes)) :
    ∃ packet out, Packet.ofBytes message = .ok packet ∧ Packet.ofBytes out = .ok packet ∧
      channel.step (.deliver n) = match channel.server.window.accept? n with
        | some window =>
          { channel with
            server := { channel.server with window }
            accepted := (n, out) :: channel.accepted }
        | none => channel := by
  obtain ⟨packet, out, hread, hout, hseals⟩ := h.seals n message bytes hrequest
  refine ⟨packet, out, hread, hout, ?_⟩
  simp only [step, hrequest, hseals channel.server h.paired]
  cases channel.server.window.accept? n with
  | some window => rfl
  | none => rfl

/-- A copy is accepted exactly if its request was not and no accepted one is ahead of it by the size
of the window. -/
theorem step_deliver_accepted (h : channel.Faithful size)
    (hrequest : channel.requests[n]? = some (message, .ok bytes)) :
    ∃ out, (channel.step (.deliver n)).accepted =
      if n ∉ channel.acceptedNumbers ∧ ∀ m ∈ channel.acceptedNumbers, m < n + size then
        (n, out) :: channel.accepted else channel.accepted := by
  obtain ⟨packet, out, -, -, hstep⟩ := step_deliver h hrequest
  have hfresh := ReplayWindow.accept?_isSome h.remembers (n := n)
  rw [h.size_eq] at hfresh
  refine ⟨out, ?_⟩
  rw [hstep]
  cases haccept : channel.server.window.accept? n with
  | some window => rw [if_pos (hfresh.mp (by rw [haccept]; rfl))]
  | none => rw [if_neg (fun hnew => by simpa [haccept] using hfresh.mpr hnew)]

theorem acceptedNumbers_deliver (h : channel.Faithful size)
    (hrequest : channel.requests[n]? = some (message, .ok bytes)) :
    (channel.step (.deliver n)).acceptedNumbers =
      if n ∉ channel.acceptedNumbers ∧ ∀ m ∈ channel.acceptedNumbers, m < n + size then
        n :: channel.acceptedNumbers else channel.acceptedNumbers := by
  obtain ⟨out, haccepted⟩ := step_deliver_accepted h hrequest
  rw [acceptedNumbers, haccepted]
  split_ifs <;> rfl

theorem requests_deliver (channel : Channel) (n : Nat) :
    (channel.step (.deliver n)).requests = channel.requests := by
  simp only [step]
  split
  · split <;> rfl
  · rfl

theorem step_deliver_faithful (h : channel.Faithful size) (n : Nat) :
    (channel.step (.deliver n)).Faithful size := by
  cases hrequest : channel.requests[n]? with
  | none => simpa only [step, hrequest] using h
  | some request =>
    obtain ⟨message, failure | bytes⟩ := request
    · simpa only [step, hrequest] using h
    · obtain ⟨packet, out, hread, hout, hstep⟩ := step_deliver h hrequest
      rw [hstep]
      cases haccept : channel.server.window.accept? n with
      | none => exact h
      | some window =>
        have hopen := (ReplayWindow.accept?_isSome h.remembers).mp (by rw [haccept]; rfl)
        obtain ⟨hremembers, hsize⟩ := ReplayWindow.accept?_eq_some h.remembers haccept
        exact {
          paired := ⟨h.paired.1, h.paired.2, h.paired.3, h.paired.4⟩
          sequence_eq := h.sequence_eq
          size_eq := hsize.trans h.size_eq
          remembers := hremembers
          nodup := List.nodup_cons.mpr ⟨hopen.1, h.nodup⟩
          seals := h.seals
          restores := fun m out' hmem => by
            rcases List.mem_cons.mp hmem with hnew | hmem
            · cases hnew
              exact ⟨message, bytes, packet, hrequest, hread, hout⟩
            · exact h.restores m out' hmem }

end Step

section Run

variable {size : Nat} {channel : Channel} {events : List Event}

theorem run_faithful (h : channel.Faithful size) (hadmissible : ∀ event ∈ events, event.Admissible)
    (hroom : channel.requests.length + events.countP Event.isProtect ≤ 2 ^ 40) :
    (channel.run events).Faithful size := by
  induction events generalizing channel with
  | nil => exact h
  | cons event events ih =>
    have hrest : ∀ event ∈ events, event.Admissible :=
      fun other hmem => hadmissible other (List.mem_cons_of_mem event hmem)
    rw [List.countP_cons] at hroom
    cases event with
    | protect message =>
      simp only [Event.isProtect, if_true] at hroom
      apply ih (step_protect_faithful h (hadmissible _ List.mem_cons_self) (by omega)) hrest
      simp only [step, List.length_append, List.length_singleton]
      omega
    | deliver n =>
      apply ih (step_deliver_faithful h n) hrest
      rw [requests_deliver]
      simpa [Event.isProtect] using hroom

variable {algorithm : Aead.Algorithm} {secret salt clientId serverId : Bytes}
  {client server : Context}

theorem paired_of_derive
    (hclient : Context.derive algorithm secret salt clientId serverId = .ok client)
    (hserver : Context.derive algorithm secret salt serverId clientId = .ok server) :
    client.Paired server :=
  (Context.of_derive hclient).1.paired (Context.of_derive hserver).1

theorem between_faithful (size : Nat)
    (hclient : Context.derive algorithm secret salt clientId serverId = .ok client)
    (hserver : Context.derive algorithm secret salt serverId clientId = .ok server) :
    (between client (server.withWindow size)).Faithful (min size ReplayWindow.maxSize) := by
  obtain ⟨h₁, h₂, h₃, h₄⟩ := paired_of_derive hclient hserver
  exact {
    paired := ⟨h₁, h₂, h₃, h₄⟩
    sequence_eq := (Context.of_derive hclient).2
    size_eq := rfl
    remembers := ReplayWindow.ofSize_remembers size
    nodup := List.nodup_nil
    seals := nofun
    restores := nofun }

/-- Whatever the order of requests and copies: an accepted copy is the packet that was protected,
no request is accepted twice, and a copy is accepted exactly if its request was not and no accepted
one is ahead of it by the size of the window. -/
theorem run_between_delivers
    (hclient : Context.derive algorithm secret salt clientId serverId = .ok client)
    (hserver : Context.derive algorithm secret salt serverId clientId = .ok server) (size : Nat)
    (hadmissible : ∀ event ∈ events, event.Admissible)
    (hcount : events.countP Event.isProtect ≤ 2 ^ 40) :
    let channel := (between client (server.withWindow size)).run events
    (∀ n out, (n, out) ∈ channel.accepted → ∃ message bytes packet,
      channel.requests[n]? = some (message, .ok bytes) ∧ Packet.ofBytes message = .ok packet ∧
        Packet.ofBytes out = .ok packet) ∧
    channel.acceptedNumbers.Nodup ∧
    ∀ n message bytes, channel.requests[n]? = some (message, .ok bytes) →
      ((∃ out, (channel.step (.deliver n)).accepted = (n, out) :: channel.accepted) ↔
        n ∉ channel.acceptedNumbers ∧ ∀ m ∈ channel.acceptedNumbers, m < n + min size 64) := by
  intro channel
  have h : channel.Faithful (min size 64) := run_faithful (between_faithful size hclient hserver)
    hadmissible (by rw [between, List.length_nil]; omega)
  refine ⟨h.restores, h.nodup, fun n message bytes hrequest => ?_⟩
  obtain ⟨out, haccepted⟩ := step_deliver_accepted h hrequest
  rw [haccepted]
  split_ifs with hfresh
  · exact ⟨fun _ => hfresh, fun _ => ⟨out, rfl⟩⟩
  · simp [hfresh]

/-- A request for `tv1` at `localhost`. -/
def getRequest : Bytes :=
  [0x40, 0x01, 0x5d, 0x1f, 0x39, 0x6c, 0x6f, 0x63, 0x61, 0x6c, 0x68, 0x6f, 0x73, 0x74, 0x83, 0x74,
    0x76, 0x31]

def getPacket : Packet where
  first := 0x40
  code := 0x01
  messageId := 0x5d1f
  token := []
  options := [{ number := 3, value := [0x6c, 0x6f, 0x63, 0x61, 0x6c, 0x68, 0x6f, 0x73, 0x74] },
    { number := 11, value := [0x74, 0x76, 0x31] }]
  payload := []

theorem read_getRequest : Packet.ofBytes getRequest = .ok getPacket := rfl

theorem innerBytes_getPacket : innerBytes getPacket = .ok [0x01, 0xb3, 0x74, 0x76, 0x31] := rfl

theorem getRequest_admissible : (Event.protect getRequest).Admissible := by
  intro packet hread
  obtain rfl := Except.ok.inj (read_getRequest.symm.trans hread)
  exact ⟨.inr rfl, by decide⟩

/-- Contexts with short identifiers protect their first requests. -/
theorem getRequest_isOk {context : Context} {senderId recipientId : Bytes}
    (h : context.DerivesFrom secret salt algorithm senderId recipientId) (hid : senderId.length ≤ 1)
    (hsequence : context.senderSequence < 256) :
    ∃ bytes, (context.protectRequest getRequest).1 = .ok bytes := by
  have hle : context.nextPiv.length ≤ 1 := length_formatPiv_le Nat.one_pos hsequence
  have hpos : 0 < context.nextPiv.length := List.length_pos_iff.mpr (formatPiv_ne_nil _)
  obtain ⟨number, hpiv⟩ := List.length_eq_one_iff.mp (Nat.le_antisymm hle hpos)
  refine h.protect_isOk read_getRequest rfl innerBytes_getPacket (by decide) ?_
  rw [hpiv, h.senderId_eq]
  match senderId, hid with
  | [], _ => cases algorithm <;> exact Nat.le_of_ble_eq_true rfl
  | [_], _ => cases algorithm <;> exact Nat.le_of_ble_eq_true rfl

/-- Two requests, of which the second arrives first and twice. -/
def overtaking : List Event :=
  [.protect getRequest, .protect getRequest, .deliver 1, .deliver 1, .deliver 0]

theorem overtaking_admissible : ∀ event ∈ overtaking, event.Admissible := by
  intro event hmem
  rcases event with message | n
  · obtain rfl : message = getRequest := by simpa [overtaking] using hmem
    exact getRequest_admissible
  · trivial

/-- The second request is accepted at once, its second copy is not, and the first request still is. -/
theorem acceptedNumbers_overtaking {serverId : Bytes} {client server : Context}
    (hclient : Context.derive algorithm secret salt [] serverId = .ok client)
    (hserver : Context.derive algorithm secret salt serverId [] = .ok server) :
    ((between client (server.withWindow 4)).run overtaking).acceptedNumbers = [0, 1] := by
  obtain ⟨hderived, hzero⟩ := Context.of_derive hclient
  have hone : client.advance.senderSequence = 1 := congrArg (· + 1) hzero
  obtain ⟨first, hfirst⟩ := getRequest_isOk hderived (by decide) (by rw [hzero]; decide)
  obtain ⟨second, hsecond⟩ := getRequest_isOk hderived.advance (by decide) (by rw [hone]; decide)
  let asked := (between client (server.withWindow 4)).run (overtaking.take 2)
  have hasked : asked.requests = [(getRequest, .ok first), (getRequest, .ok second)] := by
    rw [← hfirst, ← hsecond]
    rfl
  have hnew : asked.Faithful 4 := run_faithful (between_faithful 4 hclient hserver)
    (fun event hmem => overtaking_admissible event (List.mem_of_mem_take hmem))
    (show 0 + 2 ≤ 2 ^ 40 by decide)
  have honce : (asked.step (.deliver 1)).acceptedNumbers = [1] := by
    have hnone : asked.acceptedNumbers = [] := rfl
    rw [acceptedNumbers_deliver hnew (by rw [hasked]; rfl), hnone]
    rfl
  have htwice : ((asked.step (.deliver 1)).step (.deliver 1)).acceptedNumbers = [1] := by
    rw [acceptedNumbers_deliver (step_deliver_faithful hnew 1)
      (by rw [requests_deliver, hasked]; rfl), honce]
    rfl
  change (((asked.step (.deliver 1)).step (.deliver 1)).step (.deliver 0)).acceptedNumbers = _
  rw [acceptedNumbers_deliver (step_deliver_faithful (step_deliver_faithful hnew 1) 1)
    (by rw [requests_deliver, requests_deliver, hasked]; rfl), htwice]
  rfl

/-- Two contexts of one secret exchange two requests, of which one overtakes the other. -/
theorem run_between_delivers_overtaking :
    ∃ client server, Context.derive .shortTag [0x01] [] [] [0x01] = .ok client ∧
      Context.derive .shortTag [0x01] [] [0x01] [] = .ok server ∧
      (∀ event ∈ overtaking, event.Admissible) ∧
      overtaking.countP Event.isProtect ≤ 2 ^ 40 ∧
      let channel := (between client (server.withWindow 4)).run overtaking
      channel.acceptedNumbers = [0, 1] ∧
      (∀ n out, (n, out) ∈ channel.accepted → ∃ message bytes packet,
        channel.requests[n]? = some (message, .ok bytes) ∧ Packet.ofBytes message = .ok packet ∧
          Packet.ofBytes out = .ok packet) ∧
      channel.acceptedNumbers.Nodup ∧
      ∀ n message bytes, channel.requests[n]? = some (message, .ok bytes) →
        ((∃ out, (channel.step (.deliver n)).accepted = (n, out) :: channel.accepted) ↔
          n ∉ channel.acceptedNumbers ∧ ∀ m ∈ channel.acceptedNumbers, m < n + min 4 64) := by
  obtain ⟨client, hclient, -⟩ := Context.derive_eq_ok [0x01] [] .shortTag [] [0x01]
  obtain ⟨server, hserver, -⟩ := Context.derive_eq_ok [0x01] [] .shortTag [0x01] []
  have hcount : overtaking.countP Event.isProtect ≤ 2 ^ 40 := by decide
  exact ⟨client, server, hclient, hserver, overtaking_admissible, hcount,
    acceptedNumbers_overtaking hclient hserver,
    run_between_delivers hclient hserver 4 overtaking_admissible hcount⟩

end Run

end Channel

end EdhocLab.Oscore
