import EdhocLab.Proofs.Engine.Linked

/-! # Delivery of the first message

A Responder accepts the first message of an engine that it is linked with, and starts a session that
mirrors what the message said.
-/
namespace EdhocLab

open Cbor (Value)
open Handshake

namespace Material

/-- What an Initiator and a Responder have in common after the first message. -/
structure AfterMessage1 (i r : Material) : Prop where
  method_eq : i.method = r.method
  suite_eq : i.suite = r.suite
  hash_eq : i.hashMessage1 = r.hashMessage1
  initiatorId_eq : r.peerConnectionId = i.connectionId
  ids_ne : r.connectionId ≠ i.connectionId
  initiatorKey : r.peerEphemeralKey.Same i.ephemeralKey.publicKey

end Material

namespace Engine

variable {i r i' r' : Engine}

/-- What a written first message and the session behind it consist of. -/
theorem writeMessage1_eq_some {message : Bytes} (h : i.writeMessage1.value = (some message, i'))
    (hrole : i.current.role = .initiator) :
    ∃ offer m, i.offer1.result = .ok offer ∧
      m = (i.current.material.selectSuite i.endpoint .initiator offer.suite i.entropy).1 ∧
      KeySchedule.encodeItems (i.leadingTrue ++ elements1 m offer) = .ok message ∧
      i'.current.material =
        { m with hashMessage1 := KeySchedule.hash (message.drop i.leadingTrue.length) } := by
  rw [writeMessage1_value] at h
  cases hoffer : i.offer1.result with
  | error _ => simp [hoffer] at h
  | ok offer =>
    have hcurrent : (i.selectSuite .initiator offer.suite).current = { i.current with
        material := (i.current.material.selectSuite i.endpoint .initiator offer.suite
          i.entropy).1 } := SessionTable.currentSession_set_current ..
    simp only [hoffer, hrole, hcurrent] at h
    cases hmessage : KeySchedule.encodeItems (i.leadingTrue ++ elements1
        (i.current.material.selectSuite i.endpoint .initiator offer.suite i.entropy).1 offer) with
    | error _ => simp [hmessage] at h
    | ok bytes =>
      simp only [hmessage, Prod.mk.injEq, Option.some.injEq] at h
      obtain ⟨rfl, rfl⟩ := h
      exact ⟨offer, _, rfl, rfl, hmessage,
        congrArg Session.material (SessionTable.currentSession_set_current ..)⟩

/-- The session that starts with an accepted message. -/
theorem accept1_current (e : Engine) (a : Accepted1) :
    (e.accept1 a).value.current.material.method = a.received.method ∧
      (e.accept1 a).value.current.material.suite = a.suite ∧
      (e.accept1 a).value.current.material.hashMessage1 = KeySchedule.hash a.received.hashed ∧
      (e.accept1 a).value.current.material.peerConnectionId = a.received.cI ∧
      (e.accept1 a).value.current.material.connectionId = a.connectionId ∧
      (e.accept1 a).value.current.material.peerEphemeralKey = a.peerEphemeralKey := by
  let started := (startSession e.settings e.endpoint .responder a.received.method a.connectionId
    e.current.material.peerSuites e.contexts e.entropy).value
  let m := (started.1.material.selectSuite e.endpoint .responder a.suite started.2.2).1
  have hcurrent : (e.accept1 a).value.current.material = { m with
      peerConnectionId := a.received.cI
      peerEphemeralKey := a.peerEphemeralKey
      hashMessage1 := KeySchedule.hash a.received.hashed
      suitesInError := a.received.selection.offer } :=
    congrArg Session.material (SessionTable.currentSession_add ..)
  have hfresh : started.1.material = (Material.fresh e.endpoint .responder a.received.method
      a.connectionId e.current.material.peerSuites e.entropy).1 := startSession_material ..
  have hmethod : m.method = a.received.method := by
    rw [show m.method = _ from Material.selectSuite_method .., hfresh]
    rfl
  have hid : m.connectionId = a.connectionId := by
    rw [show m.connectionId = _ from Material.selectSuite_connectionId .., hfresh]
    rfl
  rw [hcurrent]
  exact ⟨hmethod, Material.selectSuite_suite .., rfl, rfl, hid, rfl⟩

theorem answeredSuite_id {e : Engine} {suite : Suite} (h : suite ∈ e.endpoint.suites) :
    e.answeredSuite suite.id = suite := by
  unfold answeredSuite
  cases hfind : e.endpoint.suites.find? fun other => other.id == suite.id with
  | none => simpa using List.find?_eq_none.mp hfind suite h
  | some found =>
    have hid : found.id = suite.id := by simpa using List.find?_some hfind
    have hsame := congrArg Suite.ofId? hid
    rw [Suite.ofId?_id, Suite.ofId?_id] at hsame
    exact Option.some.inj hsame

theorem method1_ok {e : Engine} {method : UInt8} (h : e.profile.allows method.toNat) :
    e.method1 (.integer method.toNat) = .ok method := by
  have hint : intOf .method (.integer method.toNat) = .ok (method.toNat : Int) := by
    have hlt := method.toNat_lt
    rw [intOf, Value.int64?, if_pos (by omega)]
  rw [method1, hint, ok_bind, if_pos h]
  simp

theorem parse1_ok {e : Engine} {sequence : Bytes} {items rest ead : List Value}
    {method suitesI cI : Value} {received : Received1} (hitems : decodeItems sequence = .ok items)
    (hleading : e.leading1 items = .ok (method :: suitesI :: .bytes received.gX :: cI :: rest))
    (hmethod : e.method1 method = .ok received.method)
    (hsuites : Negotiation.checkSuites suitesI e.endpoint.suiteIds = .ok received.selection)
    (hcI : identifierOf .cI cI = .ok received.cI) (head : e.acceptEad rest = .ok ead)
    (hhashed : received.hashed = if e.settings.prependsOnReceive then sequence.drop 1 else sequence) :
    e.parse1 sequence = .ok (received, ead) := by
  have hempty : items.isEmpty = false := by
    rw [leading1_eq_ok.mp hleading]
    split <;> rfl
  obtain ⟨method', selection, gX, cI', hashed⟩ := received
  dsimp only at hleading hmethod hsuites hcI hhashed
  simp only [parse1, hitems, hempty, hleading, hmethod, hsuites, hcI, head, hhashed, next_cons,
    nextBytes_cons, ok_bind, Bool.false_eq_true, if_false, pure_eq_ok]

theorem check1_ok {e : Engine} {sequence : Bytes} {received : Received1} {ead : List Value}
    {a : Accepted1} (hrole : e.current.role = .responder)
    (hparse : e.parse1 sequence = .ok (received, ead))
    (hpre : (e.preVerify .message1 ead).result = .ok ())
    (hanswer : (e.answer1 received).result = .ok a) :
    (e.check1 sequence).result = .ok (some a) := by
  rw [check1, Check.result_bind, Check.result_ofExcept, hparse, ok_bind, Check.result_bind, hpre,
    ok_bind, hrole, Check.result_bind, hanswer]
  rfl

section Written

variable {offer : Offer1} {m : Material} {message : Bytes} {items : List Ead.Item}

/-- What a Responder takes out of a first message. -/
def written1 (i r : Engine) (m : Material) (offer : Offer1) (message : Bytes) : Received1 where
  method := m.method
  selection := {
    selected := offer.suite.id
    offer := Negotiation.offerFor r.endpoint.suiteIds
      ((Negotiation.upTo i.endpoint.suites offer.suite).map Suite.id) offer.suite.id }
  gX := m.ephemeralKey.publicKey.toBytes
  cI := i.current.material.connectionId
  hashed := if r.settings.prependsOnReceive then message.drop 1 else message

/-- Both sides hash the message without what stands in front of it in a request. -/
theorem hashed_written1 (hattuned : r.Attuned i) :
    (written1 i r m offer message).hashed = message.drop i.leadingTrue.length := by
  simp only [written1, leadingTrue, hattuned.prepends_eq]
  split <;> rfl

theorem depth_elements1 (hsends : i.Sends r .message1 items) (hoffer : i.offer1.result = .ok offer) :
    Value.depthOfItems (i.leadingTrue ++ elements1 m offer) ≤ Cbor.maxDepth := by
  obtain ⟨hnegotiate, hcI, head⟩ := offer1_eq_ok hoffer
  have hsuites := Negotiation.depth_of_negotiate hnegotiate
  have hidentifier := Cbor.Identifier.depth_toValue? (identifierValue_eq_ok.mp hcI)
  have hmax : 1 ≤ Cbor.maxDepth := by decide
  unfold leadingTrue
  split <;> simp [elements1, Value.depthOfItems, Value.depth, hidentifier,
    hsends.eq_of_produce head] <;> omega

theorem map_received_elements1 (hsends : i.Sends r .message1 items)
    (hoffer : i.offer1.result = .ok offer) : (i.leadingTrue ++ elements1 m offer).map Value.received =
      i.leadingTrue ++ elements1 m offer := by
  obtain ⟨hnegotiate, hcI, head⟩ := offer1_eq_ok hoffer
  have hsuites := Negotiation.received_of_negotiate hnegotiate
  have hidentifier := Cbor.Identifier.received_toValue? (identifierValue_eq_ok.mp hcI)
  unfold leadingTrue
  split <;> simp [elements1, Value.received, hsuites, hidentifier, hsends.eq_of_produce head]

theorem parse1_written (hattuned : r.Attuned i) (hsends : i.Sends r .message1 items)
    (hoffer : i.offer1.result = .ok offer) (hallowed : r.profile.allows m.method.toNat)
    (hmessage : KeySchedule.encodeItems (i.leadingTrue ++ elements1 m offer) = .ok message) :
    r.parse1 message =
      .ok (written1 i r m offer message, Ead.handed r.endpoint.eadLabels items) := by
  obtain ⟨hnegotiate, hcI, head⟩ := offer1_eq_ok hoffer
  have hitems := decodeItems_of_encodeItems hmessage (depth_elements1 hsends hoffer)
  rw [map_received_elements1 hsends hoffer] at hitems
  have hleading : r.leading1 (i.leadingTrue ++ elements1 m offer) = .ok (elements1 m offer) := by
    rw [leading1_eq_ok, hattuned.prepends_eq, leadingTrue]
    split <;> rfl
  have hsuites := Negotiation.checkSuites_of_negotiate hnegotiate r.endpoint.suiteIds
  have hidentifier := Cbor.Identifier.ofValue?_toValue? (identifierValue_eq_ok.mp hcI)
  have haccept : r.acceptEad offer.ead = .ok (Ead.handed r.endpoint.eadLabels items) := by
    rw [hsends.eq_of_produce head, hsends.acceptEad_ok]
  exact parse1_ok hitems hleading (method1_ok hallowed) hsuites (identifierOf_eq_ok.mpr hidentifier)
    haccept rfl

end Written

/-- A first message is accepted if its suite is supported, its method allowed, its authorization data
supported or left to skip, and an identifier left for the session. -/
theorem message1_received {message : Bytes} {items : List Ead.Item} (hattuned : r.Attuned i)
    (hsends : i.Sends r .message1 items) (hi : i'.Coherent)
    (hinitiator : i.current.role = .initiator) (hresponder : r.current.role = .responder)
    (hallowed : r.profile.allows i.current.material.method.toNat)
    (hwrite : i.writeMessage1.value = (some message, i'))
    (hsuite : i'.current.material.suite ∈ r.endpoint.suites)
    (hfree : (r.freeId? i.current.material.connectionId).isSome) :
    ∃ r', (r.readMessage1 message).value = (true, r') ∧
      i'.current.material.AfterMessage1 r'.current.material := by
  obtain ⟨offer, m, hoffer, hm, hmessage, hmaterial⟩ := writeMessage1_eq_some hwrite hinitiator
  obtain ⟨connectionId, hfree⟩ := Option.isSome_iff_exists.mp hfree
  have hmethod : m.method = i.current.material.method := hm ▸ Material.selectSuite_method ..
  have hid : m.connectionId = i.current.material.connectionId :=
    hm ▸ Material.selectSuite_connectionId ..
  have hselected : m.suite = offer.suite := hm ▸ Material.selectSuite_suite ..
  have hsuite : offer.suite ∈ r.endpoint.suites := by
    rw [hmaterial] at hsuite
    exact hselected ▸ hsuite
  have hcurve : m.ephemeralKey.publicKey.curve = offer.suite.dhCurve := by
    have hkeys := hi.current.keys.ephemeral_curve
    rw [hmaterial] at hkeys
    exact hselected ▸ hkeys
  -- The Responder reads the key on the curve of the selected suite, which it was made for.
  obtain ⟨peerEphemeralKey, hkey, hsame⟩ :=
    PublicKey.ofEphemeral_toBytes (hcurve ▸ offer.suite.dhCurve_ne_ed25519)
  rw [hcurve] at hkey
  let received := written1 i r m offer message
  let a : Accepted1 := { received, suite := offer.suite, peerEphemeralKey, connectionId }
  have hparse := parse1_written hattuned hsends hoffer (hmethod ▸ hallowed) hmessage
  have hanswer : (r.answer1 received).result = .ok a :=
    answer1_eq_ok.mpr ⟨rfl, (answeredSuite_id hsuite).symm,
      by rw [show received.selection.selected = offer.suite.id from rfl, Suite.ofId?_id]; exact hkey,
      hfree⟩
  refine ⟨(r.accept1 a).value, ?_, ?_⟩
  · rw [readMessage1_value, check1_ok hresponder hparse (hattuned.preVerify_ok ..) hanswer]
  · obtain ⟨hm', hs', hh', hp', hc', hk'⟩ := r.accept1_current a
    rw [hmaterial]
    exact {
      method_eq := hm'.symm
      suite_eq := hselected.trans hs'.symm
      hash_eq := by rw [hh', hashed_written1 hattuned]
      initiatorId_eq := hp'.trans hid.symm
      ids_ne := by
        have hne := (freeId?_eq_some hfree).1
        simp only [isFree, Bool.and_eq_true, bne_iff_ne] at hne
        rw [hc', hid]
        exact hne.1.2
      initiatorKey := by rw [hk']; exact hsame }

/-- A Responder that supports what it is sent accepts the first message. -/
theorem message1_delivered {message : Bytes} (hheard : r.Hears i) (hi : i'.Coherent)
    (hinitiator : i.current.role = .initiator) (hresponder : r.current.role = .responder)
    (hallowed : r.profile.allows i.current.material.method.toNat)
    (hwrite : i.writeMessage1.value = (some message, i'))
    (hsuite : i'.current.material.suite ∈ r.endpoint.suites)
    (hfree : (r.freeId? i.current.material.connectionId).isSome) :
    ∃ r', (r.readMessage1 message).value = (true, r') ∧
      i'.current.material.AfterMessage1 r'.current.material := by
  obtain ⟨offer, _, hoffer, -⟩ := writeMessage1_eq_some hwrite hinitiator
  obtain ⟨-, -, head⟩ := offer1_eq_ok hoffer
  obtain ⟨items, hsends, -⟩ := hheard.sends head
  exact message1_received hheard.toAttuned hsends hi hinitiator hresponder hallowed hwrite hsuite
    hfree

end Engine

end EdhocLab
