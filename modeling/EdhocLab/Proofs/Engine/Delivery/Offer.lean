import EdhocLab.Proofs.Engine.Handshake

/-! # Delivery of an offer

An Initiator that reads the suites offered by a Responder remembers them, so that its next first
message selects what both have, if there is anything.
-/
namespace EdhocLab

open Cbor (Value)
open Handshake
open Handshake.Negotiation

namespace Engine

variable {i r e : Engine} {diagnostic : Option String} {message : Bytes} {offered : List Suite}

/-- The offer of a session is what follows the code. -/
theorem errorInfo_offer
    (h : e.current.material.suitesInError = some (suitesValue (offered.map Suite.id))) :
    e.errorInfo wrongSuiteCode diagnostic = .ok (suitesValue (offered.map Suite.id)) := by
  unfold errorInfo
  rw [if_neg (by decide), if_pos rfl, h]
  simp only [Option.getD_some, suitesOf?_suitesValue, Option.isSome_some, if_true]

theorem buildError_offer
    (h : e.current.material.suitesInError = some (suitesValue (offered.map Suite.id))) :
    e.buildError wrongSuiteCode diagnostic =
      (e.prepended .cX e.current.material.peerConnectionId >>= fun front =>
        KeySchedule.encodeItems
          (front ++ [.integer wrongSuiteCode, suitesValue (offered.map Suite.id)])) := by
  simp only [buildError, errorInfo_offer h, ok_bind]

theorem depth_offer {id : Bytes} {front : List Value} (h : e.prepended .cX id = .ok front) :
    Value.depthOfItems (front ++ [.integer wrongSuiteCode, suitesValue (offered.map Suite.id)]) ≤
      Cbor.maxDepth := by
  have hflat := depth_front h
  have hdepth := depth_suitesValue (offered.map Suite.id)
  have hmax : 1 ≤ Cbor.maxDepth := by decide
  simp only [Value.depthOfItems_append, Value.depthOfItems, Value.depth, hflat]
  omega

theorem map_received_offer {id : Bytes} {front : List Value} (h : e.prepended .cX id = .ok front) :
    (front ++ [.integer wrongSuiteCode, suitesValue (offered.map Suite.id)]).map Value.received =
      front ++ [.integer wrongSuiteCode, suitesValue (offered.map Suite.id)] := by
  simp [map_received_front h, received_suitesValue, Value.received]

theorem parseError_ok {sequence : Bytes} {front : List Value} {h : e.sessions.Handle} {info : Value}
    (hitems : decodeItems sequence = .ok (front ++ [.integer wrongSuiteCode, info]))
    (hfront : front.length ≤ 1)
    (haddressed : e.addressed .cX (front ++ [.integer wrongSuiteCode, info]) =
      .ok (h, [.integer wrongSuiteCode, info])) :
    e.parseError sequence = .ok (h, wrongSuiteCode, info) := by
  have hcount : ((front ++ [.integer wrongSuiteCode, info]).isEmpty ||
      decide (3 < (front ++ [.integer wrongSuiteCode, info]).length)) = false := by
    cases front with
    | nil => rfl
    | cons v front =>
      have hlength : front.length = 0 := Nat.le_zero.mp (Nat.le_of_succ_le_succ hfront)
      simp [hlength]
  simp only [parseError, hitems, ok_bind, hcount, Bool.false_eq_true, if_false, haddressed, next_cons]
  rfl

theorem errorSuites_offer : (errorSuites wrongSuiteCode
    (suitesValue (offered.map Suite.id))).result = .ok (some (offered.map Suite.id)) := by
  unfold errorSuites
  rw [if_neg (by decide), if_neg (by decide), if_pos rfl, suitesOf?_suitesValue]
  rfl

/-- An offer is remembered for the current session of the Initiator. -/
theorem offer_delivered (hindexed : i.Indexed)
    (hprepends : i.settings.prependsOnReceive = r.settings.prependsOnSend)
    (haddress : r.current.material.peerConnectionId = i.current.material.connectionId)
    (hoffer : r.current.material.suitesInError = some (suitesValue (offered.map Suite.id)))
    (hwrite : (r.writeError wrongSuiteCode diagnostic).value.1 = some message) :
    ∃ i', (i.readError message).value = (true, i') ∧ i'.current.material =
      { i.current.material with peerSuites := offered.map Suite.id } := by
  rw [writeError_value, toOption_eq_some, buildError_offer hoffer, haddress] at hwrite
  obtain ⟨front, hfront, hmessage⟩ := bind_eq_ok.mp hwrite
  have hitems := decodeItems_of_encodeItems hmessage (depth_offer hfront)
  rw [map_received_offer hfront] at hitems
  have hparse := parseError_ok hitems (length_front hfront)
    (addressed_current hindexed hprepends hfront)
  have hcheck : (i.checkError message).result =
      .ok (i.sessions.currentHandle, some (offered.map Suite.id)) := by
    rw [checkError, Check.result_bind, Check.result_ofExcept, hparse, ok_bind, Check.result_bind,
      errorSuites_offer]
    rfl
  refine ⟨_, by rw [readError_value, hcheck], ?_⟩
  exact congrArg Session.material (SessionTable.currentSession_set_current ..)

/-- Negotiation comes to an end after one offer.  A selection that is not offered anything for is
the first listed suite that the Responder has.  Otherwise the Initiator that reads the offer next
selects its first suite that the Responder has, and is not offered anything again, or fails if there
is none. -/
theorem negotiation_converges {own others : List Suite} {peer : List Int} {suite : Suite}
    {suitesI : Value} (hothers : others ≠ []) (h : negotiate own peer = .ok (suite, suitesI)) :
    ∃ offer, checkSuites suitesI (others.map Suite.id) = .ok { selected := suite.id, offer } ∧
      (offer = none → suite ∈ others ∧ ∃ listed : List Suite,
        suitesI = suitesValue (listed.map Suite.id) ∧
        listed.find? (· ∈ others) = some suite) ∧
      ∀ suitesR, offer = some suitesR → ∀ (i r : Engine) (diagnostic : Option String)
        (message : Bytes), i.Indexed →
        i.settings.prependsOnReceive = r.settings.prependsOnSend →
        r.current.material.peerConnectionId = i.current.material.connectionId →
        r.current.material.suitesInError = some suitesR →
        (r.writeError wrongSuiteCode diagnostic).value.1 = some message →
        ∃ i', (i.readError message).value = (true, i') ∧
          ((∃ shared ∈ own, shared ∈ others) → ∃ shared suitesI',
            own.find? (· ∈ others) = some shared ∧
            negotiate own i'.current.material.peerSuites = .ok (shared, suitesI') ∧
            checkSuites suitesI' (others.map Suite.id) =
              .ok { selected := shared.id, offer := none }) ∧
          ((∀ shared ∈ own, shared ∉ others) →
            negotiate own i'.current.material.peerSuites = .error .noCommonSuite) := by
  obtain ⟨hselect, hvalue⟩ := negotiate_eq_ok.mp h
  have hmem := selectSuite_mem hselect
  refine ⟨_, checkSuites_of_negotiate h _, fun hnone => ?_, ?_⟩
  · have hfirst := offerFor_eq_none.mp hnone
    exact ⟨by simpa using List.find?_some hfirst, _, hvalue, hfirst⟩
  · intro suitesR hsome i r diagnostic message hindexed hprepends haddress hoffer hwrite
    obtain ⟨offered, hoffered, rfl, hfind⟩ := offerFor_eq_some hothers hmem hsome
    obtain ⟨i', hread, hmaterial⟩ := offer_delivered hindexed hprepends haddress hoffer hwrite
    -- Whatever is offered, the first own suite in it is the first that both have.
    have hnext := negotiate_of_offer (List.ne_nil_of_mem hmem) hoffered hfind
    refine ⟨i', hread, fun ⟨shared, hown, hshared⟩ => ?_, fun hdisjoint => ?_⟩
    · rw [hmaterial]
      cases hfirst : own.find? (· ∈ others) with
      | none => simpa [hshared] using List.find?_eq_none.mp hfirst shared hown
      | some first =>
        rw [hfirst] at hnext
        obtain ⟨suitesI', hnegotiate, hcheck⟩ := hnext
        exact ⟨first, suitesI', rfl, hnegotiate, hcheck⟩
    · have hnone : own.find? (· ∈ others) = none :=
        List.find?_eq_none.mpr fun suite hsuite => by simpa using hdisjoint suite hsuite
      rw [hnone] at hnext
      rw [hmaterial]
      exact hnext

/-- A Responder that supports suite 0 only, after a first message that selects suite 1. -/
def refusing : Engine :=
  callee.setCurrent { callee.current with
    material := { callee.current.material with
      peerConnectionId := [0x36], suitesInError := some (.integer 0) } }

/-- An Initiator that takes the other for one with suite 1 learns that it has suite 0. -/
theorem caller_converges :
    negotiate [.suite0, .suite1] [1] = .ok (.suite1, .array [.integer 0, .integer 1]) ∧
      checkSuites (.array [.integer 0, .integer 1]) [0] =
        .ok { selected := 1, offer := some (.integer 0) } ∧
      (refusing.writeError wrongSuiteCode none).value.1 = some [2, 0] ∧
      ∃ i', (caller.readError [2, 0]).value = (true, i') ∧
        ∃ suitesI', negotiate [.suite0, .suite1] i'.current.material.peerSuites =
            .ok (.suite0, suitesI') ∧
          checkSuites suitesI' [0] = .ok { selected := 0, offer := none } := by
  have hnegotiate : negotiate [.suite0, .suite1] [1] =
      .ok (.suite1, .array [.integer 0, .integer 1]) := rfl
  have hwrite : (refusing.writeError wrongSuiteCode none).value.1 = some [2, 0] := by
    rfl
  obtain ⟨hrole, hmaterial⟩ := caller_current
  have hoffer : refusing.current.material.suitesInError = some (.integer 0) :=
    congrArg (fun s => s.material.suitesInError) (SessionTable.currentSession_set_current ..)
  have haddress : refusing.current.material.peerConnectionId =
      caller.current.material.connectionId := by
    rw [hmaterial]
    exact congrArg (fun s => s.material.peerConnectionId) (SessionTable.currentSession_set_current ..)
  obtain ⟨offer, hcheck, -, hconverges⟩ :=
    negotiation_converges (List.cons_ne_nil .suite0 []) hnegotiate
  obtain rfl : some (.integer 0) = offer := congrArg Selection.offer (Except.ok.inj hcheck)
  obtain ⟨i', hread, hshared, -⟩ := hconverges _ rfl caller refusing none [2, 0]
    caller_reachable.indexed rfl haddress hoffer hwrite
  obtain ⟨shared, suitesI', hfirst, hnext, haccepted⟩ := hshared ⟨.suite0, by decide, by decide⟩
  obtain rfl : Suite.suite0 = shared := Option.some.inj hfirst
  exact ⟨hnegotiate, rfl, hwrite, i', hread, suitesI', hnext, haccepted⟩

end Engine

end EdhocLab
