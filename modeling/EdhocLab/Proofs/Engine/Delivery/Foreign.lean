import EdhocLab.Proofs.Engine.Availability
import EdhocLab.Proofs.Engine.Delivery.Offer

/-! # Suites without support

A Responder that is asked for a suite which it does not have still wants to read the ephemeral key
of the message, on a curve that it has to guess.  Only if that succeeds is there a session to offer
other suites from.
-/
namespace EdhocLab

open Cbor (Value)
open Handshake
open Handshake.Negotiation

namespace PublicKey

/-- What passes for an ephemeral key. -/
theorem ofEphemeral_isOk {curve : Curve} (hcurve : curve ≠ .ed25519) {bytes : Bytes} :
    (ofEphemeral curve bytes).isOk ↔ bytes.length = Key.byteLength ∧
      (curve = .p256 → (Curve.P256.decode (2 :: bytes)).isSome) := by
  unfold ofEphemeral
  by_cases hlength : bytes.length = Key.byteLength
  · rw [dif_pos hlength]
    cases curve with
    | ed25519 => exact absurd rfl hcurve
    | x25519 => simp [hlength]
    | p256 => cases Curve.P256.decode (2 :: bytes) <;> simp [hlength]
  · simp [hlength]

end PublicKey

namespace Handshake.Negotiation

variable {own : List Suite} {suitesI : Value} {selection : Selection}

theorem checkSuites_eq_ok {ids : List Int} (h : checkSuites suitesI ids = .ok selection) :
    ∃ listed, selection.offer = offerFor ids listed selection.selected := by
  unfold checkSuites at h
  split at h
  · split at h
    · cases h
      exact ⟨_, rfl⟩
    · cases h
  · obtain ⟨listed, -, h⟩ := bind_eq_ok.mp h
    cases h
    exact ⟨listed, rfl⟩
  · cases h

/-- A suite that one does not have is answered by an offer of suites that one has. -/
theorem offer_of_foreign (hown : own ≠ [])
    (h : checkSuites suitesI (own.map Suite.id) = .ok selection)
    (hforeign : selection.selected ∉ own.map Suite.id) :
    ∃ offered : List Suite, offered ≠ [] ∧ offered.length ≤ own.length ∧
      (∀ suite ∈ offered, suite ∈ own) ∧
      selection.offer = some (suitesValue (offered.map Suite.id)) := by
  obtain ⟨listed, hoffer⟩ := checkSuites_eq_ok h
  rw [hoffer, offerFor]
  cases hfind : listed.find? fun id => (own.map Suite.id).contains id with
  | none => exact ⟨own, hown, Nat.le_refl _, fun _ h => h, rfl⟩
  | some shared =>
    have hmem : shared ∈ own.map Suite.id := by simpa using List.find?_some hfind
    obtain ⟨suite, hsuite, rfl⟩ := List.mem_map.mp hmem
    have hne : suite.id ≠ selection.selected := fun heq => hforeign (heq ▸ hmem)
    refine ⟨[suite], List.cons_ne_nil suite [], List.length_pos_of_mem hsuite, ?_, if_neg hne⟩
    intro other hother
    rwa [List.mem_singleton.mp hother]

theorem isProper_suitesValue {suites : List Suite} (h : Cbor.fitsHead suites.length) :
    (suitesValue (suites.map Suite.id)).isProper := by
  have hid : ∀ suite : Suite, (Value.integer suite.id).isProper := by
    intro suite
    cases suite <;> decide
  have hall : Value.allProper ((suites.map Suite.id).map .integer) := by
    rw [Value.allProper_iff]
    intro v hv
    obtain ⟨id, hmem, rfl⟩ := List.mem_map.mp hv
    obtain ⟨suite, -, rfl⟩ := List.mem_map.mp hmem
    exact hid suite
  unfold suitesValue
  split
  · rename_i id hone
    rw [hone] at hall
    simpa [Value.allProper] using hall
  · rw [Value.isProper, List.length_map, List.length_map, h, hall]
    rfl

end Handshake.Negotiation

namespace Engine

variable {r : Engine} {sequence : Bytes} {received : Received1} {ead : List Value}

theorem accept1_suitesInError (e : Engine) (a : Accepted1) :
    (e.accept1 a).value.current.material.suitesInError = a.received.selection.offer :=
  congrArg (fun s => s.material.suitesInError) (SessionTable.currentSession_add ..)

/-- Only its ephemeral key decides whether a message that can be read is accepted. -/
theorem readMessage1_accepted (hrole : r.current.role = .responder)
    (hparse : r.parse1 sequence = .ok (received, ead))
    (hverify : (r.preVerify .message1 ead).result = .ok ())
    (hfree : (r.freeId? received.cI).isSome) :
    ((r.readMessage1 sequence).value.1 = true ↔
      (PublicKey.ofEphemeral ((Suite.ofId? received.selection.selected).getD
        (r.answeredSuite received.selection.selected)).dhCurve received.gX).isOk) ∧
    ((r.readMessage1 sequence).value.1 = true →
      (r.readMessage1 sequence).value.2.current.material.suitesInError =
        received.selection.offer) := by
  have hcheck : (r.check1 sequence).result =
      (r.answer1 received).result.map some := by
    rw [check1, Check.result_bind, Check.result_ofExcept, hparse, ok_bind, Check.result_bind,
      hverify, ok_bind, hrole, Check.result_bind]
    cases (r.answer1 received).result <;> rfl
  obtain ⟨connectionId, hid⟩ := Option.isSome_iff_exists.mp hfree
  rw [readMessage1_value, hcheck, answer1_result, hid]
  cases PublicKey.ofEphemeral ((Suite.ofId? received.selection.selected).getD
    (r.answeredSuite received.selection.selected)).dhCurve received.gX with
  | error error => simp [Except.map]
  | ok key => exact ⟨iff_of_true rfl rfl, fun _ => accept1_suitesInError ..⟩

/-- An offer can be sent whenever the peer can be addressed. -/
theorem writeError_offer {offered : List Suite}
    (hpeer : Cbor.fitsHead r.current.material.peerConnectionId.length)
    (hcount : Cbor.fitsHead offered.length) (haddress : r.CanAddress)
    (hoffer : r.current.material.suitesInError = some (suitesValue (offered.map Suite.id)))
    (diagnostic : Option String) :
    ∃ front message, (r.writeError wrongSuiteCode diagnostic).value.1 = some message ∧
      decodeItems message =
        .ok (front ++ [.integer wrongSuiteCode, suitesValue (offered.map Suite.id)]) := by
  have hprepended : (r.prepended .cX r.current.material.peerConnectionId).isOk :=
    prepended_isOk.mpr haddress
  obtain ⟨front, hfront⟩ := isOk_iff.mp hprepended
  have hproper : Value.allProper
      (front ++ [.integer wrongSuiteCode, suitesValue (offered.map Suite.id)]) := by
    have hsuites := isProper_suitesValue hcount
    have hcode : (Value.integer wrongSuiteCode).isProper := by decide
    rw [Value.allProper_append, allProper_prepended hpeer hfront]
    simp [Value.allProper, hsuites, hcode]
  obtain ⟨message, hmessage⟩ := isOk_iff.mp (KeySchedule.encodeItems_isOk.mpr hproper)
  have hitems := decodeItems_of_encodeItems hmessage (depth_offer hfront)
  rw [map_received_offer hfront] at hitems
  refine ⟨front, message, ?_, hitems⟩
  rw [writeError_value, toOption_eq_some, buildError_offer hoffer, hfront]
  exact hmessage

/-- A message that selects a suite without support is accepted exactly if its ephemeral key has the
right length and is one on the curve of that suite, or on that of the preferred suite if the selected
one is not even known.  Then other suites are offered. -/
theorem foreign_suite_offered {settings : Settings} {endpoint : Endpoint}
    (h : Reachable settings endpoint r) (hresponder : ownRole settings = .responder)
    (hcount : Cbor.fitsHead endpoint.suites.length)
    (hparse : r.parse1 sequence = .ok (received, ead))
    (hforeign : received.selection.selected ∉ endpoint.suiteIds)
    (hverify : (r.preVerify .message1 ead).result = .ok ())
    (hfree : (r.freeId? received.cI).isSome) :
    ∃ offered : List Suite, offered ≠ [] ∧ (∀ suite ∈ offered, suite ∈ endpoint.suites) ∧
      received.selection.offer = some (suitesValue (offered.map Suite.id)) ∧
      let curve := ((Suite.ofId? received.selection.selected).getD endpoint.preferredSuite).dhCurve
      let answered := (r.readMessage1 sequence).value
      (answered.1 = true ↔ received.gX.length = Key.byteLength ∧
        (curve = .p256 → (Curve.P256.decode (2 :: received.gX)).isSome)) ∧
      (answered.1 = true → answered.2.current.material.suitesInError = received.selection.offer ∧
        (answered.2.CanAddress → ∀ diagnostic, ∃ front message,
          (answered.2.writeError wrongSuiteCode diagnostic).value.1 = some message ∧
          decodeItems message =
            .ok (front ++ [.integer wrongSuiteCode, suitesValue (offered.map Suite.id)]))) := by
  obtain ⟨hsettings, hendpoint, -⟩ := h.coherent
  have hrole : r.current.role = .responder := h.role.trans hresponder
  obtain ⟨accepted, v, suitesI, w, rest, -, -, -, hselection, -, -, -⟩ := parse1_eq_ok hparse
  rw [hendpoint] at hselection
  obtain ⟨offered, hne, hle, hmem, hoffer⟩ :=
    offer_of_foreign (List.cons_ne_nil endpoint.preferredSuite endpoint.otherSuites) hselection
      hforeign
  have hfits : Cbor.fitsHead offered.length := by
    simp only [Cbor.fitsHead, decide_eq_true_eq] at hcount ⊢
    exact Nat.lt_of_le_of_lt hle hcount
  -- The session is started with the preferred suite in place of the one without support.
  have hanswered : r.answeredSuite received.selection.selected = endpoint.preferredSuite := by
    have hnone : (endpoint.suites.find? fun suite =>
        suite.id == received.selection.selected) = none := by
      rw [List.find?_eq_none]
      intro suite hsuite heq
      exact hforeign (List.mem_map.mpr ⟨suite, hsuite, beq_iff_eq.mp heq⟩)
    rw [answeredSuite, hendpoint, hnone]
    rfl
  obtain ⟨hiff, hholds⟩ := readMessage1_accepted hrole hparse hverify hfree
  rw [hanswered, PublicKey.ofEphemeral_isOk (Suite.dhCurve_ne_ed25519 _)] at hiff
  refine ⟨offered, hne, hmem, hoffer, hiff, fun haccepted => ⟨hholds haccepted, ?_⟩⟩
  intro haddress diagnostic
  have hreached : Reachable settings endpoint (r.readMessage1 sequence).value.2 :=
    h.called (.readMessage1 sequence) rfl
  exact writeError_offer hreached.coherent.2.2.current.identifiers.peer hfits haddress
    ((hholds haccepted).trans hoffer) diagnostic

section Callee

/-- A first message with suite 24, which no endpoint has, and the given ephemeral key. -/
def foreignMessage (gX : Bytes) : Bytes :=
  [0xf5, 0x00, 0x18, 0x18, 0x58, UInt8.ofNat gX.length] ++ gX ++ [0x36]

/-- What a Responder reads from a message, up to its authorization data. -/
def reading (e : Engine) (sequence : Bytes) : Option (Int × Option Value × Bytes × Bytes × List Value) :=
  (e.parse1 sequence).toOption.map fun (received, ead) =>
    (received.selection.selected, received.selection.offer, received.gX, received.cI, ead)

/-- With a key of the length that is expected, suite 0 is offered instead. -/
theorem callee_offers : ∃ received, callee.parse1 (foreignMessage (List.replicate 32 7)) =
      .ok (received, []) ∧
    let answered := (callee.readMessage1 (foreignMessage (List.replicate 32 7))).value
    answered.1 = true ∧ answered.2.current.material.suitesInError = some (.integer 0) ∧
      (answered.2.CanAddress → ∀ diagnostic, ∃ front message,
        (answered.2.writeError wrongSuiteCode diagnostic).value.1 = some message ∧
        decodeItems message = .ok (front ++ [.integer wrongSuiteCode, .integer 0])) := by
  have hreading : callee.reading (foreignMessage (List.replicate 32 7)) =
      some (24, some (.integer 0), List.replicate 32 7, [0x36], []) := by rfl
  obtain ⟨⟨received, ead⟩, hparse, hfound⟩ := Option.map_eq_some_iff.mp hreading
  rw [toOption_eq_some] at hparse
  simp only [Prod.mk.injEq] at hfound
  obtain ⟨hselected, hoffer, hgX, hcI, rfl⟩ := hfound
  obtain ⟨offered, -, -, hoffered, haccepted, hholds⟩ := foreign_suite_offered callee_reachable rfl
    (by decide) hparse (by rw [hselected]; decide) (by rw [preVerify_result]; rfl)
    (by rw [hcI]; exact callee_freeId)
  have hsuites : suitesValue (offered.map Suite.id) = .integer 0 :=
    Option.some.inj (hoffered.symm.trans hoffer)
  have hread := haccepted.mpr ⟨by rw [hgX]; rfl, by rw [hselected]; exact nofun⟩
  obtain ⟨hcurrent, hwritten⟩ := hholds hread
  rw [hsuites] at hwritten
  exact ⟨received, hparse, hread, hcurrent.trans hoffer, hwritten⟩

/-- A key of 48 bytes, as the suite asks for, is refused, so that nothing is offered. -/
theorem callee_refuses_foreign_key : (callee.freeId? [0x36]).isSome ∧
    24 ∉ callee.endpoint.suiteIds ∧
    callee.reading (foreignMessage (List.replicate 48 7)) =
      some (24, some (.integer 0), List.replicate 48 7, [0x36], []) ∧
    (callee.readMessage1 (foreignMessage (List.replicate 48 7))).value.1 = false :=
  ⟨callee_freeId, by decide, by rfl, by rfl⟩

end Callee

end Engine

end EdhocLab
