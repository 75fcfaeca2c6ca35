import EdhocLab.Proofs.Engine.Availability
import EdhocLab.Proofs.Engine.Delivery.Message3

/-! # Handshakes

An Initiator and a Responder that know each other complete the handshake, whatever either engine has
been through before, and come to the same keys.
-/
namespace EdhocLab

open Cbor (Value)
open Handshake

namespace Engine

variable {i r i' r' : Engine}

/-- An Initiator and a Responder of one revision, one of them the client, that know the credentials
of each other for a method and a suite and support the authorization data that they send. -/
structure Counterparts (i r : Engine) (method : UInt8) (suite : Suite) : Prop where
  initiator : i.settings.isInitiator = true
  responder : r.settings.isInitiator = false
  version_eq : i.settings.version = r.settings.version
  cxCorrelation_eq : i.settings.cxCorrelation = r.settings.cxCorrelation
  isCoapClient_eq : i.settings.isCoapClient = !r.settings.isCoapClient
  initiatorKnown : ∀ credential, i.endpoint.authCredential .initiator method suite = some credential →
    r.endpoint.Knows credential
  responderKnown : ∀ credential, r.endpoint.authCredential .responder method suite = some credential →
    i.endpoint.Knows credential
  initiatorKept : ∀ slot values, i.endpoint.hooks.produce slot = .ok values →
    Ead.Kept r.eadConvention r.endpoint.eadLabels values
  responderKept : ∀ slot values, r.endpoint.hooks.produce slot = .ok values →
    Ead.Kept i.eadConvention i.endpoint.eadLabels values
  initiatorLenient : i.endpoint.hooks.Lenient
  responderLenient : r.endpoint.hooks.Lenient

namespace Counterparts

variable {method : UInt8} {suite : Suite}

theorem responder_hears (h : Counterparts i r method suite) : r.Hears i where
  version_eq := h.version_eq.symm
  prepends_eq := by
    rw [Settings.prependsOnReceive, Settings.prependsOnSend, h.isCoapClient_eq, h.cxCorrelation_eq]
  kept := h.initiatorKept
  lenient := h.responderLenient

theorem initiator_hears (h : Counterparts i r method suite) : i.Hears r where
  version_eq := h.version_eq
  prepends_eq := by
    rw [Settings.prependsOnReceive, Settings.prependsOnSend, h.isCoapClient_eq, h.cxCorrelation_eq,
      Bool.not_not]
  kept := h.responderKept
  lenient := h.initiatorLenient

end Counterparts

/-- What a call leads to is reachable again. -/
theorem Reachable.called {settings : Settings} {endpoint : Endpoint} {e : Engine}
    (h : Reachable settings endpoint e) (call : Call) {answered : Answer × Engine}
    (hcall : (e.perform call).value = answered) : Reachable settings endpoint answered.2 :=
  hcall ▸ h.acted (.call call)

theorem Reachable.role {settings : Settings} {endpoint : Endpoint} {e : Engine}
    (h : Reachable settings endpoint e) : e.current.role = ownRole settings := by
  rw [h.indexed.current_role, h.coherent.1]

/-- The engines that an endpoint gets to have the same settings. -/
theorem Reachable.same {settings : Settings} {endpoint : Endpoint} {e e' : Engine}
    (h : Reachable settings endpoint e) (h' : Reachable settings endpoint e') :
    e'.settings = e.settings ∧ e'.endpoint = e.endpoint :=
  ⟨h'.coherent.1.trans h.coherent.1.symm, h'.coherent.2.1.trans h.coherent.2.1.symm⟩

/-- The credential of a session follows from its method and suite. -/
theorem Reachable.credential {settings : Settings} {endpoint : Endpoint} {e : Engine}
    (h : Reachable settings endpoint e) : e.current.material.credential =
      endpoint.authCredential (ownRole settings) e.current.material.method
        e.current.material.suite := by
  rw [h.coherent.2.2.current.keys.credential_eq, h.role, h.coherent.2.1]

/-- An Initiator that signs writes its third message at any time, if it can address the peer. -/
theorem Reachable.writes_message3 {settings : Settings} {endpoint : Endpoint} {e : Engine}
    (h : Reachable settings endpoint e) (hequipped : endpoint.Equipped)
    (hinitiator : ownRole settings = .initiator)
    (hsigns : Endpoint.signs .initiator e.current.material.method)
    (haddress : e.current.material.peerConnectionId ≠ []) :
    ∃ message e', e.writeMessage3.value = (some message, e') := by
  have hrole : e.current.role = .initiator := h.role.trans hinitiator
  obtain ⟨rfl, rfl, hcoherent⟩ := h.coherent
  have hprove : e.current.CanProve .initiator := by
    rw [Session.CanProve, if_pos hsigns, hrole, Endpoint.authCurve, if_pos hsigns]
  have hsome : e.writeMessage3.value.1.isSome := by
    rw [writeMessage3_isSome, build3_isOk hcoherent.current hequipped]
    exact ⟨fun _ => haddress, hprove⟩
  obtain ⟨message, hmessage⟩ := Option.isSome_iff_exists.mp hsome
  exact ⟨message, _, Prod.ext hmessage rfl⟩

section Acquainted

/-- An endpoint with its keys under a key identifier, and one peer that has the same signature key
under another. -/
def acquainted (kid peerKid : Bytes) : Endpoint where
  preferredSuite := .suite0
  otherSuites := []
  own := [((.signature, .ed25519), .ofKid (KeyPair.last .ed25519) kid),
    ((.ecdh, .x25519), .ofKid (KeyPair.last .x25519) kid)]
  peers := [(OwnCredential.ofKid (KeyPair.last .ed25519) peerKid).toPeer]
  eadLabels := []
  profiles := [("coap://localhost:5683/.well-known/edhoc", {})]
  hooks := .silent
  oscoreUri := ""

/-- A fresh Initiator of the endpoint with the first key identifier. -/
def caller : Engine := initial {} (acquainted [1] [2]) {} { blocks := [], seed := 0, counter := 0 }

/-- A fresh Responder of the endpoint with the second key identifier. -/
def callee : Engine :=
  initial { isInitiator := false, isCoapClient := false } (acquainted [2] [1]) {}
    { blocks := [], seed := 0, counter := 0 }

theorem caller_current :
    caller.current.role = .initiator ∧ caller.current.material = (Material.fresh (acquainted [1] [2])
      .initiator 0 [0x36] [] { blocks := [], seed := 0, counter := 0 }).1 := by
  rw [caller, initial_current, startSession_role, startSession_material]
  exact ⟨rfl, rfl⟩

theorem caller_reachable : Reachable {} (acquainted [1] [2]) caller :=
  .created (by rw [create_result]; rfl)

theorem callee_reachable :
    Reachable { isInitiator := false, isCoapClient := false } (acquainted [2] [1]) callee :=
  .created (by rw [create_result]; rfl)

theorem callee_freeId : (callee.freeId? [0x36]).isSome := by rfl

/-- The first message of the Initiator, which selects the only suite. -/
theorem caller_writeMessage1 : ∃ m₁ i₁, caller.writeMessage1.value = (some m₁, i₁) ∧
    i₁.current.material.method = 0 ∧ i₁.current.material.suite = .suite0 ∧
    i₁.current.material.peerConnectionId = Material.unknownId := by
  have hsome : caller.writeMessage1.value.1.isSome := by rfl
  obtain ⟨hrole, hmaterial⟩ := caller_current
  obtain ⟨m₁, hm₁⟩ := Option.isSome_iff_exists.mp hsome
  have hwrite : caller.writeMessage1.value = (some m₁, caller.writeMessage1.value.2) :=
    Prod.ext hm₁ rfl
  obtain ⟨offer, m, hoffer, hm, -, hi₁⟩ := writeMessage1_eq_some hwrite hrole
  refine ⟨m₁, _, hwrite, ?_⟩
  rw [hi₁, hm]
  exact ⟨(Material.selectSuite_method ..).trans (by rw [hmaterial]; rfl),
    (Material.selectSuite_suite ..).trans (List.mem_singleton.mp (suite_mem_of_offer1 hoffer)),
    (Material.selectSuite_peerConnectionId ..).trans (by rw [hmaterial]; rfl)⟩

theorem acquainted_knows (kid peerKid : Bytes) (hne : kid ≠ peerKid) :
    (acquainted kid peerKid).Knows (.ofKid (KeyPair.last .ed25519) peerKid) := by
  apply Endpoint.knows_ofKid
  · simp [Endpoint.peer?, acquainted, OwnCredential.toPeer, OwnCredential.ofKid]
  · simp [Endpoint.isOwnIdCred, acquainted, OwnCredential.ofKid, Cose.isSame_kidMap, hne]

/-- The engines of two acquainted endpoints are counterparts for mutual signatures. -/
theorem acquainted_counterparts : Counterparts caller callee 0 .suite0 where
  initiator := rfl
  responder := rfl
  version_eq := rfl
  cxCorrelation_eq := rfl
  isCoapClient_eq := rfl
  initiatorKnown credential h := by
    obtain rfl : OwnCredential.ofKid (KeyPair.last .ed25519) [1] = credential := Option.some.inj h
    exact acquainted_knows [2] [1] (by decide)
  responderKnown credential h := by
    obtain rfl : OwnCredential.ofKid (KeyPair.last .ed25519) [2] = credential := Option.some.inj h
    exact acquainted_knows [1] [2] (by decide)
  initiatorKept slot values h := by
    cases h
    exact ⟨[], by simp, rfl⟩
  responderKept slot values h := by
    cases h
    exact ⟨[], by simp, rfl⟩
  initiatorLenient := ⟨fun _ _ => rfl, fun _ _ _ => rfl⟩
  responderLenient := ⟨fun _ _ => rfl, fun _ _ _ => rfl⟩

theorem acquainted_equipped {kid peerKid : Bytes} (hpos : 1 ≤ kid.length)
    (hmax : kid.length ≤ 1000) : (acquainted kid peerKid).Equipped where
  signature suite hsuite := by
    cases List.mem_singleton.mp hsuite
    exact ⟨_, kid, rfl, rfl, rfl, hpos, hmax⟩
  ecdh suite hsuite := by
    cases List.mem_singleton.mp hsuite
    exact ⟨_, kid, rfl, rfl, rfl, hpos, hmax⟩
  silent _ := rfl

variable {m₁ m₂ : Bytes} {i₁ i₂ r₁ r₂ : Engine}

/-- The Responder answers the first message of the Initiator. -/
theorem callee_answers (hi₁ : Reachable {} (acquainted [1] [2]) i₁)
    (hwrite : caller.writeMessage1.value = (some m₁, i₁))
    (hmethod : i₁.current.material.method = 0) (hsuite : i₁.current.material.suite = .suite0) :
    ∃ r₁ m₂ r₂, (callee.readMessage1 m₁).value = (true, r₁) ∧
      r₁.writeMessage2.value = (some m₂, r₂) ∧
      i₁.current.material.AfterMessage1 r₁.current.material ∧
      Reachable { isInitiator := false, isCoapClient := false } (acquainted [2] [1]) r₁ := by
  obtain ⟨hrole, hmaterial⟩ := caller_current
  obtain ⟨r₁, hread, hafter⟩ := message1_delivered acquainted_counterparts.responder_hears
    hi₁.coherent.2.2 hrole callee_reachable.role (by rw [hmaterial]; rfl) hwrite
    (by rw [hsuite]; exact List.mem_singleton_self _) (by rw [hmaterial]; exact callee_freeId)
  have hr₁ : Reachable { isInitiator := false, isCoapClient := false } (acquainted [2] [1]) r₁ :=
    callee_reachable.called (.readMessage1 m₁) (congrArg (Prod.map Answer.read id) hread)
  obtain ⟨hsettings, hendpoint, hcoherent⟩ := hr₁.coherent
  have haddress : r₁.CanAddress := by
    rw [CanAddress, hsettings]
    exact nofun
  have hephemeral : r₁.current.material.peerEphemeralKey.curve =
      r₁.current.material.suite.dhCurve := by
    rw [hafter.initiatorKey.curve_eq, ← hafter.suite_eq]
    exact hi₁.coherent.2.2.current.keys.ephemeral_curve
  have hprove : r₁.current.CanProve .responder := by
    rw [Session.CanProve, hr₁.role, ← hafter.method_eq, hmethod]
    rfl
  have hsome : r₁.writeMessage2.value.1.isSome := by
    rw [writeMessage2_isSome, build2_isOk hcoherent.current (hendpoint ▸ acquainted_equipped
      (by decide) (by decide)) (hsettings ▸ by decide) (hsettings ▸ by decide)]
    exact ⟨haddress, hephemeral, hprove⟩
  obtain ⟨m₂, hm₂⟩ := Option.isSome_iff_exists.mp hsome
  exact ⟨r₁, m₂, r₁.writeMessage2.value.2, hread, Prod.ext hm₂ rfl, hafter, hr₁⟩

/-- The Initiator learns an identifier that is no placeholder. -/
theorem caller_learns (hi₂ : Reachable {} (acquainted [1] [2]) i₂)
    (hr₁ : Reachable { isInitiator := false, isCoapClient := false } (acquainted [2] [1]) r₁)
    (hafter : i₂.current.material.AfterMessage1 r₁.current.material)
    (hmethod : i₂.current.material.method = 0) (hsuite : i₂.current.material.suite = .suite0)
    (hwrite : r₁.writeMessage2.value = (some m₂, r₂)) :
    ∃ i₃, (i₂.readMessage2 m₂).value = (true, i₃) ∧
      i₃.current.material.AfterMessage2 r₂.current.material ∧
      i₃.current.material.method = 0 ∧ i₃.current.material.suite = .suite0 ∧
      (i₃.current.material.peerConnectionId.length = 1 ∨
        i₃.current.material.peerConnectionId.length = 2) := by
  have hheard : i₂.Hears r₁ := by
    obtain ⟨hsi, hei⟩ := caller_reachable.same hi₂
    obtain ⟨hsr, her⟩ := callee_reachable.same hr₁
    exact acquainted_counterparts.initiator_hears.of_eq hsi hei hsr her
  have hknown : ∀ credential, r₁.current.material.credential = some credential →
      i₂.endpoint.Knows credential := by
    intro credential hcredential
    rw [hr₁.credential, ← hafter.method_eq, ← hafter.suite_eq, hmethod, hsuite] at hcredential
    rw [(caller_reachable.same hi₂).2]
    exact acquainted_counterparts.responderKnown credential hcredential
  obtain ⟨i₃, hread, hafter₂⟩ := message2_delivered hheard hi₂.indexed hr₁.coherent.2.2 hi₂.role
    hr₁.role hafter hknown hwrite
  have hr₂ : Reachable { isInitiator := false, isCoapClient := false } (acquainted [2] [1]) r₂ :=
    hr₁.called .writeMessage2 (congrArg (Prod.map Answer.written id) hwrite)
  obtain ⟨phase2, -, hmaterial⟩ := writeMessage2_eq_some hwrite hr₁.role
  refine ⟨i₃, hread, hafter₂, ?_, ?_, ?_⟩
  · rw [hafter₂.method_eq, hmaterial, ← hafter.method_eq, hmethod]
  · rw [hafter₂.suite_eq, hmaterial, ← hafter.suite_eq, hsuite]
  · rw [hafter₂.responderId_eq]
    rcases hr₂.coherent.2.2.current.identifiers.own with heq | hlength
    · rw [heq, hr₂.coherent.1]
      exact .inl rfl
    · exact hlength

/-- The first two messages between the acquainted engines, which are accepted. -/
structure Exchanged (m₁ m₂ : Bytes) (i₁ i₂ r₁ r₂ : Engine) : Prop where
  write1 : caller.writeMessage1.value = (some m₁, i₁)
  read1 : (callee.readMessage1 m₁).value = (true, r₁)
  write2 : r₁.writeMessage2.value = (some m₂, r₂)
  read2 : (i₁.readMessage2 m₂).value = (true, i₂)
  offering : Reachable {} (acquainted [1] [2]) i₁
  method_suite : i₁.current.material.method = 0 ∧ i₁.current.material.suite = .suite0
  answering : Reachable { isInitiator := false, isCoapClient := false } (acquainted [2] [1]) r₁
  initiator : Reachable {} (acquainted [1] [2]) i₂
  responder : Reachable { isInitiator := false, isCoapClient := false } (acquainted [2] [1]) r₂
  after : i₂.current.material.AfterMessage2 r₂.current.material
  method_eq : i₂.current.material.method = 0
  suite_eq : i₂.current.material.suite = .suite0
  peerId_ne_nil : i₂.current.material.peerConnectionId ≠ []

theorem exists_exchanged : ∃ m₁ m₂ i₁ i₂ r₁ r₂, Exchanged m₁ m₂ i₁ i₂ r₁ r₂ := by
  obtain ⟨m₁, i₁, hwrite₁, hmethod, hsuite, -⟩ := caller_writeMessage1
  have hi₁ : Reachable {} (acquainted [1] [2]) i₁ :=
    caller_reachable.called .writeMessage1 (congrArg (Prod.map Answer.written id) hwrite₁)
  obtain ⟨r₁, m₂, r₂, hread₁, hwrite₂, hafter, hr₁⟩ := callee_answers hi₁ hwrite₁ hmethod hsuite
  obtain ⟨i₂, hread₂, hafter₂, hmethod₂, hsuite₂, hlength⟩ :=
    caller_learns hi₁ hr₁ hafter hmethod hsuite hwrite₂
  exact ⟨m₁, m₂, i₁, i₂, r₁, r₂, {
    write1 := hwrite₁
    read1 := hread₁
    write2 := hwrite₂
    read2 := hread₂
    offering := hi₁
    method_suite := ⟨hmethod, hsuite⟩
    answering := hr₁
    initiator := hi₁.called (.readMessage2 m₂) (congrArg (Prod.map Answer.read id) hread₂)
    responder := hr₁.called .writeMessage2 (congrArg (Prod.map Answer.written id) hwrite₂)
    after := hafter₂
    method_eq := hmethod₂
    suite_eq := hsuite₂
    peerId_ne_nil := fun hnil => by simp [hnil] at hlength }⟩

/-- The Initiator goes on with the third message. -/
theorem Exchanged.writes_message3 (h : Exchanged m₁ m₂ i₁ i₂ r₁ r₂) :
    ∃ m₃ i₃, i₂.writeMessage3.value = (some m₃, i₃) :=
  h.initiator.writes_message3 (acquainted_equipped (by decide) (by decide)) rfl
    (by rw [h.method_eq]; rfl) h.peerId_ne_nil

end Acquainted

end Engine

end EdhocLab
