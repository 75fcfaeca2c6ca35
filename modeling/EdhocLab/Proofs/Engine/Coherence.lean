import EdhocLab.Proofs.Engine.Read
import EdhocLab.Proofs.Engine.Setup
import EdhocLab.Proofs.Engine.Write
import EdhocLab.Proofs.Handshake.Negotiation

/-! # Coherent sessions

Whatever an engine has been through, the own keys of each of its sessions fit the suite that the
session selected, which is one of the endpoint's, and its identifiers can be sent.
-/
namespace EdhocLab

open Cbor (Value)
open Handshake

namespace Material

/-- Own keys that fit the selected suite, which is one of the endpoint's. -/
structure Coherent (endpoint : Endpoint) (role : Role) (m : Material) : Prop where
  suite_mem : m.suite ∈ endpoint.suites
  ephemeral_curve : m.ephemeralKey.curve = m.suite.dhCurve
  credential_eq : m.credential = endpoint.authCredential role m.method m.suite

/-- An own identifier that was configured or chosen, and one of the peer that can be sent. -/
structure Identified (settings : Settings) (m : Material) : Prop where
  own : m.connectionId = settings.connectionId ∨ m.connectionId.length = 1 ∨
    m.connectionId.length = 2
  peer : Cbor.fitsHead m.peerConnectionId.length

section Fresh

variable (endpoint : Endpoint) (role : Role) (method : UInt8) (connectionId : Bytes)
  (peerSuites : List Int) (entropy : Entropy)

theorem fresh_coherent :
    (fresh endpoint role method connectionId peerSuites entropy).1.Coherent endpoint role where
  suite_mem := List.mem_cons_self
  ephemeral_curve := KeyPair.generate_curve ..
  credential_eq := rfl

/-- The placeholder for the key of the peer is on the right curve. -/
theorem fresh_peerEphemeralKey_curve :
    (fresh endpoint role method connectionId peerSuites entropy).1.peerEphemeralKey.curve =
      endpoint.preferredSuite.dhCurve :=
  KeyPair.generate_curve endpoint.preferredSuite.dhCurve entropy

theorem fresh_identified {settings : Settings} (h : connectionId = settings.connectionId ∨
    connectionId.length = 1 ∨ connectionId.length = 2) :
    (fresh endpoint role method connectionId peerSuites entropy).1.Identified settings where
  own := h
  peer := rfl

end Fresh

section Select

variable (m : Material) (endpoint : Endpoint) (role : Role) (suite : Suite) (entropy : Entropy)

/-- Besides the suite, only the own keys are replaced. -/
theorem selectSuite_fst :
    (m.selectSuite endpoint role suite entropy).1 =
      { m with
        suite
        credential := endpoint.authCredential role m.method suite
        ephemeralKey := (m.selectSuite endpoint role suite entropy).1.ephemeralKey } := by
  unfold selectSuite
  dsimp only
  split <;> rfl

theorem selectSuite_suite : (m.selectSuite endpoint role suite entropy).1.suite = suite := by
  rw [selectSuite_fst]

theorem selectSuite_method : (m.selectSuite endpoint role suite entropy).1.method = m.method := by
  rw [selectSuite_fst]

theorem selectSuite_connectionId :
    (m.selectSuite endpoint role suite entropy).1.connectionId = m.connectionId := by
  rw [selectSuite_fst]

theorem selectSuite_peerConnectionId :
    (m.selectSuite endpoint role suite entropy).1.peerConnectionId = m.peerConnectionId := by
  rw [selectSuite_fst]

theorem selectSuite_peer : (m.selectSuite endpoint role suite entropy).1.peer = m.peer := by
  rw [selectSuite_fst]

theorem selectSuite_peerSuites :
    (m.selectSuite endpoint role suite entropy).1.peerSuites = m.peerSuites := by
  rw [selectSuite_fst]

theorem selectSuite_suitesInError :
    (m.selectSuite endpoint role suite entropy).1.suitesInError = m.suitesInError := by
  rw [selectSuite_fst]

variable {endpoint role suite}

theorem selectSuite_coherent (h : suite ∈ endpoint.suites) :
    (m.selectSuite endpoint role suite entropy).1.Coherent endpoint role := by
  unfold selectSuite
  dsimp only
  split
  · rename_i hcurve
    exact ⟨h, hcurve, rfl⟩
  · exact ⟨h, KeyPair.generate_curve .., rfl⟩

variable {m} in
theorem Identified.selectSuite {settings : Settings} (h : m.Identified settings) :
    (m.selectSuite endpoint role suite entropy).1.Identified settings := by
  rw [selectSuite_fst]
  exact ⟨h.own, h.peer⟩

end Select

end Material

/-- Own keys and identifiers that messages can be built with. -/
structure Session.Coherent (settings : Settings) (endpoint : Endpoint) (s : Session) : Prop where
  keys : s.material.Coherent endpoint s.role
  identifiers : s.material.Identified settings

theorem Session.Coherent.setup {settings : Settings} {endpoint : Endpoint} {s : Session}
    {uri : String} {store : Oscore.Store} (h : s.Coherent settings endpoint) :
    (s.setup settings uri store).value.1.Coherent settings endpoint where
  keys := by simpa using h.keys
  identifiers := by simpa using h.identifiers

theorem Session.Coherent.setupPlaceholder {settings : Settings} {endpoint : Endpoint} {s : Session}
    {uri : String} {store : Oscore.Store} (h : s.Coherent settings endpoint) :
    (s.setupPlaceholder settings uri store).value.1.Coherent settings endpoint where
  keys := by simpa using h.keys
  identifiers := by simpa using h.identifiers

namespace Engine

variable {e e' : Engine}

/-- A chosen identifier is free and has one or two bytes. -/
theorem freeId?_eq_some {peerId id : Bytes} (h : e.freeId? peerId = some id) :
    e.isFree peerId id ∧ (id.length = 1 ∨ id.length = 2) := by
  have hfind : ∀ {length}, ((List.range (256 ^ length)).findSome? fun n =>
      let id := Bytes.ofNatBE length n
      if e.isFree peerId id then some id else none) = some id →
      e.isFree peerId id ∧ id.length = length := by
    intro length h
    obtain ⟨n, -, hn⟩ := List.exists_of_findSome?_eq_some h
    dsimp only at hn
    split at hn
    · rename_i hfree
      cases hn
      exact ⟨hfree, by simp⟩
    · cases hn
  rw [freeId?, Option.orElse_eq_orElse, Option.orElse_eq_or, Option.or_eq_some_iff] at h
  rcases h with h | ⟨-, h⟩
  · exact ⟨(hfind h).1, .inl (hfind h).2⟩
  · exact ⟨(hfind h).1, .inr (hfind h).2⟩

theorem suite_mem_of_offer1 {offer : Offer1} (h : e.offer1.result = .ok offer) :
    offer.suite ∈ e.endpoint.suites := by
  obtain ⟨suite, hsuite, hoffer⟩ := bind_eq_ok.mp (offer1_eq_ok h).1
  rw [← (Prod.mk.inj (Except.ok.inj hoffer)).1]
  exact Negotiation.selectSuite_mem hsuite

/-- Who an engine is does not change. -/
theorem Change.frame (h : Change e e') :
    e'.settings = e.settings ∧ e'.endpoint = e.endpoint ∧ e'.profile = e.profile := by
  cases h <;> exact ⟨rfl, rfl, rfl⟩

/-- Sessions that messages can be built with. -/
def Coherent (e : Engine) : Prop := ∀ s ∈ e.sessions.sessions, s.Coherent e.settings e.endpoint

theorem Coherent.current (h : e.Coherent) : e.current.Coherent e.settings e.endpoint :=
  h _ e.sessions.currentSession_mem

theorem Coherent.get (h : e.Coherent) (handle : e.sessions.Handle) :
    (e.sessions.get handle).Coherent e.settings e.endpoint :=
  h _ (e.sessions.get_mem handle)

theorem Coherent.of_set {handle : e.sessions.Handle} {s : Session} (h : e.Coherent)
    (hs : s.Coherent e.settings e.endpoint) :
    ∀ t ∈ (e.sessions.set handle s).sessions, t.Coherent e.settings e.endpoint := by
  intro t ht
  rcases SessionTable.mem_sessions_set ht with rfl | ht
  · exact hs
  · exact h t ht

theorem selectSuite_coherent (h : e.Coherent) {suite : Suite} (hsuite : suite ∈ e.endpoint.suites) :
    (e.selectSuite e.current.role suite).Coherent :=
  h.of_set ⟨Material.selectSuite_coherent _ _ hsuite, h.current.identifiers.selectSuite _⟩

theorem settle_coherent (h : e.Coherent) {handle : e.sessions.Handle} {material : Material}
    (hs : Session.Coherent e.settings e.endpoint { e.sessions.get handle with material }) :
    (e.settle handle material).value.Coherent :=
  h.of_set hs.setup

theorem startSession_coherent {settings : Settings} {endpoint : Endpoint} {role : Role}
    {method : UInt8} {connectionId : Bytes} {peerSuites : List Int} {contexts : Oscore.Store}
    {entropy : Entropy} (h : connectionId = settings.connectionId ∨ connectionId.length = 1 ∨
      connectionId.length = 2) :
    (startSession settings endpoint role method connectionId peerSuites contexts
      entropy).value.1.Coherent settings endpoint :=
  Session.Coherent.setupPlaceholder
    ⟨Material.fresh_coherent .., Material.fresh_identified _ _ _ _ _ _ h⟩

theorem startSession_material (settings : Settings) (endpoint : Endpoint) (role : Role)
    (method : UInt8) (connectionId : Bytes) (peerSuites : List Int) (contexts : Oscore.Store)
    (entropy : Entropy) :
    (startSession settings endpoint role method connectionId peerSuites contexts
      entropy).value.1.material =
      (Material.fresh endpoint role method connectionId peerSuites entropy).1 :=
  Session.setupPlaceholder_material ..

theorem startSession_role (settings : Settings) (endpoint : Endpoint) (role : Role)
    (method : UInt8) (connectionId : Bytes) (peerSuites : List Int) (contexts : Oscore.Store)
    (entropy : Entropy) :
    (startSession settings endpoint role method connectionId peerSuites contexts
      entropy).value.1.role = role :=
  Session.setupPlaceholder_role ..

/-- The part that the settings give to an engine. -/
def ownRole (settings : Settings) : Role := if settings.isInitiator then .initiator else .responder

theorem initial_current (settings : Settings) (endpoint : Endpoint) (profile : AppProfile)
    (entropy : Entropy) : (initial settings endpoint profile entropy).current =
      (startSession settings endpoint (ownRole settings) settings.method settings.connectionId [] []
        entropy).value.1 := by
  unfold initial
  cases settings.forcedRecipientId <;> rfl

theorem mem_sessions_initial {settings : Settings} {endpoint : Endpoint} {profile : AppProfile}
    {entropy : Entropy} {s : Session}
    (h : s ∈ (initial settings endpoint profile entropy).sessions.sessions) :
    s = (startSession settings endpoint (ownRole settings) settings.method settings.connectionId [] []
      entropy).value.1 := by
  unfold initial at h
  cases hforced : settings.forcedRecipientId <;>
    simpa [hforced, markUsed, SessionTable.single, ownRole] using h

theorem initial_coherent {settings : Settings} {endpoint : Endpoint} {profile : AppProfile}
    {entropy : Entropy} : (initial settings endpoint profile entropy).Coherent := by
  intro s hs
  rw [mem_sessions_initial hs]
  exact startSession_coherent (.inl rfl)

theorem reset_coherent (h : e.Coherent) : e.reset.value.Coherent := by
  have hsession := Material.fresh_coherent e.endpoint e.current.role e.current.material.method
    e.current.material.connectionId e.current.material.peerSuites e.entropy
  have hidentified := Material.fresh_identified e.endpoint e.current.role
    e.current.material.method e.current.material.connectionId e.current.material.peerSuites
    e.entropy h.current.identifiers.own
  exact h.of_set (Session.Coherent.setupPlaceholder
    ⟨⟨hsession.1, hsession.2, hsession.3⟩, hidentified.1, hidentified.2⟩)

theorem outerCR_isProper {sequence : Bytes} {masked : Masked2 e} {v : Value}
    (h : e.parse2 sequence = .ok masked) (hv : masked.outerCR = some v) : v.isProper := by
  obtain ⟨items, hitems, haddressed, -⟩ := parse2_eq_ok h
  have hmem : v ∈ items := by
    obtain ⟨id, -, hsplit⟩ := addressed_eq_ok haddressed
    split at hsplit
    · obtain ⟨w, rfl, -⟩ := hsplit
      simp [hv]
    · rw [hsplit.2]
      simp [hv]
  exact Value.allProper_iff.mp (allProper_of_decodeItems hitems) v hmem

theorem mem_of_mem_skipPadding {padded : Bool} {items : List Value} {v : Value}
    (h : v ∈ skipPadding padded items) : v ∈ items := by
  unfold skipPadding at h
  split at h
  · exact (List.dropWhile_suffix _).subset h
  · exact h

theorem accept1_coherent (h : e.Coherent) {sequence : Bytes} {a : Accepted1}
    (ha : (e.check1 sequence).result = .ok (some a)) : (e.accept1 a).value.Coherent := by
  obtain ⟨-, ead, hparse, -, hanswer⟩ := check1_eq_ok ha
  obtain ⟨-, hsuite, -, hid⟩ := answer1_eq_ok.mp hanswer
  obtain ⟨items, method, suitesI, cI, rest, hitems, hinner, -, -, hcI, -, -⟩ := parse1_eq_ok hparse
  have hproper : cI.isProper := by
    have hall := Value.allProper_iff.mp (allProper_of_decodeItems hitems)
    have hmem : cI ∈ items := by
      rw [leading1_eq_ok.mp hinner]
      split <;> simp
    exact hall cI hmem
  have hsuite : a.suite ∈ e.endpoint.suites := hsuite ▸ e.answeredSuite_mem _
  let started := (startSession e.settings e.endpoint .responder a.received.method a.connectionId
    e.current.material.peerSuites e.contexts e.entropy).value
  have hstarted : started.1.Coherent e.settings e.endpoint :=
    startSession_coherent (.inr (freeId?_eq_some hid).2)
  have hrole : started.1.role = .responder := Session.setupPlaceholder_role ..
  have hkeys : (started.1.material.selectSuite e.endpoint .responder a.suite started.2.2).1.Coherent
      e.endpoint .responder := Material.selectSuite_coherent _ _ hsuite
  have hidentifiers : (started.1.material.selectSuite e.endpoint .responder a.suite
      started.2.2).1.Identified e.settings := hstarted.identifiers.selectSuite _
  intro s hs
  rcases List.mem_append.mp hs with hs | hs
  · exact h s hs
  · cases List.mem_singleton.mp hs
    exact {
      keys := by
        change Material.Coherent e.endpoint started.1.role _
        rw [hrole]
        exact ⟨hkeys.suite_mem, hkeys.ephemeral_curve, hkeys.credential_eq⟩
      identifiers := ⟨hidentifiers.own, fitsHead_of_identifierOf hproper hcI⟩ }

theorem accept2_coherent (h : e.Coherent) {sequence : Bytes} {handle : e.sessions.Handle}
    {material : Material} (hc : (e.check2 sequence).result = .ok (handle, material)) :
    ({ e with sessions := e.sessions.set handle { e.sessions.get handle with material } } :
      Engine).Coherent := by
  obtain ⟨masked, o, prk3e2m, hparse, -, ho, -, -, -, rfl⟩ := check2_eq_ok hc
  obtain ⟨-, fields, cR, idCredR, rest, hfields, hsplit, hcR, -⟩ := open2_eq_ok ho
  have hproper : cR.isProper := by
    have hmem : cR ∈ masked.outerCR.toList ++
        skipPadding e.settings.version.paddedPlaintext fields := by
      rw [hsplit]
      exact List.mem_cons_self
    rcases List.mem_append.mp hmem with hmem | hmem
    · exact outerCR_isProper hparse (Option.mem_toList.mp hmem)
    · exact Value.allProper_iff.mp (allProper_of_decodeItems hfields) cR
        (mem_of_mem_skipPadding hmem)
  obtain ⟨⟨hsuite, hcurve, hcredential⟩, own, -⟩ := h.get handle
  exact h.of_set ⟨⟨hsuite, hcurve, hcredential⟩, own, fitsHead_of_identifierOf hproper hcR⟩

/-- Changes keep sessions coherent. -/
theorem Coherent.change (h : e.Coherent) (hchange : Change e e') : e'.Coherent := by
  cases hchange with
  | unchanged => exact h
  | offered hoffer => exact selectSuite_coherent h (suite_mem_of_offer1 hoffer)
  | written1 hoffer hashMessage1 =>
    have hs := selectSuite_coherent h (suite_mem_of_offer1 hoffer)
    obtain ⟨⟨hsuite, hcurve, hcredential⟩, own, peer⟩ := hs.current
    exact hs.of_set ⟨⟨hsuite, hcurve, hcredential⟩, own, peer⟩
  | written2 =>
    obtain ⟨⟨hsuite, hcurve, hcredential⟩, own, peer⟩ := h.current
    exact h.of_set ⟨⟨hsuite, hcurve, hcredential⟩, own, peer⟩
  | written3 =>
    obtain ⟨⟨hsuite, hcurve, hcredential⟩, own, peer⟩ := h.current
    exact settle_coherent h ⟨⟨hsuite, hcurve, hcredential⟩, own, peer⟩
  | accepted1 ha => exact accept1_coherent h ha
  | accepted2 hc => exact accept2_coherent h hc
  | @accepted3 _ handle _ hc =>
    obtain ⟨-, -, -, -, -, -, -, -, -, -, rfl⟩ := check3_eq_ok hc
    obtain ⟨⟨hsuite, hcurve, hcredential⟩, own, peer⟩ := h.get handle
    exact settle_coherent h ⟨⟨hsuite, hcurve, hcredential⟩, own, peer⟩
  | @acceptedError _ handle =>
    obtain ⟨⟨hsuite, hcurve, hcredential⟩, own, peer⟩ := h.get handle
    exact h.of_set ⟨⟨hsuite, hcurve, hcredential⟩, own, peer⟩
  | replaced => exact reset_coherent h
  | released =>
    obtain ⟨keys, identifiers⟩ := h.current
    exact h.of_set ⟨keys, identifiers⟩

/-- The sessions of every engine that a run leads to are coherent. -/
theorem Reachable.coherent {settings : Settings} {endpoint : Endpoint}
    (h : Reachable settings endpoint e) :
    e.settings = settings ∧ e.endpoint = endpoint ∧ e.Coherent := by
  refine Reachable.induction_on_changes (P := fun e => e.settings = settings ∧
    e.endpoint = endpoint ∧ e.Coherent) ?_ ?_ h
  · intro profile entropy _
    exact ⟨rfl, rfl, initial_coherent⟩
  · rintro e e' ⟨rfl, rfl, hcoherent⟩ hchange
    obtain ⟨hsettings, hendpoint, -⟩ := hchange.frame
    exact ⟨hsettings, hendpoint, hcoherent.change hchange⟩

end Engine

end EdhocLab
