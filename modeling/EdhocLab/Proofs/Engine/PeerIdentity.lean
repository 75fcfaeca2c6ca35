import EdhocLab.Proofs.Engine.Completion
import EdhocLab.Proofs.Engine.Edit

/-! # Identities of peers

The identity of a peer enters a session as a whole, with what the endpoint holds for it.  Until then
the session has the placeholders that it was started with or last renewed to, which are kept beside
a run.
-/
namespace EdhocLab

open Handshake

/-- The placeholders for the peer of a session.  The own key stands for the key of the peer. -/
structure PeerIdentity.Unknown (endpoint : Endpoint) (role : Role) (method : UInt8)
    (p : PeerIdentity) : Prop where
  idCred_eq : p.idCred = Cose.kidMap Material.unknownId
  cred_eq : p.cred = Material.unknownId
  longTermKey_eq : ∃ entropy, p.longTermKey =
    (endpoint.authCredential role method endpoint.preferredSuite).elim
      (KeyPair.generate endpoint.preferredSuite.dhCurve entropy).1.publicKey
      fun credential => credential.key.publicKey

namespace Material

/-- The credential and key of the peer are those that the endpoint holds for its identity, which an
Initiator does not share with it. -/
structure KnowsPeer (endpoint : Endpoint) (role : Role) (m : Material) : Prop where
  peer_eq : endpoint.peer? m.peer.idCred =
    some { idCred := m.peer.idCred, key := m.peer.longTermKey, cred := m.peer.cred }
  not_own : role = .initiator → endpoint.isOwnIdCred m.peer.idCred = false

/-- Only the peer matters. -/
theorem KnowsPeer.of_eq {endpoint : Endpoint} {role : Role} {m m' : Material}
    (h : m.KnowsPeer endpoint role) (hpeer : m'.peer = m.peer) : m'.KnowsPeer endpoint role where
  peer_eq := by
    rw [hpeer]
    exact h.peer_eq
  not_own := by
    rw [hpeer]
    exact h.not_own

theorem fresh_unknown (endpoint : Endpoint) (role : Role) (method : UInt8) (connectionId : Bytes)
    (peerSuites : List Int) (entropy : Entropy) :
    (fresh endpoint role method connectionId peerSuites entropy).1.peer.Unknown endpoint role
      method where
  idCred_eq := rfl
  cred_eq := rfl
  longTermKey_eq := ⟨entropy, rfl⟩

end Material

namespace Engine

variable {settings : Settings} {endpoint : Endpoint} {e : Engine} {s : Session} {n : Nat}

theorem idCred_of_peer? {idCred : Cbor.Value} {peer : Peer}
    (h : endpoint.peer? idCred = some peer) : peer.idCred = idCred := by
  obtain ⟨registered, -, rfl⟩ := Option.map_eq_some_iff.mp h
  rfl

/-- A peer that is found is known, and not the reader itself where that is refused. -/
theorem peerOf_known {element : Cbor.Value} {refuseOwn : Bool} {peer : Peer}
    (h : e.peerOf element refuseOwn = .ok peer) :
    e.endpoint.peer? peer.idCred = some peer ∧
      (refuseOwn → e.endpoint.isOwnIdCred peer.idCred = false) := by
  obtain ⟨idCred, -, hpeer, hown⟩ := peerOf_eq_ok h
  rw [idCred_of_peer? hpeer]
  exact ⟨hpeer, hown⟩

/-- An edit keeps the method of a session, and the identity of its peer unless it is read. -/
theorem Edit.peer {m : Material} (hedit : e.Edit s m) : m.method = s.material.method ∧
    (m.peer = s.material.peer ∨ m.KnowsPeer e.endpoint s.role) := by
  cases hedit with
  | kept => exact ⟨rfl, .inl rfl⟩
  | offered | written1 =>
    exact ⟨Material.selectSuite_method .., .inl (Material.selectSuite_peer ..)⟩
  | written2 => exact ⟨rfl, .inl rfl⟩
  | written3 => exact ⟨rfl, .inl rfl⟩
  | accepted2 hopen =>
    obtain ⟨-, _, _, _, _, -, -, -, -, -, hpeer⟩ := open2_eq_ok hopen
    obtain ⟨hstored, hown⟩ := peerOf_known hpeer
    exact ⟨rfl, .inr ⟨hstored, fun _ => hown rfl⟩⟩
  | accepted3 hopen _ _ hrole =>
    obtain ⟨-, _, _, _, -, -, -, hpeer⟩ := open3_eq_ok hopen
    obtain ⟨hstored, -⟩ := peerOf_known hpeer
    exact ⟨rfl, .inr ⟨hstored, fun hinitiator => absurd (hrole.symm.trans hinitiator) nofun⟩⟩
  | acceptedError => exact ⟨rfl, .inl rfl⟩

section History

/-- The peers of the sessions of an engine. -/
def peers (e : Engine) : List PeerIdentity := e.sessions.sessions.map fun s => s.material.peer

/-- What is kept of peers beside an action: those of sessions that it starts or renews. -/
def noteOrigins (e : Engine) (origins : List PeerIdentity) : Action → List PeerIdentity
  | .call call => origins ++ (e.act (.call call)).peers.drop e.sessions.sessions.length
  | .reset =>
    if e.settings.sessionReset then
      origins.set e.sessions.current (e.act .reset).current.material.peer
    else origins

/-- The peers that the sessions had when they were started or last renewed. -/
def originsFrom (e : Engine) (origins : List PeerIdentity) : List Action → List PeerIdentity
  | [] => origins
  | action :: actions => (e.act action).originsFrom (e.noteOrigins origins action) actions

/-- Each session has the placeholders that it was started with or last renewed to, or knows its
peer. -/
structure Tracked (e : Engine) (origins : List PeerIdentity) : Prop where
  length_eq : origins.length = e.sessions.sessions.length
  peer_eq : ∀ n s, e.session? n = some s → ∃ origin, origins[n]? = some origin ∧
    origin.Unknown e.endpoint s.role s.material.method ∧
    (s.material.peer = origin ∨ s.material.KnowsPeer e.endpoint s.role)

variable {origins : List PeerIdentity}

theorem peers_getElem? (hs : e.session? n = some s) : e.peers[n]? = some s.material.peer := by
  rw [peers, List.getElem?_map]
  exact congrArg (Option.map fun s => s.material.peer) hs

theorem length_peers (e : Engine) : e.peers.length = e.sessions.sessions.length :=
  List.length_map ..

theorem length_sessions_act (e : Engine) (action : Action) :
    e.sessions.sessions.length ≤ (e.act action).sessions.sessions.length := by
  rw [← SessionTable.length_ids, ← SessionTable.length_ids]
  exact (e.ids_prefix_act action).length_le

theorem acceptedMaterial_unknown (e : Engine) (a : Accepted1) :
    (e.acceptedMaterial a).peer.Unknown e.endpoint .responder (e.acceptedMaterial a).method := by
  have hpeer : (e.acceptedMaterial a).peer = (Material.fresh e.endpoint .responder a.received.method
      a.connectionId e.current.material.peerSuites e.entropy).1.peer :=
    Material.selectSuite_peer ..
  have hmethod : (e.acceptedMaterial a).method = a.received.method :=
    Material.selectSuite_method ..
  rw [hpeer, hmethod]
  exact Material.fresh_unknown ..

/-- A call keeps where sessions come from and adds the placeholders of new ones. -/
theorem Tracked.call (h : e.Tracked origins) (call : Call) :
    (e.act (.call call)).Tracked (e.noteOrigins origins (.call call)) where
  length_eq := by
    have hgrows := e.length_sessions_act (.call call)
    rw [noteOrigins, List.length_append, List.length_drop, length_peers, h.length_eq]
    omega
  peer_eq n s hs := by
    rw [(e.act_change (.call call)).frame.2.1, noteOrigins]
    cases call_source hs with
    | @edited t ht hrole hedit =>
      obtain ⟨origin, horigin, hunknown, hpeer⟩ := h.peer_eq n t ht
      obtain ⟨hmethod, hedited⟩ := hedit.peer
      refine ⟨origin, ?_, ?_, ?_⟩
      · rw [List.getElem?_append_left (List.getElem?_eq_some_iff.mp horigin).1]
        exact horigin
      · rw [hrole, hmethod]
        exact hunknown
      · rw [hrole]
        rcases hedited with heq | hknows
        · rw [heq]
          exact hpeer.imp_right fun hknows => hknows.of_eq heq
        · exact .inr hknows
    | @started sequence a hn ha hrole hmaterial =>
      refine ⟨s.material.peer, ?_, ?_, .inl rfl⟩
      · rw [List.getElem?_append_right (by rw [h.length_eq, hn]), List.getElem?_drop, h.length_eq,
          hn, Nat.sub_self, Nat.add_zero, ← hn]
        exact peers_getElem? hs
      · rw [hrole, hmaterial]
        exact e.acceptedMaterial_unknown a

theorem renewed_unknown (e : Engine) : e.renewed.material.peer.Unknown e.endpoint e.current.role
    e.renewed.material.method :=
  Material.fresh_unknown e.endpoint e.current.role e.current.material.method
    e.current.material.connectionId e.current.material.peerSuites e.entropy

theorem length_sessions_reset (e : Engine) :
    (e.act .reset).sessions.sessions.length = e.sessions.sessions.length := by
  change e.resetSession.value.sessions.sessions.length = _
  unfold resetSession
  split <;> exact List.length_set

theorem current_reset (e : Engine) :
    (e.act .reset).sessions.current = e.sessions.current := by
  change e.resetSession.value.sessions.current = _
  unfold resetSession
  split <;> rfl

/-- The session that is renewed gets new placeholders. -/
theorem Tracked.reset (h : e.Tracked origins) :
    (e.act .reset).Tracked (e.noteOrigins origins .reset) where
  length_eq := by
    rw [length_sessions_reset, noteOrigins]
    split
    · rw [List.length_set, h.length_eq]
    · exact h.length_eq
  peer_eq n s hs := by
    rw [(e.act_change .reset).frame.2.1, noteOrigins]
    rcases reset_session hs with ⟨hreset, rfl, hrole, hmaterial⟩ | ⟨hn, t, ht, hrole, hmaterial⟩
    · have hcurrent : (e.act .reset).current = s := by
        have hnumber := (e.act .reset).sessions_current
        rw [e.current_reset] at hnumber
        exact Option.some.inj (hnumber.symm.trans hs)
      rw [if_pos hreset, hcurrent, List.getElem?_set_self (h.length_eq ▸ e.sessions.current_lt)]
      refine ⟨_, rfl, ?_, .inl rfl⟩
      rw [hrole, hmaterial]
      exact e.renewed_unknown
    · obtain ⟨origin, horigin, hunknown, hpeer⟩ := h.peer_eq n t ht
      rw [hrole, hmaterial]
      refine ⟨origin, ?_, hunknown, hpeer⟩
      split
      · rename_i hreset
        rw [List.getElem?_set_ne (Ne.symm (hn hreset))]
        exact horigin
      · exact horigin

theorem Tracked.act (h : e.Tracked origins) (action : Action) :
    (e.act action).Tracked (e.noteOrigins origins action) := by
  cases action with
  | call call => exact h.call call
  | reset => exact h.reset

theorem Tracked.run (h : e.Tracked origins) (actions : List Action) :
    (e.run actions).Tracked (e.originsFrom origins actions) := by
  induction actions generalizing e origins with
  | nil => exact h
  | cons action actions ih => exact ih (h.act action)

theorem initial_tracked (settings : Settings) (endpoint : Endpoint) (profile : AppProfile)
    (entropy : Entropy) : (initial settings endpoint profile entropy).Tracked
      (initial settings endpoint profile entropy).peers where
  length_eq := length_peers _
  peer_eq n s hs := by
    refine ⟨_, peers_getElem? hs, ?_, .inl rfl⟩
    rw [mem_sessions_initial (List.mem_of_getElem? hs), startSession_role, startSession_material]
    exact Material.fresh_unknown ..

/-- On every run of a new engine, each session has the placeholders for its peer that it was started
with or last renewed to, or what the endpoint holds for the identity of the peer. -/
theorem run_peers {entropy : Entropy} (h : (create settings endpoint entropy).result = .ok e)
    (actions : List Action) (hs : (e.run actions).session? n = some s) :
    ∃ origin, (e.originsFrom e.peers actions)[n]? = some origin ∧
      origin.Unknown endpoint s.role s.material.method ∧
      (s.material.peer = origin ∨ s.material.KnowsPeer endpoint s.role) := by
  have hreachable : Reachable settings endpoint (e.run actions) := (Reachable.created h).run actions
  have hendpoint : (e.run actions).endpoint = endpoint := hreachable.coherent.2.1
  rw [create_result] at h
  split at h
  · cases h
  · rename_i profile _
    cases h
    have htracked := (initial_tracked settings endpoint profile entropy).run actions
    have hpeer := htracked.peer_eq n s hs
    rw [hendpoint] at hpeer
    exact hpeer

/-- An Initiator that has read the second message of a Responder no longer has the placeholders that it
was created with. -/
theorem run_peers_caller : ∃ m₂ s,
    (caller.run [.call .writeMessage1, .call (.readMessage2 m₂)]).session? 0 = some s ∧
      s.material.peer.idCred = Cose.kidMap [2] ∧
      ∃ origin, (caller.originsFrom caller.peers
        [.call .writeMessage1, .call (.readMessage2 m₂)])[0]? = some origin ∧
        origin.Unknown (acquainted [1] [2]) s.role s.material.method ∧
        (s.material.peer = origin ∨ s.material.KnowsPeer (acquainted [1] [2]) s.role) := by
  obtain ⟨m₁, m₂, i₁, i₂, r₁, r₂, h⟩ := exists_exchanged
  have hcurrent : i₂.session? 0 = some i₂.current := by
    have hlength := (h.initiator.solitary rfl).length_eq
    have hnumber := i₂.sessions.current_lt
    rw [← show i₂.sessions.current = 0 by omega]
    exact i₂.sessions_current
  have hid : i₂.current.material.peer.idCred = Cose.kidMap [2] := by
    obtain ⟨credential, hcredential, hpeer⟩ := h.after.responder_eq
    rw [h.responder.credential, ← h.after.method_eq, ← h.after.suite_eq, h.method_eq,
      h.suite_eq] at hcredential
    cases hcredential
    rw [hpeer]
    rfl
  have hrun : caller.run [.call .writeMessage1, .call (.readMessage2 m₂)] = i₂ := by
    change (caller.writeMessage1.value.2.readMessage2 m₂).value.2 = i₂
    rw [h.write1, h.read2]
  rw [← hrun] at hcurrent hid
  have hcreate : (create {} (acquainted [1] [2]) { blocks := [], seed := 0, counter := 0 }).result =
      .ok caller := by
    rw [create_result]
    rfl
  exact ⟨m₂, _, hcurrent, hid, run_peers hcreate _ hcurrent⟩

end History

end Engine

end EdhocLab
