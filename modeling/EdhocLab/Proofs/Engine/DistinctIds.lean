import EdhocLab.Proofs.Engine.PeerIdentity
import EdhocLab.Proofs.Engine.Service

/-! # Identifiers of both parties

The identifier of a peer enters a session with an accepted first or second message.  It is then never
the own one where contexts derive from both, and stays so until the session is reset, so that the two
directions of a handshake do not share a key.
-/
namespace EdhocLab

open Handshake

/-- The identifiers of the two parties are not the same. -/
def Material.DistinctIds (m : Material) : Prop := m.peerConnectionId ≠ m.connectionId

namespace Engine

variable {settings : Settings} {endpoint : Endpoint} {e : Engine} {s : Session} {n : Nat}

/-- The action gives an identifier of the peer to the session with a number: a Responder accepts a
first message, which starts the session, or an Initiator a second message for the session. -/
inductive Introduces (e : Engine) : Action → Nat → Prop
  | started {sequence : Bytes} (hrole : e.current.role = .responder)
      (h : (e.readMessage1 sequence).value.1 = true) :
      Introduces e (.call (.readMessage1 sequence))
        (e.act (.call (.readMessage1 sequence))).sessions.current
  | answered {sequence : Bytes} {masked : Masked2 e} (hparse : e.parse2 sequence = .ok masked)
      (hrole : (e.sessions.get masked.handle).role = .initiator)
      (h : (e.readMessage2 sequence).value.1 = true) :
      Introduces e (.call (.readMessage2 sequence)) masked.handle

/-- In service, the session was given an identifier of the peer and was not reset since. -/
inductive Introduced (settings : Settings) (endpoint : Endpoint) (n : Nat) : Engine → Prop
  | introduced {e : Engine} {action : Action} (h : InService settings endpoint e)
      (hintroduces : e.Introduces action n) : Introduced settings endpoint n (e.act action)
  | kept {e : Engine} (h : Introduced settings endpoint n e) (operation : Operation)
      (hreset : e.settings.sessionReset → operation = .act .reset → e.sessions.current ≠ n) :
      Introduced settings endpoint n (e.operate operation)

section Material

variable {gY ciphertext2 prk3e2m : Bytes} {outerCR : Option Cbor.Value} {m : Material} {o : Opened2}

/-- An Initiator with a profile for contexts learns no identifier that is its own. -/
theorem learn2_distinctIds (hoscore : e.profile.useOscore)
    (hopen : e.open2 m gY ciphertext2 outerCR = .ok o) : (learn2 m o prk3e2m).DistinctIds := by
  obtain ⟨-, _, _, _, _, -, -, -, hequal, -⟩ := open2_eq_ok hopen
  rw [hoscore, Bool.true_and] at hequal
  exact beq_eq_false_iff_ne.mp hequal

/-- The identifier for a session is chosen different from the one of its peer. -/
theorem acceptedMaterial_distinctIds {sequence : Bytes} {a : Accepted1}
    (ha : (e.check1 sequence).result = .ok (some a)) : (e.acceptedMaterial a).DistinctIds := by
  have hid : (e.acceptedMaterial a).connectionId = a.connectionId :=
    Material.selectSuite_connectionId ..
  have hfree := isFree_of_check1 ha
  simp only [isFree, Bool.and_eq_true, bne_iff_ne] at hfree
  rw [Material.DistinctIds, hid]
  exact Ne.symm hfree.1.2

/-- An edit keeps the own identifier, and that of the peer unless it is learned. -/
theorem Edit.distinctIds (hedit : e.Edit s m) (hoscore : e.profile.useOscore)
    (hs : s.material.DistinctIds) : m.DistinctIds := by
  cases hedit with
  | kept | written2 | written3 | accepted3 | acceptedError => exact hs
  | offered | written1 =>
    unfold Material.DistinctIds at hs ⊢
    rw [Material.selectSuite_peerConnectionId, Material.selectSuite_connectionId]
    exact hs
  | accepted2 hopen => exact learn2_distinctIds hoscore hopen

/-- A context has different identifiers where none is forced and those of the parties differ. -/
theorem context_ids_ne (hsender : settings.forcedSenderId = none)
    (hrecipient : settings.forcedRecipientId = none) (hm : m.DistinctIds)
    {context : Oscore.Context} (h : Session.context settings m = .ok context) :
    context.senderId ≠ context.recipientId := by
  obtain ⟨context', h', _, _, -, -, hderives⟩ := Session.context_eq_ok settings m
  obtain rfl : context = context' := Except.ok.inj (h.symm.trans h')
  rw [hderives.senderId_eq, hderives.recipientId_eq, Session.senderId, Session.recipientId, hsender,
    hrecipient]
  exact hm

end Material

section Run

/-- What gives a session an identifier of the peer gives it one that is not its own. -/
theorem Introduces.distinctIds {action : Action} (h : e.Introduces action n)
    (hoscore : e.profile.useOscore) :
    ∃ s, (e.act action).session? n = some s ∧ s.material.DistinctIds := by
  cases h with
  | @started sequence hrole h =>
    change ∃ s, (e.readMessage1 sequence).value.2.session?
      (e.readMessage1 sequence).value.2.sessions.current = some s ∧ _
    refine ⟨_, sessions_current _, ?_⟩
    obtain ⟨a, hcheck, hread⟩ := readMessage1_of_responder hrole h
    rw [hread, accept1_material]
    exact acceptedMaterial_distinctIds hcheck
  | @answered sequence masked hparse hrole h =>
    change ∃ s, (e.readMessage2 sequence).value.2.session? masked.handle = some s ∧ _
    rw [readMessage2_value] at h ⊢
    cases hcheck : (e.check2 sequence).result with
    | error _ => simp [hcheck] at h
    | ok found =>
      obtain ⟨handle, material⟩ := found
      obtain ⟨masked', o, prk3e2m, hparse', rfl, hopen, -, -, -, rfl⟩ := check2_eq_ok hcheck
      obtain rfl : masked = masked' := Except.ok.inj (hparse.symm.trans hparse')
      simp only [hrole]
      rw [session?_set rfl, if_pos rfl]
      exact ⟨_, rfl, learn2_distinctIds hoscore hopen⟩

theorem length_sessions_operate (e : Engine) (operation : Operation) :
    e.sessions.sessions.length ≤ (e.operate operation).sessions.sessions.length := by
  cases operation with
  | act action => exact e.length_sessions_act action
  | carry uri message => exact Nat.le_refl _
  | record exchanger => exact Nat.le_refl _

/-- An operation keeps the identifiers of a session apart, unless it renews the session. -/
theorem distinctIds_operate {operation : Operation} (hoscore : e.profile.useOscore)
    (hreset : e.settings.sessionReset → operation = .act .reset → e.sessions.current ≠ n)
    (hs : e.session? n = some s) (hids : s.material.DistinctIds) :
    ∃ s', (e.operate operation).session? n = some s' ∧ s'.material.DistinctIds := by
  have hn : n < e.sessions.sessions.length := (List.getElem?_eq_some_iff.mp hs).1
  have hlt := Nat.lt_of_lt_of_le hn (e.length_sessions_operate operation)
  obtain ⟨s', hs'⟩ : ∃ s', (e.operate operation).session? n = some s' :=
    ⟨_, List.getElem?_eq_getElem hlt⟩
  refine ⟨s', hs', ?_⟩
  cases operation with
  | carry uri message =>
    obtain rfl : s = s' := Option.some.inj (hs.symm.trans hs')
    exact hids
  | record exchanger =>
    obtain rfl : s = s' := Option.some.inj (hs.symm.trans hs')
    exact hids
  | act action =>
    cases action with
    | call call =>
      cases call_source hs' with
      | edited ht _ hedit =>
        obtain rfl := Option.some.inj (hs.symm.trans ht)
        exact hedit.distinctIds hoscore hids
      | started hlength => exact absurd hlength (Nat.ne_of_lt hn)
    | reset =>
      rcases reset_session hs' with ⟨henabled, hcurrent, -⟩ | ⟨-, t, ht, -, hmaterial⟩
      · exact absurd hcurrent.symm (hreset henabled rfl)
      · obtain rfl := Option.some.inj (hs.symm.trans ht)
        rw [hmaterial]
        exact hids

theorem Introduced.distinctIds (h : Introduced settings endpoint n e)
    (hoscore : e.profile.useOscore) :
    ∃ s, e.session? n = some s ∧ s.material.DistinctIds := by
  induction h with
  | @introduced e action _ hintroduces =>
    rw [(e.act_change action).frame.2.2] at hoscore
    exact hintroduces.distinctIds hoscore
  | @kept e _ operation hreset ih =>
    rw [(e.operate_frame operation).2.2] at hoscore
    obtain ⟨s, hs, hids⟩ := ih hoscore
    exact distinctIds_operate hoscore hreset hs hids

/-- In service under a profile for contexts, with no forced identifiers, a session that was given an
identifier of its peer since it was started or last reset has another one itself, and its context
sends and receives under different ones. -/
theorem introduced_ids_ne (h : Introduced settings endpoint n e) (hoscore : e.profile.useOscore)
    (hsender : settings.forcedSenderId = none) (hrecipient : settings.forcedRecipientId = none) :
    ∃ s, e.session? n = some s ∧ s.material.peerConnectionId ≠ s.material.connectionId ∧
      Session.senderId settings s.material ≠ Session.recipientId settings s.material ∧
      ∀ context, Session.context settings s.material = .ok context →
        context.senderId ≠ context.recipientId := by
  obtain ⟨s, hs, hids⟩ := h.distinctIds hoscore
  refine ⟨s, hs, hids, ?_, fun context hcontext => context_ids_ne hsender hrecipient hids hcontext⟩
  rw [Session.senderId, Session.recipientId, hsender, hrecipient]
  exact hids

/-- An Initiator that has read the second message of a Responder and written the third one. -/
theorem caller_ids_ne : ∃ e n, Introduced {} (acquainted [1] [2]) n e ∧ e.profile.useOscore = true ∧
    Settings.forcedSenderId {} = none ∧ Settings.forcedRecipientId {} = none ∧
    ∃ s, e.session? n = some s ∧ s.material.peerConnectionId ≠ s.material.connectionId ∧
      Session.senderId {} s.material ≠ Session.recipientId {} s.material ∧
      ∀ context, Session.context {} s.material = .ok context →
        context.senderId ≠ context.recipientId := by
  obtain ⟨m₁, m₂, i₁, i₂, r₁, r₂, h⟩ := exists_exchanged
  have hi₁ := h.offering
  have haccepted : (i₁.readMessage2 m₂).value.1 = true := by rw [h.read2]
  obtain ⟨n, hintroduces⟩ : ∃ n, i₁.Introduces (.call (.readMessage2 m₂)) n := by
    have hchecked := haccepted
    rw [readMessage2_value] at hchecked
    cases hcheck : (i₁.check2 m₂).result with
    | error _ => simp [hcheck] at hchecked
    | ok found =>
      obtain ⟨masked, _, _, hparse, -⟩ := check2_eq_ok hcheck
      have hrole := hi₁.indexed.get_role masked.handle
      rw [hi₁.coherent.1] at hrole
      exact ⟨masked.handle, .answered hparse hrole haccepted⟩
  have hintroduced : Introduced {} (acquainted [1] [2]) n
      ((i₁.act (.call (.readMessage2 m₂))).act (.call .writeMessage3)) :=
    .kept (.introduced hi₁.inService hintroduces) (.act (.call .writeMessage3)) fun _ => nofun
  have hoscore : (((i₁.act (.call (.readMessage2 m₂))).act
      (.call .writeMessage3)).profile.useOscore) = true := by
    have hprofile := (((hi₁.acted (.call (.readMessage2 m₂))).acted
      (.call .writeMessage3)).solitary rfl).profile_eq
    rw [← Option.some.inj hprofile]
  exact ⟨_, n, hintroduced, hoscore, rfl, rfl, introduced_ids_ne hintroduced hoscore rfl rfl⟩

end Run

end Engine

end EdhocLab
