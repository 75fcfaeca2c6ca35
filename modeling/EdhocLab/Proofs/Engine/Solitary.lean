import EdhocLab.Proofs.Engine.Identifiers
import EdhocLab.Proofs.Engine.Repetition

/-! # Engines with one session

An Initiator starts no session besides its first, which keeps its method and identifier, holds no
suites for an error message and installs its contexts in place of each other.
-/
namespace EdhocLab

open Handshake

namespace Engine

variable {settings : Settings} {endpoint : Endpoint} {e e' : Engine}

/-- The current session after a reset, but for its context. -/
def renewed (e : Engine) : Session :=
  { e.current with material := {
      (Material.fresh e.endpoint e.current.role e.current.material.method
        e.current.material.connectionId e.current.material.peerSuites e.entropy).1 with
      suitesInError := e.current.material.suitesInError } }

theorem reset_sessions (e : Engine) : e.reset.value.sessions =
    e.sessions.set e.sessions.currentHandle (e.renewed.setupPlaceholder e.settings
      e.endpoint.oscoreUri e.contexts).value.1 := rfl

/-- The identifiers that the settings give to the first session. -/
def ownReferences (settings : Settings) : List (Bytes × Nat) :=
  settings.forcedRecipientId.elim [(settings.connectionId, 0)] fun id =>
    SessionTable.refer id 0 [(settings.connectionId, 0)]

/-- An Initiator with the session that it was created with. -/
structure Solitary (settings : Settings) (endpoint : Endpoint) (e : Engine) : Prop where
  settings_eq : e.settings = settings
  endpoint_eq : e.endpoint = endpoint
  profile_eq : endpoint.profile? settings.edhocUri = some e.profile
  ids_eq : e.sessions.ids = [settings.connectionId]
  byId_eq : e.sessions.byId = ownReferences settings
  role_eq : e.current.role = .initiator
  method_eq : e.current.material.method = settings.method
  suitesInError_eq : e.current.material.suitesInError = none
  contexts_eq : ∃ context, e.contexts = [(endpoint.oscoreUri, context)]

namespace Solitary

theorem length_eq (h : Solitary settings endpoint e) : e.sessions.sessions.length = 1 := by
  rw [← SessionTable.length_ids, h.ids_eq]
  rfl

theorem handle_eq (h : Solitary settings endpoint e) (handle : e.sessions.Handle) :
    handle = e.sessions.currentHandle := by
  have hlength := h.length_eq
  have hhandle := handle.isLt
  have hcurrent := e.sessions.current_lt
  exact Fin.ext (show handle.val = e.sessions.current by omega)

theorem connectionId_eq (h : Solitary settings endpoint e) :
    e.current.material.connectionId = settings.connectionId := by
  have hmem := e.mem_ids_get e.sessions.currentHandle
  rw [h.ids_eq, List.mem_singleton] at hmem
  exact hmem

/-- The session may be replaced by one with the same part, method and identifier. -/
theorem of_set (h : Solitary settings endpoint e) (hkeeps : e.KeepsIds e')
    (hprofile : e'.profile = e.profile) {handle : e.sessions.Handle} {s : Session}
    (hsessions : e'.sessions = e.sessions.set handle s)
    (hrole : s.role = (e.sessions.get handle).role)
    (hmethod : s.material.method = (e.sessions.get handle).material.method)
    (hsuites : s.material.suitesInError = (e.sessions.get handle).material.suitesInError) :
    Solitary settings endpoint e' := by
  obtain rfl := h.handle_eq handle
  have hcurrent : e'.current = s := by
    change e'.sessions.currentSession = s
    rw [hsessions]
    exact SessionTable.currentSession_set_current ..
  exact {
    settings_eq := hkeeps.settings_eq.trans h.settings_eq
    endpoint_eq := hkeeps.endpoint_eq.trans h.endpoint_eq
    profile_eq := hprofile ▸ h.profile_eq
    ids_eq := hkeeps.ids_eq.trans h.ids_eq
    byId_eq := hkeeps.byId_eq.trans h.byId_eq
    role_eq := by rw [hcurrent, hrole]; exact h.role_eq
    method_eq := by rw [hcurrent, hmethod]; exact h.method_eq
    suitesInError_eq := by rw [hcurrent, hsuites]; exact h.suitesInError_eq
    contexts_eq := by
      obtain ⟨context, hcontexts⟩ := h.contexts_eq
      rcases hkeeps.contexts_eq with heq | ⟨_, _, other, -, heq⟩
      · exact ⟨context, heq.trans hcontexts⟩
      · rw [heq, hcontexts, h.endpoint_eq, Oscore.Store.insert, if_pos rfl]
        exact ⟨other, rfl⟩ }

theorem selectSuite (h : Solitary settings endpoint e) (role : Role) (suite : Suite) :
    Solitary settings endpoint (e.selectSuite role suite) :=
  h.of_set (keepsIds_selectSuite role suite) rfl rfl rfl (Material.selectSuite_method ..)
    (Material.selectSuite_suitesInError ..)

theorem settle (h : Solitary settings endpoint e) {handle : e.sessions.Handle} {material : Material}
    (hid : material.connectionId = (e.sessions.get handle).material.connectionId)
    (hmethod : material.method = (e.sessions.get handle).material.method)
    (hsuites : material.suitesInError = (e.sessions.get handle).material.suitesInError) :
    Solitary settings endpoint (e.settle handle material).value :=
  h.of_set (keepsIds_settle hid) rfl rfl (Session.setup_role ..)
    ((congrArg Material.method (Session.setup_material ..)).trans hmethod)
    ((congrArg Material.suitesInError (Session.setup_material ..)).trans hsuites)

/-- Changes keep an Initiator with its one session. -/
theorem change (h : Solitary settings endpoint e) (hchange : Change e e') :
    Solitary settings endpoint e' := by
  have hprofile := hchange.frame.2.2
  rcases hchange.keepsIds with hkeeps | ⟨sequence, a, ha, -⟩
  · cases hchange with
    | unchanged => exact h
    | offered => exact h.selectSuite _ _
    | written1 =>
      exact (h.selectSuite _ _).of_set (.of_set rfl rfl rfl rfl rfl (.inl rfl)) rfl rfl rfl rfl rfl
    | written2 => exact h.of_set hkeeps hprofile rfl rfl rfl rfl
    | written3 => exact h.settle rfl rfl rfl
    | accepted1 ha =>
      have hresponder := (check1_eq_ok ha).1
      rw [h.role_eq] at hresponder
      cases hresponder
    | accepted2 hc =>
      obtain ⟨_, _, _, -, -, -, -, -, -, rfl⟩ := check2_eq_ok hc
      exact h.of_set hkeeps hprofile rfl rfl rfl rfl
    | accepted3 hc =>
      obtain ⟨_, _, _, _, -, -, -, -, -, -, rfl⟩ := check3_eq_ok hc
      exact h.settle rfl rfl rfl
    | acceptedError => exact h.of_set hkeeps hprofile rfl rfl rfl rfl
    | replaced =>
      refine h.of_set hkeeps hprofile e.reset_sessions (Session.setupPlaceholder_role ..) ?_ ?_
      · rw [Session.setupPlaceholder_material]
        rfl
      · rw [Session.setupPlaceholder_material]
        rfl
    | released => exact h.of_set hkeeps hprofile rfl rfl rfl rfl
  · have hresponder := (check1_eq_ok ha).1
    rw [h.role_eq] at hresponder
    cases hresponder

end Solitary

theorem initial_solitary {profile : AppProfile} {entropy : Entropy}
    (hinitiator : settings.isInitiator = true)
    (hprofile : endpoint.profile? settings.edhocUri = some profile) :
    Solitary settings endpoint (initial settings endpoint profile entropy) where
  settings_eq := rfl
  endpoint_eq := rfl
  profile_eq := hprofile
  ids_eq := initial_ids ..
  byId_eq := by
    unfold initial ownReferences
    cases settings.forcedRecipientId <;> rfl
  role_eq := by
    rw [initial_current, startSession_role, ownRole, if_pos hinitiator]
  method_eq := by
    rw [initial_current, startSession_material]
    rfl
  suitesInError_eq := by
    rw [initial_current, startSession_material]
    rfl
  contexts_eq := by
    obtain ⟨context, -, hcontexts⟩ := initial_contexts settings endpoint profile entropy
    exact ⟨context, hcontexts⟩

/-- An Initiator has one session on every run. -/
theorem Reachable.solitary (h : Reachable settings endpoint e)
    (hinitiator : settings.isInitiator = true) : Solitary settings endpoint e :=
  h.induction_on_changes (fun _ _ hprofile => initial_solitary hinitiator hprofile)
    fun _ _ h hchange => h.change hchange

end Engine

end EdhocLab
