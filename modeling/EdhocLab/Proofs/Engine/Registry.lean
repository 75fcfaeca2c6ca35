import EdhocLab.Proofs.Engine.Coherence

/-! # Lookup of the current session

All sessions of an engine have its part, and the current one is found under its own identifier,
whatever other identifiers are registered.
-/
namespace EdhocLab

open Handshake

namespace SessionTable

variable {table : SessionTable} {h : table.Handle} {s : Session}

/-- Replacing a session by one with the same identifier keeps the identifier of the current one. -/
theorem connectionId_currentSession_set
    (hid : s.material.connectionId = (table.get h).material.connectionId) :
    (table.set h s).currentSession.material.connectionId =
      table.currentSession.material.connectionId := by
  by_cases hcurrent : h.val = table.current
  · obtain rfl : h = table.currentHandle := Fin.ext hcurrent
    rw [currentSession_set_current, hid]
    rfl
  · rw [table.currentSession_set_of_ne s hcurrent]

end SessionTable

namespace Engine

variable {e e' : Engine}

/-- The current session is the one under its identifier, and all sessions have one part. -/
structure Indexed (e : Engine) : Prop where
  number_current : e.sessions.number? e.current.material.connectionId = some e.sessions.current
  role_eq : ∀ s ∈ e.sessions.sessions, s.role = ownRole e.settings

namespace Indexed

theorem current_role (h : e.Indexed) : e.current.role = ownRole e.settings :=
  h.role_eq _ e.sessions.currentSession_mem

theorem get_role (h : e.Indexed) (handle : e.sessions.Handle) :
    (e.sessions.get handle).role = ownRole e.settings :=
  h.role_eq _ (e.sessions.get_mem handle)

/-- The handle under the identifier of the current session. -/
theorem find?_current (h : e.Indexed) :
    e.sessions.find? e.current.material.connectionId = some e.sessions.currentHandle :=
  SessionTable.find?_eq_some_iff.mpr h.number_current

/-- Replacing a session by one with the same part and identifier changes no lookup. -/
theorem of_set (h : e.Indexed) {handle : e.sessions.Handle} {s : Session}
    (hsessions : e'.sessions = e.sessions.set handle s) (hsettings : e'.settings = e.settings)
    (hrole : s.role = (e.sessions.get handle).role)
    (hid : s.material.connectionId = (e.sessions.get handle).material.connectionId) :
    e'.Indexed where
  number_current := by
    have hcurrent : e'.current.material.connectionId = e.current.material.connectionId := by
      change e'.sessions.currentSession.material.connectionId = _
      rw [hsessions]
      exact SessionTable.connectionId_currentSession_set hid
    rw [hcurrent, hsessions, SessionTable.number?_set, SessionTable.current_set]
    exact h.number_current
  role_eq := by
    intro t ht
    rw [hsessions] at ht
    rw [hsettings]
    rcases SessionTable.mem_sessions_set ht with rfl | ht
    · rw [hrole, h.get_role handle]
    · exact h.role_eq t ht

end Indexed

theorem initial_indexed {settings : Settings} {endpoint : Endpoint} {profile : AppProfile}
    {entropy : Entropy} : (initial settings endpoint profile entropy).Indexed where
  number_current := by
    rw [initial_current, startSession_material]
    unfold initial
    cases settings.forcedRecipientId with
    | none =>
      change SessionTable.number? (SessionTable.register _ settings.connectionId _)
        settings.connectionId = _
      rw [SessionTable.number?_register, if_pos rfl]
      rfl
    | some id =>
      change SessionTable.number? (SessionTable.register (SessionTable.register _
        settings.connectionId _) id _) settings.connectionId = _
      rw [SessionTable.number?_register, SessionTable.number?_register, if_pos rfl]
      split <;> rfl
  role_eq := by
    intro s hs
    rw [mem_sessions_initial hs, startSession_role]
    rfl

theorem selectSuite_indexed (h : e.Indexed) (role : Role) (suite : Suite) :
    (e.selectSuite role suite).Indexed :=
  h.of_set rfl rfl rfl (Material.selectSuite_connectionId ..)

/-- The session of an accepted first message has the identifier that was chosen for it. -/
theorem accept1_connectionId (e : Engine) (a : Accepted1) :
    (e.accept1 a).value.current.material.connectionId = a.connectionId := by
  change (SessionTable.add _ a.connectionId _).currentSession.material.connectionId = _
  rw [SessionTable.currentSession_add]
  exact (Material.selectSuite_connectionId ..).trans
    (congrArg Material.connectionId (startSession_material ..))

theorem accept1_indexed (h : e.Indexed) {a : Accepted1} (hrole : e.current.role = .responder) :
    (e.accept1 a).value.Indexed where
  number_current := by
    rw [accept1_connectionId]
    change SessionTable.number? (SessionTable.add _ a.connectionId _) a.connectionId = _
    rw [SessionTable.number?_add, if_pos rfl]
    rfl
  role_eq := by
    intro s hs
    rcases List.mem_append.mp hs with hs | hs
    · exact h.role_eq s hs
    · cases List.mem_singleton.mp hs
      change (startSession ..).value.1.role = _
      rw [startSession_role]
      exact hrole.symm.trans h.current_role

/-- Changes keep the current session under its identifier. -/
theorem Indexed.change (h : e.Indexed) (hchange : Change e e') : e'.Indexed := by
  cases hchange with
  | unchanged => exact h
  | offered => exact selectSuite_indexed h _ _
  | written1 => exact (selectSuite_indexed h _ _).of_set rfl rfl rfl rfl
  | written2 => exact h.of_set rfl rfl rfl rfl
  | written3 =>
    exact h.of_set rfl rfl (Session.setup_role ..) (Session.setup_connectionId ..)
  | accepted1 ha => exact accept1_indexed h (check1_eq_ok ha).1
  | accepted2 hc =>
    obtain ⟨masked, o, prk3e2m, -, -, -, -, -, -, rfl⟩ := check2_eq_ok hc
    exact h.of_set rfl rfl rfl rfl
  | accepted3 hc =>
    obtain ⟨-, -, -, -, -, -, -, -, -, -, rfl⟩ := check3_eq_ok hc
    exact h.of_set rfl rfl (Session.setup_role ..) (Session.setup_connectionId ..)
  | acceptedError => exact h.of_set rfl rfl rfl rfl
  | replaced =>
    exact h.of_set rfl rfl (Session.setupPlaceholder_role ..)
      (Session.setupPlaceholder_connectionId ..)
  | released => exact h.of_set rfl rfl rfl rfl

/-- In every engine that a run leads to, the current session is found under its identifier. -/
theorem Reachable.indexed {settings : Settings} {endpoint : Endpoint}
    (h : Reachable settings endpoint e) : e.Indexed :=
  h.induction_on_changes (fun _ _ _ => initial_indexed) fun _ _ h hchange => h.change hchange

end Engine

end EdhocLab
