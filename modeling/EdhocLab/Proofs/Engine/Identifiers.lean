import EdhocLab.Proofs.Engine.Handshake

/-! # The registry of an engine

Connection identifiers are given to sessions once and never taken back.  A forced recipient
identifier refers to the first session without being reserved, and is only kept from new sessions by
the installed context, which every session renews with it.
-/
namespace EdhocLab

open Handshake

namespace SessionTable

variable (table : SessionTable)

/-- The connection identifiers of the sessions, by number. -/
def ids : List Bytes := table.sessions.map fun s => s.material.connectionId

theorem ids_set {h : table.Handle} {s : Session}
    (hid : s.material.connectionId = (table.get h).material.connectionId) :
    (table.set h s).ids = table.ids := by
  have hlt : h.val < table.ids.length := by simp [ids]
  have hget : table.ids[h.val] = (table.get h).material.connectionId := by simp [ids, get]
  rw [ids, sessions_set, List.map_set, hid, ← hget]
  exact List.set_getElem_self hlt

theorem ids_add (id : Bytes) (s : Session) :
    (table.add id s).ids = table.ids ++ [s.material.connectionId] := by
  simp [ids]

@[simp] theorem length_ids : table.ids.length = table.sessions.length := List.length_map ..

end SessionTable

namespace Oscore.Store

theorem hasRecipientId_of_get? {store : Store} {uri : String} {context : Context}
    (h : store.get? uri = some context) : store.hasRecipientId context.recipientId := by
  induction store with
  | nil => cases h
  | cons entry rest ih =>
    rw [get?, List.lookup_cons] at h
    cases huri : uri == entry.1 with
    | true =>
      simp only [huri, Option.some.injEq] at h
      simp [hasRecipientId, h]
    | false =>
      simp only [huri] at h
      have hrest := ih h
      simp only [hasRecipientId, List.any_cons, Bool.or_eq_true] at hrest ⊢
      exact .inr hrest

end Oscore.Store

namespace Session

variable {settings : Settings} {uri : String} {store : Oscore.Store} {s : Session}

/-- A context as it is installed for a session with a connection identifier. -/
structure Serves (settings : Settings) (id : Bytes) (context : Oscore.Context) : Prop where
  recipientId_eq : context.recipientId = settings.forcedRecipientId.getD id
  maxSize_eq : context.maxUnfragmentedSize = settings.maxUnfragmentedSize

theorem serves_of_context {m : Material} {ctx : Oscore.Context}
    (h : context settings m = .ok ctx) : Serves settings m.connectionId ctx := by
  obtain ⟨secret, -, h⟩ := bind_eq_ok.mp h
  obtain ⟨salt, -, h⟩ := bind_eq_ok.mp h
  obtain ⟨derived, hderived, h⟩ := bind_eq_ok.mp h
  cases h
  exact ⟨(Oscore.Context.of_derive (mapError_eq_ok.mp hderived)).1.recipientId_eq, rfl⟩

/-- What installing a context does to the contexts, if anything. -/
theorem setup_contexts (settings : Settings) (uri : String) (store : Oscore.Store) (s : Session) :
    (s.setup settings uri store).value.2 = store ∨ ∃ ctx,
      Serves settings s.material.connectionId ctx ∧
        (s.setup settings uri store).value.2 = store.insert uri ctx := by
  obtain ⟨ctx, hctx, -⟩ := context_eq_ok settings s.material
  rw [setup_value, hctx]
  split
  · exact .inl rfl
  · exact .inr ⟨ctx, serves_of_context hctx, rfl⟩

theorem setupPlaceholder_contexts (settings : Settings) (uri : String) (store : Oscore.Store)
    (s : Session) : ∃ ctx, Serves settings s.material.connectionId ctx ∧
      (s.setupPlaceholder settings uri store).value.2 = store.insert uri ctx := by
  obtain ⟨ctx, hctx, -⟩ := context_eq_ok settings s.material
  rw [setupPlaceholder_value settings s uri store hctx]
  exact ⟨ctx, serves_of_context hctx, rfl⟩

end Session

namespace Engine

variable {e e' : Engine}

/-- The same registry, with the context of one of the sessions installed at most. -/
structure KeepsIds (e e' : Engine) : Prop where
  settings_eq : e'.settings = e.settings
  endpoint_eq : e'.endpoint = e.endpoint
  byId_eq : e'.sessions.byId = e.sessions.byId
  ids_eq : e'.sessions.ids = e.sessions.ids
  used_eq : e'.used = e.used
  contexts_eq : e'.contexts = e.contexts ∨ ∃ id ∈ e.sessions.ids, ∃ context,
    Session.Serves e.settings id context ∧
      e'.contexts = e.contexts.insert e.endpoint.oscoreUri context

theorem mem_ids_get (h : e.sessions.Handle) :
    (e.sessions.get h).material.connectionId ∈ e.sessions.ids :=
  List.mem_map_of_mem (e.sessions.get_mem h)

/-- Replacing a session by one with the same identifier keeps the registry. -/
theorem KeepsIds.of_set {handle : e.sessions.Handle} {s : Session}
    (hsettings : e'.settings = e.settings) (hendpoint : e'.endpoint = e.endpoint)
    (hused : e'.used = e.used) (hsessions : e'.sessions = e.sessions.set handle s)
    (hid : s.material.connectionId = (e.sessions.get handle).material.connectionId)
    (hcontexts : e'.contexts = e.contexts ∨ ∃ context,
      Session.Serves e.settings (e.sessions.get handle).material.connectionId context ∧
        e'.contexts = e.contexts.insert e.endpoint.oscoreUri context) : e.KeepsIds e' where
  settings_eq := hsettings
  endpoint_eq := hendpoint
  byId_eq := by rw [hsessions]; rfl
  ids_eq := by rw [hsessions, SessionTable.ids_set _ hid]
  used_eq := hused
  contexts_eq := by
    rcases hcontexts with h | ⟨context, hserves, h⟩
    · exact .inl h
    · exact .inr ⟨_, mem_ids_get handle, context, hserves, h⟩

theorem KeepsIds.trans {e'' : Engine} (h : e.KeepsIds e') (h' : e'.KeepsIds e'')
    (hcontexts : e'.contexts = e.contexts) : e.KeepsIds e'' where
  settings_eq := h'.settings_eq.trans h.settings_eq
  endpoint_eq := h'.endpoint_eq.trans h.endpoint_eq
  byId_eq := h'.byId_eq.trans h.byId_eq
  ids_eq := h'.ids_eq.trans h.ids_eq
  used_eq := h'.used_eq.trans h.used_eq
  contexts_eq := by
    have hlast := h'.contexts_eq
    rw [hcontexts, h.ids_eq, h.settings_eq, h.endpoint_eq] at hlast
    exact hlast

theorem keepsIds_settle {handle : e.sessions.Handle} {material : Material}
    (hid : material.connectionId = (e.sessions.get handle).material.connectionId) :
    e.KeepsIds (e.settle handle material).value :=
  .of_set rfl rfl rfl rfl ((Session.setup_connectionId ..).trans hid)
    (by rw [← hid]; exact Session.setup_contexts ..)

theorem keepsIds_selectSuite (role : Role) (suite : Suite) :
    e.KeepsIds (e.selectSuite role suite) :=
  .of_set rfl rfl rfl rfl (Material.selectSuite_connectionId ..) (.inl rfl)

/-- A new session installs its context. -/
theorem startSession_contexts (settings : Settings) (endpoint : Endpoint) (role : Role)
    (method : UInt8) (connectionId : Bytes) (peerSuites : List Int) (contexts : Oscore.Store)
    (entropy : Entropy) : ∃ context, Session.Serves settings connectionId context ∧
      (startSession settings endpoint role method connectionId peerSuites contexts
        entropy).value.2.1 = contexts.insert endpoint.oscoreUri context :=
  let material := (Material.fresh endpoint role method connectionId peerSuites entropy).1
  Session.setupPlaceholder_contexts settings endpoint.oscoreUri contexts
    { role, material, oscoreReady := false, derivations := 0 }

theorem reset_contexts (e : Engine) : ∃ context,
    Session.Serves e.settings e.current.material.connectionId context ∧
      e.reset.value.contexts = e.contexts.insert e.endpoint.oscoreUri context :=
  let fresh := (Material.fresh e.endpoint e.current.role e.current.material.method
    e.current.material.connectionId e.current.material.peerSuites e.entropy).1
  Session.setupPlaceholder_contexts e.settings e.endpoint.oscoreUri e.contexts { e.current with
    material := { fresh with suitesInError := e.current.material.suitesInError } }

/-- A change keeps the registry, or starts a session for an accepted first message. -/
theorem Change.keepsIds (h : Change e e') : e.KeepsIds e' ∨ ∃ sequence a,
    (e.check1 sequence).result = .ok (some a) ∧ e' = (e.accept1 a).value := by
  cases h with
  | unchanged => exact .inl ⟨rfl, rfl, rfl, rfl, rfl, .inl rfl⟩
  | offered => exact .inl (keepsIds_selectSuite _ _)
  | written1 =>
    exact .inl ((keepsIds_selectSuite _ _).trans (.of_set rfl rfl rfl rfl rfl (.inl rfl)) rfl)
  | written2 => exact .inl (.of_set rfl rfl rfl rfl rfl (.inl rfl))
  | written3 => exact .inl (keepsIds_settle rfl)
  | accepted1 ha => exact .inr ⟨_, _, ha, rfl⟩
  | accepted2 hc =>
    obtain ⟨_, _, _, -, -, -, -, -, -, rfl⟩ := check2_eq_ok hc
    exact .inl (.of_set rfl rfl rfl rfl rfl (.inl rfl))
  | accepted3 hc =>
    obtain ⟨_, _, _, _, -, -, -, -, -, -, rfl⟩ := check3_eq_ok hc
    exact .inl (keepsIds_settle rfl)
  | acceptedError => exact .inl (.of_set rfl rfl rfl rfl rfl (.inl rfl))
  | replaced =>
    exact .inl (.of_set rfl rfl rfl rfl (Session.setupPlaceholder_connectionId ..)
      (.inr e.reset_contexts))
  | released => exact .inl (.of_set rfl rfl rfl rfl rfl (.inl rfl))

section Accept

variable (e : Engine) (a : Accepted1)

theorem accept1_sessions : (e.accept1 a).value.sessions =
    e.sessions.add a.connectionId (e.accept1 a).value.current :=
  congrArg (e.sessions.add a.connectionId) (SessionTable.currentSession_add ..).symm

theorem accept1_ids : (e.accept1 a).value.sessions.ids = e.sessions.ids ++ [a.connectionId] := by
  rw [accept1_sessions, SessionTable.ids_add, accept1_connectionId]

theorem accept1_used (id : Bytes) :
    (e.accept1 a).value.used id = (id == a.connectionId || e.used id) := rfl

theorem accept1_number? (id : Bytes) : (e.accept1 a).value.sessions.number? id =
    if id = a.connectionId then some e.sessions.sessions.length else e.sessions.number? id :=
  SessionTable.number?_add ..

theorem accept1_contexts : ∃ context, Session.Serves e.settings a.connectionId context ∧
    (e.accept1 a).value.contexts = e.contexts.insert e.endpoint.oscoreUri context :=
  startSession_contexts ..

variable {e a} in
theorem isFree_of_check1 {sequence : Bytes} (h : (e.check1 sequence).result = .ok (some a)) :
    e.isFree a.received.cI a.connectionId := by
  obtain ⟨-, ead, -, -, hanswer⟩ := check1_eq_ok h
  exact (freeId?_eq_some (answer1_eq_ok.mp hanswer).2.2.2).1

end Accept

/-- Identifiers refer to sessions that have them, and all but a forced one are reserved. -/
structure Registered (e : Engine) : Prop where
  own {id n} (h : e.sessions.number? id = some n) :
    e.settings.forcedRecipientId = some id ∨ e.sessions.ids[n]? = some id
  reserved {id n} (h : e.sessions.number? id = some n) :
    e.settings.forcedRecipientId = some id ∨ e.used id
  used_nil : e.used []
  used_configured : e.used e.settings.connectionId
  installed : ∃ id ∈ e.sessions.ids, ∃ context,
    e.contexts.get? e.endpoint.oscoreUri = some context ∧ Session.Serves e.settings id context

namespace Registered

/-- What is free was not given to anyone. -/
theorem of_isFree (h : e.Registered) {peerId id : Bytes} (hfree : e.isFree peerId id) :
    e.used id = false ∧ id ≠ peerId ∧ e.settings.forcedRecipientId ≠ some id ∧
      e.sessions.number? id = none := by
  simp only [isFree, Bool.and_eq_true, Bool.not_eq_true', bne_iff_ne] at hfree
  obtain ⟨⟨hused, hpeer⟩, hrecipient⟩ := hfree
  have hforced : e.settings.forcedRecipientId ≠ some id := by
    intro hforced
    obtain ⟨_, -, context, hget, hserves⟩ := h.installed
    have hhas := Oscore.Store.hasRecipientId_of_get? hget
    rw [hserves.recipientId_eq, hforced, Option.getD_some, hrecipient] at hhas
    cases hhas
  refine ⟨hused, hpeer, hforced, ?_⟩
  cases hnumber : e.sessions.number? id with
  | none => rfl
  | some n =>
    rcases h.reserved hnumber with h | h
    · exact absurd h hforced
    · rw [hused] at h
      cases h

theorem keepsIds (h : e.Registered) (hkeeps : e.KeepsIds e') : e'.Registered := by
  obtain ⟨hsettings, hendpoint, hbyId, hids, hused, hcontexts⟩ := hkeeps
  have hnumber (id : Bytes) : e'.sessions.number? id = e.sessions.number? id := by
    rw [SessionTable.number?, hbyId, SessionTable.number?]
  constructor
  · intro id n hn
    rw [hsettings, hids]
    exact h.own (hnumber id ▸ hn)
  · intro id n hn
    rw [hsettings, hused]
    exact h.reserved (hnumber id ▸ hn)
  · rw [hused]
    exact h.used_nil
  · rw [hused, hsettings]
    exact h.used_configured
  · rw [hids, hendpoint, hsettings]
    rcases hcontexts with heq | ⟨id, hid, context, hserves, heq⟩
    · rw [heq]
      exact h.installed
    · exact ⟨id, hid, context, by rw [heq, Oscore.Store.get?_insert_self], hserves⟩

theorem accept1 (h : e.Registered) (a : Accepted1) : (e.accept1 a).value.Registered := by
  have hnumber {id : Bytes} {n : Nat} (hn : (e.accept1 a).value.sessions.number? id = some n) :
      (id = a.connectionId ∧ n = e.sessions.ids.length) ∨ e.sessions.number? id = some n := by
    rw [accept1_number?] at hn
    split at hn
    · rename_i hid
      cases hn
      exact .inl ⟨hid, (SessionTable.length_ids _).symm⟩
    · exact .inr hn
  have hused {id : Bytes} (hid : e.used id) : (e.accept1 a).value.used id := by
    rw [accept1_used, hid, Bool.or_true]
  constructor
  · intro id n hn
    rw [accept1_ids]
    -- The new identifier refers to the session at the end, any other to one in its old place.
    rcases hnumber hn with ⟨rfl, rfl⟩ | hn
    · exact .inr (List.getElem?_concat_length ..)
    · rcases h.own hn with hforced | hown
      · exact .inl hforced
      · obtain ⟨hlt, -⟩ := List.getElem?_eq_some_iff.mp hown
        rw [List.getElem?_append_left hlt]
        exact .inr hown
  · intro id n hn
    rcases hnumber hn with ⟨rfl, -⟩ | hn
    · rw [accept1_used, beq_self_eq_true, Bool.true_or]
      exact .inr rfl
    · exact (h.reserved hn).imp_right hused
  · exact hused h.used_nil
  · exact hused h.used_configured
  · obtain ⟨context, hserves, hcontexts⟩ := e.accept1_contexts a
    refine ⟨a.connectionId, ?_, context, ?_, hserves⟩
    · rw [accept1_ids]
      exact List.mem_append_right _ (List.mem_singleton_self _)
    · rw [hcontexts]
      exact Oscore.Store.get?_insert_self ..

theorem change (h : e.Registered) (hchange : Change e e') : e'.Registered := by
  rcases hchange.keepsIds with hkeeps | ⟨sequence, a, ha, rfl⟩
  · exact h.keepsIds hkeeps
  · exact h.accept1 a

end Registered

section Initial

variable (settings : Settings) (endpoint : Endpoint) (profile : AppProfile) (entropy : Entropy)

theorem initial_ids :
    (initial settings endpoint profile entropy).sessions.ids = [settings.connectionId] := by
  have hsessions : (initial settings endpoint profile entropy).sessions.sessions =
      [(initial settings endpoint profile entropy).current] := by
    unfold initial
    cases settings.forcedRecipientId <;> rfl
  have hid : (initial settings endpoint profile entropy).current.material.connectionId =
      settings.connectionId := by
    rw [initial_current, startSession_material]
    rfl
  rw [SessionTable.ids, hsessions, List.map_singleton, hid]

/-- Only the configured and the forced identifier are known at first. -/
theorem initial_number? {id : Bytes} {n : Nat}
    (h : (initial settings endpoint profile entropy).sessions.number? id = some n) :
    n = 0 ∧ (settings.forcedRecipientId = some id ∨ id = settings.connectionId) := by
  have hsingle (s : Session) : ((SessionTable.single s).register settings.connectionId
      (SessionTable.single s).currentHandle).number? id = some n →
      n = 0 ∧ id = settings.connectionId := by
    rw [SessionTable.number?_register]
    split
    · rename_i hid
      intro hn
      cases hn
      exact ⟨rfl, hid⟩
    · nofun
  unfold initial at h
  cases hforced : settings.forcedRecipientId with
  | none =>
    simp only [hforced] at h
    exact (hsingle _ h).imp_right .inr
  | some forced =>
    simp only [hforced] at h
    change SessionTable.number? (SessionTable.register _ forced _) id = some n at h
    rw [SessionTable.number?_register] at h
    split at h
    · rename_i hid
      cases h
      exact ⟨rfl, .inl (congrArg some hid.symm)⟩
    · exact (hsingle _ h).imp_right .inr

theorem initial_used (id : Bytes) : (initial settings endpoint profile entropy).used id =
    (id == settings.connectionId || (id == [] || false)) := rfl

theorem initial_contexts : ∃ context,
    Session.Serves settings settings.connectionId context ∧
      (initial settings endpoint profile entropy).contexts =
        [(endpoint.oscoreUri, context)] :=
  startSession_contexts settings endpoint _ settings.method settings.connectionId [] [] entropy

theorem initial_registered : (initial settings endpoint profile entropy).Registered where
  own h := by
    obtain ⟨rfl, hid⟩ := initial_number? _ _ _ _ h
    rw [initial_ids]
    exact hid.imp_right fun hid => congrArg some hid.symm
  reserved h := by
    obtain ⟨-, hid⟩ := initial_number? _ _ _ _ h
    rw [initial_used]
    exact hid.imp_right fun hid => by simp [hid]
  used_nil := by simp [initial_used]
  used_configured := by
    rw [initial_used]
    exact Bool.or_eq_true_iff.mpr (.inl (beq_self_eq_true settings.connectionId))
  installed := by
    obtain ⟨context, hserves, hcontexts⟩ := initial_contexts settings endpoint profile entropy
    refine ⟨settings.connectionId, ?_, context, ?_, hserves⟩
    · rw [initial_ids]
      exact List.mem_singleton_self _
    · rw [hcontexts]
      exact List.lookup_cons_self

end Initial

/-- The registry of every engine that a run leads to. -/
theorem Reachable.registered {settings : Settings} {endpoint : Endpoint}
    (h : Reachable settings endpoint e) : e.Registered :=
  h.induction_on_changes (fun _ _ _ => initial_registered ..) fun _ _ h hchange => h.change hchange

section Run

/-- The engine after some actions. -/
def run (e : Engine) (actions : List Action) : Engine := actions.foldl act e

/-- The first message that an action starts a session for. -/
def accepted? (e : Engine) : Action → Option Accepted1
  | .call (.readMessage1 sequence) => (e.check1 sequence).result.toOption.join
  | _ => none

/-- The first messages that sessions are started for in a run. -/
def accepted : Engine → List Action → List Accepted1
  | _, [] => []
  | e, action :: actions => (e.accepted? action).toList ++ (e.act action).accepted actions

variable {action : Action} {actions : List Action} {a : Accepted1} {id : Bytes} {n : Nat}

/-- A session is started under the identifier that is allocated for its peer. -/
theorem of_accepted? (h : e.accepted? action = some a) :
    e.isFree a.received.cI a.connectionId ∧
      e.allocate a.received.cI = (some a.connectionId, e.markUsed a.connectionId) ∧
      e.act action = (e.accept1 a).value := by
  unfold accepted? at h
  split at h
  · rename_i sequence
    have hcheck : (e.check1 sequence).result = .ok (some a) :=
      toOption_eq_some.mp (Option.join_eq_some_iff.mp h)
    obtain ⟨-, ead, -, -, hanswer⟩ := check1_eq_ok hcheck
    have hid := (answer1_eq_ok.mp hanswer).2.2.2
    refine ⟨isFree_of_check1 hcheck, ?_, ?_⟩
    · rw [allocate, hid]
    · change (e.readMessage1 sequence).value.2 = _
      rw [readMessage1_value, hcheck]
  · cases h

theorem settings_act (e : Engine) (action : Action) : (e.act action).settings = e.settings :=
  (e.act_change action).frame.1

theorem settings_run (e : Engine) (actions : List Action) :
    (e.run actions).settings = e.settings := by
  induction actions generalizing e with
  | nil => rfl
  | cons action actions ih => exact (ih (e.act action)).trans (e.settings_act action)

theorem used_act (h : e.used id) (action : Action) : (e.act action).used id := by
  rcases (e.act_change action).keepsIds with hkeeps | ⟨sequence, a, -, heq⟩
  · rw [hkeeps.used_eq]
    exact h
  · rw [heq, accept1_used, h, Bool.or_true]

theorem Registered.number?_act (h : e.Registered) (hn : e.sessions.number? id = some n)
    (action : Action) : (e.act action).sessions.number? id = some n := by
  rcases (e.act_change action).keepsIds with hkeeps | ⟨sequence, a, ha, heq⟩
  · rw [SessionTable.number?, hkeeps.byId_eq]
    exact hn
  · obtain ⟨-, -, -, hnone⟩ := h.of_isFree (isFree_of_check1 ha)
    rw [heq, accept1_number?, if_neg]
    · exact hn
    · rintro rfl
      rw [hn] at hnone
      cases hnone

theorem ids_prefix_act (e : Engine) (action : Action) :
    e.sessions.ids <+: (e.act action).sessions.ids := by
  rcases (e.act_change action).keepsIds with hkeeps | ⟨sequence, a, -, heq⟩
  · rw [hkeeps.ids_eq]
  · rw [heq, accept1_ids]
    exact List.prefix_append ..

theorem Registered.act (h : e.Registered) (action : Action) : (e.act action).Registered :=
  h.change (e.act_change action)

/-- No identifier is taken from its session, and sessions are only added. -/
theorem Registered.run (h : e.Registered) (actions : List Action) :
    (∀ id n, e.sessions.number? id = some n → (e.run actions).sessions.number? id = some n) ∧
      e.sessions.ids <+: (e.run actions).sessions.ids := by
  induction actions generalizing e with
  | nil => exact ⟨fun _ _ hn => hn, List.prefix_refl _⟩
  | cons action actions ih =>
    obtain ⟨hnumber, hprefix⟩ := ih (h.act action)
    refine ⟨?_, (e.ids_prefix_act action).trans hprefix⟩
    intro id n hn
    exact hnumber id n (h.number?_act hn action)

/-- What a run allocates was not reserved before. -/
theorem Registered.of_mem_accepted (h : e.Registered) (ha : a ∈ e.accepted actions) :
    e.used a.connectionId = false ∧ a.connectionId ≠ a.received.cI ∧
      e.settings.forcedRecipientId ≠ some a.connectionId := by
  induction actions generalizing e with
  | nil => cases ha
  | cons action actions ih =>
    rcases List.mem_append.mp ha with ha | ha
    · obtain ⟨hfree, -, -⟩ := of_accepted? (Option.mem_toList.mp ha)
      obtain ⟨hused, hpeer, hforced, -⟩ := h.of_isFree hfree
      exact ⟨hused, hpeer, hforced⟩
    · obtain ⟨hused, hpeer, hforced⟩ := ih (h.act action) ha
      rw [settings_act] at hforced
      refine ⟨?_, hpeer, hforced⟩
      cases hbefore : e.used a.connectionId with
      | false => rfl
      | true =>
        rw [used_act hbefore action] at hused
        cases hused

theorem Registered.accepted_nodup (h : e.Registered) (actions : List Action) :
    ((e.accepted actions).map Accepted1.connectionId).Nodup := by
  induction actions generalizing e with
  | nil => exact List.nodup_nil
  | cons action actions ih =>
    have hrest := ih (h.act action)
    cases haccepted : e.accepted? action with
    | none =>
      simp only [accepted, haccepted, Option.toList_none, List.nil_append]
      exact hrest
    | some a =>
      simp only [accepted, haccepted, Option.toList_some, List.singleton_append, List.map_cons,
        List.nodup_cons]
      refine ⟨?_, hrest⟩
      intro hmem
      obtain ⟨b, hb, hid⟩ := List.mem_map.mp hmem
      obtain ⟨hused, -, -⟩ := (h.act action).of_mem_accepted hb
      obtain ⟨-, -, hact⟩ := of_accepted? haccepted
      rw [hact, accept1_used, hid, beq_self_eq_true, Bool.true_or] at hused
      cases hused

theorem Reachable.run {settings : Settings} {endpoint : Endpoint} (h : Reachable settings endpoint e)
    (actions : List Action) : Reachable settings endpoint (e.run actions) := by
  induction actions generalizing e with
  | nil => exact h
  | cons action actions ih => exact ih (.acted h action)

/-- On every run of a new engine, the current session is found under its identifier, identifiers
refer to the sessions that have them and to no other session later, and new sessions get identifiers
that nobody has. -/
theorem run_identifiers {settings : Settings} {endpoint : Endpoint} {entropy : Entropy}
    (h : (create settings endpoint entropy).result = .ok e) (actions : List Action) :
    let e' := e.run actions
    (e'.sessions.find? e'.current.material.connectionId = some e'.sessions.currentHandle ∧
      (settings.prependsOnReceive = false → ∀ field items,
        e'.addressed field items = .ok (e'.sessions.currentHandle, items))) ∧
    (∀ id handle, e'.sessions.find? id = some handle → settings.forcedRecipientId ≠ some id →
      (e'.sessions.get handle).material.connectionId = id) ∧
    (∀ actions', (∀ id n, e'.sessions.number? id = some n →
      (e'.run actions').sessions.number? id = some n) ∧
      e'.sessions.ids <+: (e'.run actions').sessions.ids) ∧
    (∀ action a, e'.accepted? action = some a →
      (e'.allocate a.received.cI).1 = some a.connectionId) ∧
    (∀ a ∈ e.accepted actions, a.connectionId ≠ [] ∧ a.connectionId ≠ settings.connectionId ∧
      settings.forcedRecipientId ≠ some a.connectionId ∧ a.connectionId ≠ a.received.cI) ∧
    ((e.accepted actions).map Accepted1.connectionId).Nodup := by
  intro e'
  have hcreated : Reachable settings endpoint e := .created h
  have hreachable : Reachable settings endpoint e' := hcreated.run actions
  have hsettings : e.settings = settings := hcreated.coherent.1
  have hsettings' : e'.settings = settings := hreachable.coherent.1
  have hfind := hreachable.indexed.find?_current
  refine ⟨⟨hfind, ?_⟩, ?_, hreachable.registered.run, ?_, ?_,
    hcreated.registered.accepted_nodup actions⟩
  · intro hprepends field items
    apply addressed_ok hfind
    rw [hsettings', hprepends]
    exact ⟨rfl, rfl⟩
  · intro id handle hid hforced
    rcases hreachable.registered.own (SessionTable.find?_eq_some_iff.mp hid) with hown | hown
    · rw [hsettings'] at hown
      exact absurd hown hforced
    · rw [SessionTable.ids, List.getElem?_map, List.getElem?_eq_getElem handle.isLt] at hown
      exact Option.some.inj hown
  · intro action a ha
    obtain ⟨-, hallocate, -⟩ := of_accepted? ha
    rw [hallocate]
  · intro a ha
    obtain ⟨hused, hpeer, hforced⟩ := hcreated.registered.of_mem_accepted ha
    rw [hsettings] at hforced
    refine ⟨?_, ?_, hforced, hpeer⟩
    · intro hnil
      rw [hnil, hcreated.registered.used_nil] at hused
      cases hused
    · intro hconfigured
      rw [hconfigured, ← hsettings, hcreated.registered.used_configured] at hused
      cases hused

/-- A first message from a peer with the identifier `00`, sent as a request. -/
def openingMessage : Bytes := [0xf5, 0x00, 0x00, 0x58, 0x20] ++ List.replicate 32 9 ++ [0x00]

/-- The settings of a Responder that is told its recipient identifier. -/
def forcedSettings : Settings :=
  { isInitiator := false, isCoapClient := false, forcedRecipientId := some [0x01] }

/-- Two such messages in a row. -/
def openings : List Action := List.replicate 2 (.call (.readMessage1 openingMessage))

/-- Two sessions of one engine, which skip the identifier of the peer and the forced one. -/
theorem run_identifiers_openings : ∃ e,
    (create forcedSettings (acquainted [2] [1]) { blocks := [], seed := 0, counter := 0 }).result =
      .ok e ∧
    (e.accepted openings).map Accepted1.connectionId = [[0x02], [0x03]] ∧
    (e.run openings).sessions.find? (e.run openings).current.material.connectionId =
      some (e.run openings).sessions.currentHandle ∧
    (∀ a ∈ e.accepted openings, a.connectionId ≠ [] ∧ a.connectionId ≠ [0x36] ∧
      some [0x01] ≠ some a.connectionId ∧ a.connectionId ≠ a.received.cI) ∧
    ((e.accepted openings).map Accepted1.connectionId).Nodup := by
  have hids : ((create forcedSettings (acquainted [2] [1])
      { blocks := [], seed := 0, counter := 0 }).result.toOption.map fun e =>
        (e.accepted openings).map Accepted1.connectionId) = some [[0x02], [0x03]] := by
    rfl
  obtain ⟨e, he, hids⟩ := Option.map_eq_some_iff.mp hids
  have hcreate := toOption_eq_some.mp he
  obtain ⟨⟨hcurrent, -⟩, -, -, -, hfresh, hnodup⟩ := run_identifiers hcreate openings
  exact ⟨e, hcreate, hids, hcurrent, hfresh, hnodup⟩

end Run

end Engine

end EdhocLab
