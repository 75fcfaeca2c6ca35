import EdhocLab.Proofs.Engine.Completion
import EdhocLab.Proofs.Engine.Solitary

/-! # Resets of an Initiator

A reset erases what an Initiator has been through, except for the suites of its peer and the number
of contexts it derived.  No call reads the latter, so that two Initiators that know the same suites
of their peer cannot be told apart once they are reset.
-/
namespace EdhocLab

open Cbor (Value)
open Handshake

namespace Session

/-- Sessions that differ in the number of derived contexts at most. -/
structure Alike (s s' : Session) : Prop where
  role_eq : s'.role = s.role
  material_eq : s'.material = s.material
  oscoreReady_eq : s'.oscoreReady = s.oscoreReady

namespace Alike

variable {s s' : Session}

theorem renew (h : s.Alike s') {material material' : Material} (hmaterial : material' = material) :
    Alike { s with material := material } { s' with material := material' } :=
  ⟨h.role_eq, hmaterial, h.oscoreReady_eq⟩

/-- The same context is installed for sessions that are alike. -/
theorem setup (h : s.Alike s') (settings : Settings) (uri : String) (store : Oscore.Store) :
    (s.setup settings uri store).value.1.Alike (s'.setup settings uri store).value.1 ∧
      (s'.setup settings uri store).value.2 = (s.setup settings uri store).value.2 := by
  obtain ⟨hrole, hmaterial, hready⟩ := h
  rw [setup_value, setup_value, hmaterial, hready]
  split
  · exact ⟨⟨hrole, hmaterial, hready⟩, rfl⟩
  · split <;> exact ⟨⟨hrole, rfl, rfl⟩, rfl⟩

end Alike

end Session

namespace Engine

variable {settings : Settings} {endpoint : Endpoint} {e e' : Engine}

/-- Engines that are the same in all that calls read, but for what tells their sessions apart. -/
structure Alike (e e' : Engine) : Prop where
  settings_eq : e'.settings = e.settings
  endpoint_eq : e'.endpoint = e.endpoint
  profile_eq : e'.profile = e.profile
  current : e.current.Alike e'.current
  contexts_eq : e'.contexts = e.contexts
  entropy_eq : e'.entropy = e.entropy

namespace Alike

theorem symm (h : e.Alike e') : e'.Alike e :=
  ⟨h.1.symm, h.2.symm, h.3.symm, ⟨h.4.1.symm, h.4.2.symm, h.4.3.symm⟩, h.5.symm, h.6.symm⟩

theorem updates (h : e.Alike e') : e.Updates e' e.current.material :=
  ⟨h.settings_eq, h.endpoint_eq, h.current.role_eq, h.current.material_eq⟩

section Changes

variable {s s' : Session}

theorem renew (h : e.Alike e') (hs : s.Alike s') {contexts contexts' : Oscore.Store}
    (hcontexts : contexts' = contexts) {entropy entropy' : Entropy}
    (hentropy : entropy' = entropy) :
    Alike { e.setCurrent s with contexts := contexts, entropy := entropy }
      { e'.setCurrent s' with contexts := contexts', entropy := entropy' } where
  settings_eq := h.settings_eq
  endpoint_eq := h.endpoint_eq
  profile_eq := h.profile_eq
  current := by
    change Session.Alike (SessionTable.set _ _ s).currentSession
      (SessionTable.set _ _ s').currentSession
    rw [SessionTable.currentSession_set_current, SessionTable.currentSession_set_current]
    exact hs
  contexts_eq := hcontexts
  entropy_eq := hentropy

theorem setCurrent (h : e.Alike e') (hs : s.Alike s') :
    (e.setCurrent s).Alike (e'.setCurrent s') :=
  h.renew hs h.contexts_eq h.entropy_eq

theorem selectSuite (h : e.Alike e') (suite : Suite) :
    (e.selectSuite e.current.role suite).Alike (e'.selectSuite e'.current.role suite) := by
  have hselect : e'.current.material.selectSuite e'.endpoint e'.current.role suite e'.entropy =
      e.current.material.selectSuite e.endpoint e.current.role suite e.entropy := by
    rw [h.current.material_eq, h.endpoint_eq, h.current.role_eq, h.entropy_eq]
  exact h.renew (h.current.renew (congrArg Prod.fst hselect)) h.contexts_eq
    (congrArg Prod.snd hselect)

theorem settle (h : e.Alike e') {material material' : Material} (hmaterial : material' = material) :
    (e.settle e.sessions.currentHandle material).value.Alike
      (e'.settle e'.sessions.currentHandle material').value := by
  have hvalue : (e'.settle e'.sessions.currentHandle material').value =
      { e'.setCurrent (Session.setup { e'.current with material := material' } e.settings
          e.endpoint.oscoreUri e.contexts).value.1 with
        contexts := (Session.setup { e'.current with material := material' } e.settings
          e.endpoint.oscoreUri e.contexts).value.2 } := by
    rw [← h.settings_eq, ← h.endpoint_eq, ← h.contexts_eq]
    rfl
  obtain ⟨hs, hcontexts⟩ := (h.current.renew hmaterial).setup e.settings e.endpoint.oscoreUri
    e.contexts
  rw [hvalue]
  exact h.renew hs hcontexts h.entropy_eq

end Changes

end Alike

/-- The same result, and engines that are alike. -/
def Agree {α : Type} (found found' : α × Engine) : Prop :=
  found'.1 = found.1 ∧ found.2.Alike found'.2

theorem Agree.map {α β : Type} {found found' : α × Engine} (h : Agree found found') (f : α → β) :
    Agree (Prod.map f id found) (Prod.map f id found') :=
  ⟨congrArg f h.1, h.2⟩

section Written

/-! ### Calls that write -/

theorem Alike.writeMessage1 (h : e.Alike e') : Agree e.writeMessage1.value e'.writeMessage1.value := by
  have hoffer : e'.offer1.result = e.offer1.result := h.updates.offer1 rfl rfl
  have hleading : e'.leadingTrue = e.leadingTrue := by
    rw [leadingTrue, h.settings_eq, leadingTrue]
  rw [writeMessage1_value, writeMessage1_value, hoffer]
  cases e.offer1.result with
  | error _ => exact ⟨rfl, h⟩
  | ok offer =>
    have hselected := h.selectSuite offer.suite
    dsimp only
    rw [hleading, hselected.current.material_eq, hselected.current.role_eq]
    split
    · exact ⟨rfl, hselected⟩
    · split
      · exact ⟨rfl, hselected⟩
      · exact ⟨rfl, hselected.setCurrent ⟨rfl, rfl, hselected.current.oscoreReady_eq⟩⟩

theorem Alike.writeMessage2 (h : e.Alike e') : Agree e.writeMessage2.value e'.writeMessage2.value := by
  have hbuilt : e'.build2.result = e.build2.result := h.updates.build2
  rw [writeMessage2_value, writeMessage2_value, hbuilt, h.current.role_eq]
  split
  · exact ⟨rfl, h⟩
  · split
    · exact ⟨rfl, h⟩
    · refine ⟨rfl, h.setCurrent (h.current.renew ?_)⟩
      rw [h.current.material_eq]

theorem Alike.writeMessage3 (h : e.Alike e') : Agree e.writeMessage3.value e'.writeMessage3.value := by
  have hbuilt : e'.build3.result = e.build3.result := h.updates.build3
  rw [writeMessage3_value, writeMessage3_value, hbuilt, h.current.role_eq]
  split
  · exact ⟨rfl, h⟩
  · split
    · exact ⟨rfl, h⟩
    · refine ⟨rfl, h.settle ?_⟩
      rw [h.current.material_eq]

theorem Alike.writeMessage4 (h : e.Alike e') : Agree e.writeMessage4.value e'.writeMessage4.value := by
  have hbuilt : e'.build4.result = e.build4.result := by
    simp only [build4, prepended, produceEad, h.settings_eq, h.endpoint_eq, h.current.material_eq]
  rw [writeMessage4_value, writeMessage4_value, hbuilt]
  exact ⟨rfl, h⟩

theorem Alike.writeError (h : e.Alike e') (code : Int) (diagnostic : Option String) :
    Agree (e.writeError code diagnostic).value (e'.writeError code diagnostic).value := by
  have hbuilt : e'.buildError code diagnostic = e.buildError code diagnostic := by
    simp only [buildError, errorInfo, prepended, h.settings_eq, h.endpoint_eq,
      h.current.material_eq]
  rw [writeError_value, writeError_value, hbuilt]
  exact ⟨rfl, h⟩

end Written

section Received

/-! ### Calls that read -/

variable {sequence : Bytes}

theorem Alike.replaces (h : e.Alike e') (hs : Solitary settings endpoint e)
    (hs' : Solitary settings endpoint e') :
    e.Replaces e' e.sessions.currentHandle e'.current where
  settings_eq := h.settings_eq
  endpoint_eq := h.endpoint_eq
  profile_eq := h.profile_eq
  sessions_eq := SessionTable.eq_set hs.length_eq hs'.length_eq (hs'.byId_eq.trans hs.byId_eq.symm)
  connectionId_eq := congrArg Material.connectionId h.current.material_eq

/-- An Initiator learns from a first message whether it is acceptable, and nothing else. -/
theorem readMessage1_of_initiator (hrole : e.current.role = .initiator) :
    (e.readMessage1 sequence).value = ((do
      let (_, ead) ← e.parse1 sequence
      (e.preVerify .message1 ead).result : Except Error Unit).isOk, e) := by
  rw [readMessage1_value, check1, Check.result_bind, Check.result_ofExcept]
  cases e.parse1 sequence with
  | error error => rfl
  | ok found =>
    simp only [hrole, ok_bind, Check.result_bind]
    cases (e.preVerify .message1 found.2).result <;> rfl

theorem Alike.readMessage1 (h : e.Alike e') (hrole : e.current.role = .initiator)
    (sequence : Bytes) : Agree (e.readMessage1 sequence).value (e'.readMessage1 sequence).value := by
  have hparse : e'.parse1 sequence = e.parse1 sequence := by
    simp only [parse1, leading1, method1, acceptEad, eadConvention, h.settings_eq, h.endpoint_eq,
      h.profile_eq]
  rw [readMessage1_of_initiator hrole,
    readMessage1_of_initiator (h.current.role_eq.trans hrole), hparse]
  simp only [preVerify_result_congr h.endpoint_eq]
  exact ⟨rfl, h⟩

section Transfer

variable (hs : Solitary settings endpoint e) (hs' : Solitary settings endpoint e')
include hs hs'

theorem Alike.check2 (h : e.Alike e') {handle : e.sessions.Handle} {material : Material}
    (hcheck : (e.check2 sequence).result = .ok (handle, material)) :
    (e'.check2 sequence).result = .ok (e'.sessions.currentHandle, material) := by
  obtain rfl := hs.handle_eq handle
  obtain ⟨handle', hcheck', -⟩ := (h.replaces hs hs').check2 h.current.role_eq
    (fun o prk3e2m => by rw [h.current.material_eq]; rfl) hcheck
  rw [hcheck', hs'.handle_eq handle']

theorem Alike.check3 (h : e.Alike e') {handle : e.sessions.Handle} {material : Material}
    (hcheck : (e.check3 sequence).result = .ok (handle, material)) :
    (e'.check3 sequence).result = .ok (e'.sessions.currentHandle, material) := by
  obtain rfl := hs.handle_eq handle
  obtain ⟨handle', hcheck', -⟩ := (h.replaces hs hs').check3 h.current.role_eq
    (fun o phase3 => by rw [h.current.material_eq]; rfl) hcheck
  rw [hcheck', hs'.handle_eq handle']

theorem Alike.checkError (h : e.Alike e') {handle : e.sessions.Handle}
    {peerSuites : Option (List Int)}
    (hcheck : (e.checkError sequence).result = .ok (handle, peerSuites)) :
    (e'.checkError sequence).result = .ok (e'.sessions.currentHandle, peerSuites) := by
  obtain rfl := hs.handle_eq handle
  obtain ⟨handle', hcheck', -⟩ := (h.replaces hs hs').checkError hcheck
  rw [hcheck', hs'.handle_eq handle']

theorem Alike.open4 (h : e.Alike e') {ead : List Value} (hopen : e.open4 sequence = .ok ead) :
    e'.open4 sequence = .ok ead := by
  obtain ⟨items, handle, ciphertext4, key, iv, plaintext4, fields, hitems, haddressed, hkeys,
    hplaintext, hfields, hopen⟩ := open4_eq_ok hopen
  obtain rfl := hs.handle_eq handle
  obtain ⟨handle', haddressed', hget⟩ := (h.replaces hs hs').addressed haddressed
  have hmaterial : (e'.sessions.get handle').material =
      (e.sessions.get e.sessions.currentHandle).material := hget ▸ h.current.material_eq
  rw [acceptEad, eadConvention] at hopen
  simp only [Engine.open4, acceptEad, eadConvention, hitems, haddressed', nextBytes_cons, expectEnd,
    hmaterial, hkeys, hplaintext, hfields, h.settings_eq, h.endpoint_eq, ok_bind, hopen]

theorem Alike.check4 (h : e.Alike e') (hcheck : (e.check4 sequence).result = .ok ()) :
    (e'.check4 sequence).result = .ok () := by
  obtain ⟨ead, hopen, hpre⟩ := Check.result_bind_eq_ok.mp hcheck
  rw [Engine.check4, Check.result_bind, Check.result_ofExcept, h.open4 hs hs' hopen, ok_bind,
    preVerify_result_congr h.endpoint_eq]
  exact hpre

theorem Alike.readMessage2 (h : e.Alike e') (sequence : Bytes) :
    Agree (e.readMessage2 sequence).value (e'.readMessage2 sequence).value := by
  rw [readMessage2_value, readMessage2_value]
  cases hcheck : (e.check2 sequence).result with
  | ok found =>
    obtain ⟨handle, material⟩ := found
    obtain rfl := hs.handle_eq handle
    have hrole : (e.sessions.get e.sessions.currentHandle).role = .initiator := hs.role_eq
    have hrole' : (e'.sessions.get e'.sessions.currentHandle).role = .initiator := hs'.role_eq
    rw [h.check2 hs hs' hcheck]
    simp only [hrole, hrole']
    exact ⟨rfl, h.setCurrent ⟨rfl, rfl, h.current.oscoreReady_eq⟩⟩
  | error error =>
    obtain ⟨_, hcheck'⟩ := error_of_error hcheck fun _ hcheck' =>
      ⟨_, h.symm.check2 hs' hs hcheck'⟩
    rw [hcheck']
    exact ⟨rfl, h⟩

theorem Alike.readMessage3 (h : e.Alike e') (sequence : Bytes) :
    Agree (e.readMessage3 sequence).value (e'.readMessage3 sequence).value := by
  rw [readMessage3_value, readMessage3_value]
  cases hcheck : (e.check3 sequence).result with
  | ok found =>
    obtain ⟨handle, material⟩ := found
    obtain rfl := hs.handle_eq handle
    have hrole : (e.sessions.get e.sessions.currentHandle).role = .initiator := hs.role_eq
    have hrole' : (e'.sessions.get e'.sessions.currentHandle).role = .initiator := hs'.role_eq
    rw [h.check3 hs hs' hcheck]
    simp only [hrole, hrole']
    exact ⟨rfl, h⟩
  | error error =>
    obtain ⟨_, hcheck'⟩ := error_of_error hcheck fun _ hcheck' =>
      ⟨_, h.symm.check3 hs' hs hcheck'⟩
    rw [hcheck']
    exact ⟨rfl, h⟩

theorem Alike.readMessage4 (h : e.Alike e') (sequence : Bytes) :
    Agree (e.readMessage4 sequence).value (e'.readMessage4 sequence).value := by
  rw [readMessage4_value, readMessage4_value]
  cases hcheck : (e.check4 sequence).result with
  | ok =>
    rw [h.check4 hs hs' hcheck]
    exact ⟨rfl, h⟩
  | error error =>
    obtain ⟨_, hcheck'⟩ := error_of_error hcheck fun _ hcheck' =>
      ⟨_, h.symm.check4 hs' hs hcheck'⟩
    rw [hcheck']
    exact ⟨rfl, h⟩

theorem Alike.readError (h : e.Alike e') (sequence : Bytes) :
    Agree (e.readError sequence).value (e'.readError sequence).value := by
  rw [readError_value, readError_value]
  cases hcheck : (e.checkError sequence).result with
  | ok found =>
    obtain ⟨handle, suites⟩ := found
    obtain rfl := hs.handle_eq handle
    rw [h.checkError hs hs' hcheck]
    cases suites with
    | none => exact ⟨rfl, h⟩
    | some peerSuites =>
      refine ⟨rfl, h.setCurrent (h.current.renew ?_)⟩
      exact congrArg (fun m : Material => { m with peerSuites }) h.current.material_eq
  | error error =>
    obtain ⟨_, hcheck'⟩ := error_of_error hcheck fun _ hcheck' =>
      ⟨_, h.symm.checkError hs' hs hcheck'⟩
    rw [hcheck']
    exact ⟨rfl, h⟩

theorem Alike.perform (h : e.Alike e') (call : Call) :
    Agree (e.perform call).value (e'.perform call).value := by
  cases call with
  | writeMessage1 => exact h.writeMessage1.map _
  | writeMessage2 => exact h.writeMessage2.map _
  | writeMessage3 => exact h.writeMessage3.map _
  | writeMessage4 => exact h.writeMessage4.map _
  | writeError code diagnostic => exact (h.writeError code diagnostic).map _
  | readMessage1 sequence => exact (h.readMessage1 hs.role_eq sequence).map _
  | readMessage2 sequence => exact (h.readMessage2 hs hs' sequence).map _
  | readMessage3 sequence => exact (h.readMessage3 hs hs' sequence).map _
  | readMessage4 sequence => exact (h.readMessage4 hs hs' sequence).map _
  | readError sequence => exact (h.readError hs hs' sequence).map _

end Transfer

end Received

section Reset

/-! ### Resets -/

theorem reset_value (e : Engine) {ctx : Oscore.Context}
    (h : Session.context e.settings e.renewed.material = .ok ctx) : e.reset.value =
    { e.setCurrent { e.renewed with oscoreReady := false, derivations := e.current.derivations + 1 } with
      contexts := e.contexts.insert e.endpoint.oscoreUri ctx
      entropy := (Material.fresh e.endpoint e.current.role e.current.material.method
        e.current.material.connectionId e.current.material.peerSuites e.entropy).2 } := by
  have hvalue : e.reset.value =
      { e.setCurrent
          (e.renewed.setupPlaceholder e.settings e.endpoint.oscoreUri e.contexts).value.1 with
        contexts := (e.renewed.setupPlaceholder e.settings e.endpoint.oscoreUri e.contexts).value.2
        entropy := (Material.fresh e.endpoint e.current.role e.current.material.method
          e.current.material.connectionId e.current.material.peerSuites e.entropy).2 } := rfl
  rw [hvalue, Session.setupPlaceholder_value _ _ _ _ h]
  rfl

variable (hs : Solitary settings endpoint e) (hs' : Solitary settings endpoint e')
include hs hs'

/-- A reset leaves alike what knows the same suites and has the same source of keys. -/
theorem Solitary.reset_alike
    (hsuites : e'.current.material.peerSuites = e.current.material.peerSuites)
    (hentropy : e'.entropy = e.entropy) : e.reset.value.Alike e'.reset.value := by
  have hsettings : e'.settings = e.settings := hs'.settings_eq.trans hs.settings_eq.symm
  have hendpoint : e'.endpoint = e.endpoint := hs'.endpoint_eq.trans hs.endpoint_eq.symm
  have hrole : e'.current.role = e.current.role := hs'.role_eq.trans hs.role_eq.symm
  have hfresh : Material.fresh e'.endpoint e'.current.role e'.current.material.method
      e'.current.material.connectionId e'.current.material.peerSuites e'.entropy =
      Material.fresh e.endpoint e.current.role e.current.material.method
        e.current.material.connectionId e.current.material.peerSuites e.entropy := by
    rw [hendpoint, hrole, hs'.method_eq, ← hs.method_eq, hs'.connectionId_eq,
      ← hs.connectionId_eq, hsuites, hentropy]
  have hmaterial : e'.renewed.material = e.renewed.material := by
    unfold renewed
    rw [hfresh, hs'.suitesInError_eq, hs.suitesInError_eq]
  obtain ⟨ctx, hctx, -⟩ := Session.context_eq_ok e.settings e.renewed.material
  have hctx' : Session.context e'.settings e'.renewed.material = .ok ctx := by
    rw [hsettings, hmaterial, hctx]
  -- There is a context for one resource only, so that the new one leaves nothing of the old one.
  have hcontexts : e'.contexts.insert e'.endpoint.oscoreUri ctx =
      e.contexts.insert e.endpoint.oscoreUri ctx := by
    obtain ⟨old, hold⟩ := hs.contexts_eq
    obtain ⟨old', hold'⟩ := hs'.contexts_eq
    rw [hold, hold', hs.endpoint_eq, hs'.endpoint_eq]
    simp only [Oscore.Store.insert, if_true]
  have hprofile : e'.profile = e.profile :=
    Option.some.inj (hs'.profile_eq.symm.trans hs.profile_eq)
  rw [e.reset_value hctx, e'.reset_value hctx']
  exact {
    settings_eq := hsettings
    endpoint_eq := hendpoint
    profile_eq := hprofile
    current := by
      change Session.Alike (SessionTable.set ..).currentSession (SessionTable.set ..).currentSession
      rw [SessionTable.currentSession_set_current, SessionTable.currentSession_set_current]
      exact ⟨hrole, hmaterial, rfl⟩
    contexts_eq := hcontexts
    entropy_eq := congrArg Prod.snd hfresh }

theorem Alike.act (h : e.Alike e') (action : Action) : (e.act action).Alike (e'.act action) := by
  cases action with
  | call call => exact (h.perform hs hs' call).2
  | reset =>
    change e.resetSession.value.Alike e'.resetSession.value
    rw [resetSession, resetSession, h.settings_eq]
    split
    · exact hs.reset_alike hs' (congrArg Material.peerSuites h.current.material_eq) h.entropy_eq
    · exact h.setCurrent ⟨h.current.role_eq, h.current.material_eq, rfl⟩

end Reset

section Observations

/-- What an action shows: the answer to a call, and then the session and the installed contexts. -/
structure Observation where
  answer : Option Answer
  role : Role
  material : Material
  oscoreReady : Bool
  contexts : Oscore.Store

/-- The answer to an action that is a call. -/
def answer? (e : Engine) : Action → Option Answer
  | .call call => some (e.perform call).value.1
  | .reset => none

def observe (e : Engine) (action : Action) : Observation where
  answer := e.answer? action
  role := (e.act action).current.role
  material := (e.act action).current.material
  oscoreReady := (e.act action).current.oscoreReady
  contexts := (e.act action).contexts

/-- What the actions of a run show, one after the other. -/
def observations : Engine → List Action → List Observation
  | _, [] => []
  | e, action :: actions => e.observe action :: (e.act action).observations actions

theorem Alike.answer_eq (h : e.Alike e') (hs : Solitary settings endpoint e)
    (hs' : Solitary settings endpoint e') (action : Action) :
    e'.answer? action = e.answer? action := by
  cases action with
  | call call => exact congrArg some (h.perform hs hs' call).1
  | reset => rfl

/-- Equal answers of engines that are alike afterwards make equal observations. -/
theorem Alike.observe_eq {action : Action} (h : (e.act action).Alike (e'.act action))
    (hanswer : e'.answer? action = e.answer? action) :
    e'.observe action = e.observe action := by
  unfold observe
  rw [hanswer, h.current.role_eq, h.current.material_eq, h.current.oscoreReady_eq, h.contexts_eq]

theorem Solitary.acted (hs : Solitary settings endpoint e) (action : Action) :
    Solitary settings endpoint (e.act action) :=
  hs.change (e.act_change action)

/-- Runs of engines that are alike cannot be told apart. -/
theorem Alike.observations (h : e.Alike e') (hs : Solitary settings endpoint e)
    (hs' : Solitary settings endpoint e') (actions : List Action) :
    e'.observations actions = e.observations actions := by
  induction actions generalizing e e' with
  | nil => rfl
  | cons action actions ih =>
    have hact := h.act hs hs' action
    exact congrArg₂ List.cons (hact.observe_eq (h.answer_eq hs hs' action))
      (ih hact (hs.acted action) (hs'.acted action))

/-- The source of keys is no part of what holds of an Initiator. -/
theorem Solitary.withEntropy (hs : Solitary settings endpoint e) (entropy : Entropy) :
    Solitary settings endpoint { e with entropy } :=
  ⟨hs.1, hs.2, hs.3, hs.4, hs.5, hs.6, hs.7, hs.8, hs.9⟩

/-- From a reset on, what an Initiator shows only depends on its settings, its endpoint, the suites
that it learned of its peer, and its source of keys. -/
theorem reset_erases_history {e₁ e₂ : Engine} (hinitiator : settings.isInitiator = true)
    (hreset : settings.sessionReset = true) (h₁ : Reachable settings endpoint e₁)
    (h₂ : Reachable settings endpoint e₂)
    (hsuites : e₁.current.material.peerSuites = e₂.current.material.peerSuites)
    (entropy : Entropy) (actions : List Action) :
    Engine.observations { e₁ with entropy } (.reset :: actions) =
      Engine.observations { e₂ with entropy } (.reset :: actions) := by
  have hs₁ := (h₁.solitary hinitiator).withEntropy entropy
  have hs₂ := (h₂.solitary hinitiator).withEntropy entropy
  have hact {e : Engine} (hs : Solitary settings endpoint e) : e.act .reset = e.reset.value := by
    change e.resetSession.value = _
    rw [resetSession, hs.settings_eq, if_pos hreset]
  have halike : (Engine.act { e₂ with entropy } .reset).Alike
      (Engine.act { e₁ with entropy } .reset) := by
    rw [hact hs₁, hact hs₂]
    exact hs₂.reset_alike hs₁ hsuites rfl
  exact congrArg₂ List.cons (halike.observe_eq rfl)
    (halike.observations (hs₂.acted .reset) (hs₁.acted .reset) actions)

/-- An Initiator that wrote a third message shows no more of it once it is reset. -/
theorem reset_erases_third_message : ∃ e, e = caller.act (.call .writeMessage3) ∧
    Reachable {} (acquainted [1] [2]) caller ∧ Reachable {} (acquainted [1] [2]) e ∧
    caller.current.material.peerSuites = e.current.material.peerSuites ∧
    caller.current.oscoreReady = false ∧ e.current.oscoreReady = true ∧
    Engine.observations { caller with entropy := { blocks := [], seed := 1, counter := 0 } }
        [.reset, .call .writeMessage1, .call (.readError [2, 0]), .reset, .call .writeMessage3] =
      Engine.observations { e with entropy := { blocks := [], seed := 1, counter := 0 } }
        [.reset, .call .writeMessage1, .call (.readError [2, 0]), .reset, .call .writeMessage3] := by
  obtain ⟨-, hmaterial⟩ := caller_current
  have hunready : caller.ready caller.sessions.current = false := initial_ready ..
  obtain ⟨e, he, hready, -, phase3, message3, hafter⟩ := caller_settles caller_reachable hunready
    (by rw [hmaterial]; rfl) (by rw [hmaterial]; rfl)
  have hreachable : Reachable {} (acquainted [1] [2]) e :=
    he ▸ caller_reachable.acted (.call .writeMessage3)
  have hsuites : caller.current.material.peerSuites = e.current.material.peerSuites := by
    rw [hafter]
  exact ⟨e, he.symm, caller_reachable, hreachable, hsuites,
    (ready_handle caller.sessions.currentHandle).symm.trans hunready,
    (ready_handle e.sessions.currentHandle).symm.trans hready,
    reset_erases_history rfl rfl caller_reachable hreachable hsuites _ _⟩

end Observations

end Engine

end EdhocLab
