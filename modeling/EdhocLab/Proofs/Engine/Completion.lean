import EdhocLab.Proofs.Engine.Handshake

/-! # Completed handshakes

A third message that an Initiator writes or a Responder accepts completes the handshake of a session.
The context of the session is then installed, unless one was installed for an earlier handshake and
the session not reset since.
-/
namespace EdhocLab

open Handshake

namespace Engine

variable {e e' : Engine} {action : Action} {n : Nat}

/-- Whether the session with a number counts as set up. -/
def ready (e : Engine) (n : Nat) : Bool := e.sessions.sessions[n]?.any Session.oscoreReady

/-- The action completes the handshake of the session with a number: an Initiator writes the third
message, or a Responder accepts one for the session. -/
inductive Completes (e : Engine) : Action → Nat → Prop
  | written {message : Bytes} (hrole : e.current.role = .initiator)
      (h : e.writeMessage3.value.1 = some message) :
      Completes e (.call .writeMessage3) e.sessions.current
  | accepted {sequence ciphertext3 : Bytes} {handle : e.sessions.Handle}
      (hparse : e.parse3 sequence = .ok (handle, ciphertext3))
      (hrole : (e.sessions.get handle).role = .responder)
      (h : (e.readMessage3 sequence).value.1 = true) :
      Completes e (.call (.readMessage3 sequence)) handle

/-- On a run to the engine, the session completed a handshake and was not reset since. -/
inductive Settled (settings : Settings) (endpoint : Endpoint) (n : Nat) : Engine → Prop
  | completed {e : Engine} {action : Action} (h : Reachable settings endpoint e)
      (hcompletes : e.Completes action n) : Settled settings endpoint n (e.act action)
  | kept {e : Engine} (h : Settled settings endpoint n e) (action : Action)
      (hreset : action = .reset → e.sessions.current ≠ n) : Settled settings endpoint n (e.act action)

section Flags

theorem ready_set {handle : e.sessions.Handle} {s : Session}
    (h : e'.sessions = e.sessions.set handle s) :
    e'.ready n = if handle = n then s.oscoreReady else e.ready n := by
  unfold ready
  rw [h, SessionTable.sessions_set, List.getElem?_set]
  split
  · simp
  · rfl

@[simp] theorem ready_handle (handle : e.sessions.Handle) :
    e.ready handle = (e.sessions.get handle).oscoreReady := by
  simp [ready, SessionTable.get]

/-- Replacing a session by one with the same flag changes no flag. -/
theorem ready_of_set {handle : e.sessions.Handle} {s : Session}
    (h : e'.sessions = e.sessions.set handle s)
    (hflag : s.oscoreReady = (e.sessions.get handle).oscoreReady) : e'.ready n = e.ready n := by
  rw [ready_set h]
  split
  · rename_i heq
    rw [← heq, ready_handle, hflag]
  · rfl

theorem setMaterial_ready (material : Material) :
    (e.setCurrent { e.current with material }).ready n = e.ready n :=
  ready_of_set rfl rfl

/-- A session that is added without its flag changes no flag. -/
theorem ready_of_add {id : Bytes} {s : Session} (h : e'.sessions = e.sessions.add id s)
    (hflag : s.oscoreReady = false) : e'.ready n = e.ready n := by
  unfold ready
  rw [h, SessionTable.sessions_add]
  rcases Nat.lt_trichotomy n e.sessions.sessions.length with hlt | rfl | hgt
  · rw [List.getElem?_append_left hlt]
  · simp [hflag]
  · rw [List.getElem?_eq_none (by simpa using hgt), List.getElem?_eq_none (Nat.le_of_lt hgt)]

theorem settle_ready (handle : e.sessions.Handle) (material : Material) :
    (e.settle handle material).value.ready n = if handle = n then true else e.ready n := by
  have h : (e.settle handle material).value.sessions = e.sessions.set handle _ := rfl
  rw [ready_set h, Session.setup_oscoreReady]

theorem resetSession_ready :
    e.resetSession.value.ready n = if e.sessions.current = n then false else e.ready n := by
  have hset (s : Session) (e' : Engine) (h : e'.sessions = e.sessions.set e.sessions.currentHandle s)
      (hflag : s.oscoreReady = false) :
      e'.ready n = if e.sessions.current = n then false else e.ready n := by
    rw [ready_set h, hflag]
    rfl
  unfold resetSession
  split
  · exact hset _ _ rfl rfl
  · exact hset _ _ rfl rfl

theorem initial_ready (settings : Settings) (endpoint : Endpoint) (profile : AppProfile)
    (entropy : Entropy) : (initial settings endpoint profile entropy).ready n = false := by
  unfold ready
  cases h : (initial settings endpoint profile entropy).sessions.sessions[n]? with
  | none => rfl
  | some s =>
    rw [mem_sessions_initial (List.mem_of_getElem? h)]
    rfl

end Flags

section Calls

variable (e) (sequence : Bytes)

theorem writeMessage1_ready : e.writeMessage1.value.2.ready n = e.ready n := by
  rw [writeMessage1_value]
  cases e.offer1.result with
  | error _ => rfl
  | ok offer =>
    have hset : (e.selectSuite e.current.role offer.suite).sessions =
        e.sessions.set e.sessions.currentHandle _ := rfl
    have hselected : (e.selectSuite e.current.role offer.suite).ready n = e.ready n :=
      ready_of_set hset rfl
    dsimp only
    split
    · exact hselected
    · split
      · exact hselected
      · exact (setMaterial_ready _).trans hselected

theorem writeMessage2_ready : e.writeMessage2.value.2.ready n = e.ready n := by
  rw [writeMessage2_value]
  split
  · rfl
  · split
    · rfl
    · exact setMaterial_ready _

theorem readMessage1_ready : (e.readMessage1 sequence).value.2.ready n = e.ready n := by
  rw [readMessage1_value]
  split
  · rfl
  · rfl
  · exact ready_of_add rfl rfl

theorem readMessage2_ready : (e.readMessage2 sequence).value.2.ready n = e.ready n := by
  rw [readMessage2_value]
  split
  · rfl
  · split
    · rfl
    · exact ready_of_set rfl rfl

theorem readError_ready : (e.readError sequence).value.2.ready n = e.ready n := by
  rw [readError_value]
  split
  · rfl
  · rfl
  · exact ready_of_set rfl rfl

end Calls

/-- What completes a session settles it on some material. -/
theorem Completes.act_eq (h : e.Completes action n) : ∃ (handle : e.sessions.Handle) (material : Material),
    handle = n ∧ e.act action = (e.settle handle material).value := by
  cases h with
  | written hrole h =>
    refine ⟨e.sessions.currentHandle, ?_⟩
    change ∃ material, _ ∧ e.writeMessage3.value.2 = _
    rw [writeMessage3_value] at h ⊢
    cases hbuilt : e.build3.result with
    | error _ => simp [hbuilt] at h
    | ok built =>
      rw [hrole]
      exact ⟨_, rfl, rfl⟩
  | @accepted sequence ciphertext3 handle hparse hrole h =>
    refine ⟨handle, ?_⟩
    change ∃ material, _ ∧ (e.readMessage3 sequence).value.2 = _
    rw [readMessage3_value] at h ⊢
    cases hchecked : (e.check3 sequence).result with
    | error _ => simp [hchecked] at h
    | ok found =>
      obtain ⟨_, _, _, _, hparse', -⟩ := check3_eq_ok hchecked
      obtain ⟨rfl, -⟩ := Prod.mk.inj (Except.ok.inj (hparse.symm.trans hparse'))
      simp only [hrole]
      exact ⟨_, trivial, rfl⟩

/-- Calls that do not complete a session leave its flag alone. -/
theorem act_call_ready {call : Call} (h : ¬ e.Completes (.call call) n) :
    (e.act (.call call)).ready n = e.ready n := by
  cases call with
  | writeMessage1 => exact e.writeMessage1_ready
  | writeMessage2 => exact e.writeMessage2_ready
  -- Only third messages settle a session: that of an Initiator when they are written and that of a
  -- Responder when they are read.
  | writeMessage3 =>
    change e.writeMessage3.value.2.ready n = _
    rw [writeMessage3_value]
    cases hbuilt : e.build3.result with
    | error _ => rfl
    | ok built =>
      cases hrole : e.current.role with
      | responder => rfl
      | initiator =>
        have hwritten : e.writeMessage3.value.1 = some built.1 := by
          rw [writeMessage3_value, hbuilt, hrole]
        have hne : e.sessions.currentHandle ≠ n := fun heq => h (heq ▸ .written hrole hwritten)
        exact (settle_ready ..).trans (if_neg hne)
  | writeMessage4 =>
    change e.writeMessage4.value.2.ready n = _
    rw [writeMessage4_value]
  | writeError code diagnostic =>
    change (e.writeError code diagnostic).value.2.ready n = _
    rw [writeError_value]
  | readMessage1 sequence => exact e.readMessage1_ready sequence
  | readMessage2 sequence => exact e.readMessage2_ready sequence
  | readMessage3 sequence =>
    change (e.readMessage3 sequence).value.2.ready n = _
    rw [readMessage3_value]
    cases hchecked : (e.check3 sequence).result with
    | error _ => rfl
    | ok found =>
      cases hrole : (e.sessions.get found.1).role with
      | initiator => simp only [hrole]
      | responder =>
        obtain ⟨_, _, _, _, hparse, -⟩ := check3_eq_ok hchecked
        have haccepted : (e.readMessage3 sequence).value.1 = true := by
          rw [readMessage3_value, hchecked]
          simp only [hrole]
        have hne : found.1.val ≠ n := fun heq => h (heq ▸ .accepted hparse hrole haccepted)
        simp only [hrole]
        exact (settle_ready ..).trans (if_neg hne)
  | readMessage4 sequence =>
    change (e.readMessage4 sequence).value.2.ready n = _
    rw [readMessage4_value]
  | readError sequence => exact e.readError_ready sequence

/-- A session is set up by what completes it, and stays so until it is reset. -/
theorem act_ready_iff : (e.act action).ready n ↔
    e.Completes action n ∨ (e.ready n ∧ (action = .reset → e.sessions.current ≠ n)) := by
  by_cases hcompletes : e.Completes action n
  · obtain ⟨handle, material, hhandle, hact⟩ := hcompletes.act_eq
    simp [hact, settle_ready, hhandle, hcompletes]
  · cases action with
    | reset =>
      change e.resetSession.value.ready n ↔ _
      rw [resetSession_ready]
      by_cases hcurrent : e.sessions.current = n <;> simp [hcompletes, hcurrent]
    | call call => simp [act_call_ready hcompletes, hcompletes]

/-- A session counts as set up exactly if it completed a handshake and was not reset since. -/
theorem Reachable.ready_iff {settings : Settings} {endpoint : Endpoint}
    (h : Reachable settings endpoint e) : e.ready n ↔ Settled settings endpoint n e := by
  constructor
  · intro hready
    induction h with
    | created hcreate =>
      obtain ⟨profile, -, rfl⟩ := create_eq_ok.mp hcreate
      simp [initial_ready] at hready
    | acted h action ih =>
      rcases act_ready_iff.mp hready with hcompletes | ⟨hbefore, hreset⟩
      · exact .completed h hcompletes
      · exact .kept (ih hbefore) action hreset
  · intro hsettled
    clear h
    induction hsettled with
    | completed h hcompletes => exact act_ready_iff.mpr (.inl hcompletes)
    | kept h action hreset ih => exact act_ready_iff.mpr (.inr ⟨ih, hreset⟩)

theorem settle_contexts_of_not_ready {handle : e.sessions.Handle} (material : Material)
    (h : e.ready handle = false) :
    ∃ context, (e.settle handle material).value.contexts.get? e.endpoint.oscoreUri = some context ∧
      Session.Matches e.settings material context := by
  rw [ready_handle] at h
  exact Session.setup_of_not_ready e.settings { e.sessions.get handle with material } _ _ h

theorem settle_contexts_of_ready {handle : e.sessions.Handle} (material : Material)
    (h : e.ready handle = true) : (e.settle handle material).value.contexts = e.contexts := by
  rw [ready_handle] at h
  exact congrArg Prod.snd (Session.setup_of_ready e.settings
    { e.sessions.get handle with material } e.endpoint.oscoreUri e.contexts h)

theorem settle_session (handle : e.sessions.Handle) (material : Material) :
    ∃ s, (e.settle handle material).value.sessions.sessions[handle.val]? = some s ∧
      s.material = material := by
  refine ⟨_, List.getElem?_set_self handle.isLt, Session.setup_material ..⟩

/-- What completing a session installs: the context of its resulting material if the session was not
set up, and else nothing. -/
theorem Completes.installs (h : e.Completes action n) :
    ∃ s, (e.act action).sessions.sessions[n]? = some s ∧
      (e.ready n = false → ∃ context,
        (e.act action).contexts.get? e.endpoint.oscoreUri = some context ∧
          Session.Matches e.settings s.material context) ∧
      (e.ready n → (e.act action).contexts = e.contexts) := by
  obtain ⟨handle, material, rfl, hact⟩ := h.act_eq
  obtain ⟨s, hs, hmaterial⟩ := settle_session handle material
  rw [hact]
  exact ⟨s, hs, fun hready => hmaterial ▸ settle_contexts_of_not_ready material hready,
    settle_contexts_of_ready material⟩

/-- An Initiator that signs completes its session at any time, if it can address the peer. -/
theorem Reachable.completes_written {settings : Settings} {endpoint : Endpoint}
    (h : Reachable settings endpoint e) (hequipped : endpoint.Equipped)
    (hinitiator : ownRole settings = .initiator)
    (hsigns : Endpoint.signs .initiator e.current.material.method)
    (haddress : e.current.material.peerConnectionId ≠ []) :
    e.Completes (.call .writeMessage3) e.sessions.current := by
  obtain ⟨message, e', hwrite⟩ := h.writes_message3 hequipped hinitiator hsigns haddress
  exact .written (h.role.trans hinitiator) (congrArg Prod.fst hwrite)

theorem sessions_current (e : Engine) :
    e.sessions.sessions[e.sessions.current]? = some e.current :=
  List.getElem?_eq_getElem e.sessions.current_lt

/-- A session whose third message was written is the current one, with the material it had but for
what the message established. -/
theorem Completes.written_session (h : e.Completes (.call .writeMessage3) n) :
    ∃ s phase3 message3, (e.act (.call .writeMessage3)).sessions.sessions[n]? = some s ∧
      (e.act (.call .writeMessage3)).current = s ∧
      (e.act (.call .writeMessage3)).sessions.current = n ∧
      s.material = { e.current.material with phase3, message3 } := by
  obtain ⟨handle, material, -, hact⟩ := h.act_eq
  cases h with
  | written hrole h =>
    have hwrite : e.writeMessage3.value = (some _, e.act (.call .writeMessage3)) := Prod.ext h rfl
    obtain ⟨phase3, -, hmaterial⟩ := writeMessage3_eq_some hwrite hrole
    have hnumber : (e.act (.call .writeMessage3)).sessions.current = e.sessions.current := by
      rw [hact]
      rfl
    exact ⟨_, phase3, _, hnumber ▸ sessions_current _, rfl, hnumber, hmaterial⟩

/-- Completing a session installs the context of its resulting material, unless the session is
settled: then what is installed stays as it is. -/
theorem completed_context {settings : Settings} {endpoint : Endpoint}
    (h : Reachable settings endpoint e) (hcompletes : e.Completes action n) :
    ∃ s, (e.act action).sessions.sessions[n]? = some s ∧
      (¬ Settled settings endpoint n e → ∃ context,
        (e.act action).contexts.get? endpoint.oscoreUri = some context ∧
          Session.Matches settings s.material context) ∧
      (Settled settings endpoint n e → (e.act action).contexts = e.contexts) := by
  obtain ⟨rfl, rfl, -⟩ := h.coherent
  rw [← h.ready_iff, Bool.not_eq_true]
  exact hcompletes.installs

section Acquainted

/-- A fresh Initiator completes its session with a third message on placeholders. -/
theorem caller_completes : caller.Completes (.call .writeMessage3) 0 := by
  obtain ⟨-, hmaterial⟩ := caller_current
  exact caller_reachable.completes_written (acquainted_equipped (by decide) (by decide)) rfl
    (by rw [hmaterial]; rfl) (by rw [hmaterial]; intro h; cases h)

/-- A fresh Initiator that completes its session right away installs the context of placeholders, and
keeps it when it completes the session once more. -/
theorem caller_context : ∃ e s context, caller.act (.call .writeMessage3) = e ∧
    e.sessions.sessions[0]? = some s ∧ e.contexts.get? "" = some context ∧
    Session.Matches {} s.material context ∧
    e.Completes (.call .writeMessage3) 0 ∧ (e.act (.call .writeMessage3)).contexts = e.contexts := by
  obtain ⟨-, hmaterial⟩ := caller_current
  obtain ⟨s, hs, hfresh, -⟩ := completed_context caller_reachable caller_completes
  obtain ⟨context, hcontext, hmatches⟩ := hfresh (by
    rw [← caller_reachable.ready_iff, caller, initial_ready]
    intro h
    cases h)
  have hreachable : Reachable {} (acquainted [1] [2]) (caller.act (.call .writeMessage3)) :=
    caller_reachable.acted _
  obtain ⟨_, _, _, -, hcurrent, hnumber, hwritten⟩ := caller_completes.written_session
  rw [← hcurrent] at hwritten
  have hagain : (caller.act (.call .writeMessage3)).Completes (.call .writeMessage3) 0 := by
    rw [← hnumber]
    exact hreachable.completes_written (acquainted_equipped (by decide) (by decide)) rfl
      (by rw [hwritten, hmaterial]; rfl) (by rw [hwritten, hmaterial]; intro h; cases h)
  obtain ⟨-, -, -, hkept⟩ := completed_context hreachable hagain
  exact ⟨_, s, context, rfl, hs, hcontext, hmatches, hagain,
    hkept (.completed caller_reachable caller_completes)⟩

theorem readMessage2_frame (sequence : Bytes) :
    (e.readMessage2 sequence).value.2.contexts = e.contexts ∧
      (e.readMessage2 sequence).value.2.sessions.current = e.sessions.current := by
  rw [readMessage2_value]
  split
  · exact ⟨rfl, rfl⟩
  · split <;> exact ⟨rfl, rfl⟩

section Stale

variable {m₁ m₂ : Bytes} {i₁ i₂ r₁ r₂ : Engine}

/-- An Initiator that was not set up and does not know its peer installs a context for the placeholder
of its identifier. -/
theorem caller_settles (hi₁ : Reachable {} (acquainted [1] [2]) i₁)
    (hunready : i₁.ready i₁.sessions.current = false)
    (hmethod : i₁.current.material.method = 0)
    (hpeer : i₁.current.material.peerConnectionId = Material.unknownId) :
    ∃ i₂, i₁.act (.call .writeMessage3) = i₂ ∧ i₂.ready i₂.sessions.current ∧
      (∃ context, i₂.contexts.get? "" = some context ∧ context.senderId = Material.unknownId) ∧
      ∃ phase3 message3, i₂.current.material = { i₁.current.material with phase3, message3 } := by
  have hcompletes : i₁.Completes (.call .writeMessage3) i₁.sessions.current :=
    hi₁.completes_written (acquainted_equipped (by decide) (by decide)) rfl (by rw [hmethod]; rfl)
      (by rw [hpeer]; exact nofun)
  obtain ⟨s, phase3, message3, hs, hcurrent, hnumber, hmaterial⟩ := hcompletes.written_session
  obtain ⟨s', hs', hinstalled, -⟩ := hcompletes.installs
  obtain rfl : s = s' := Option.some.inj (hs.symm.trans hs')
  obtain ⟨context, hcontext, _, _, -, -, hderives⟩ := hinstalled hunready
  rw [hi₁.coherent.2.1] at hcontext
  have hsender : context.senderId = Material.unknownId := by
    rw [hderives.senderId_eq, hi₁.coherent.1, hmaterial]
    exact hpeer
  refine ⟨_, rfl, ?_, ⟨context, hcontext, hsender⟩, phase3, message3, hcurrent ▸ hmaterial⟩
  rw [hnumber]
  exact act_ready_iff.mpr (.inl hcompletes)

end Stale

/-- The third message that an Initiator wrote on placeholders settles its session, so that completing
the handshake afterwards leaves the context of placeholders installed. -/
theorem caller_stale_context : ∃ m₁ m₂, caller.writeMessage1.value.1 = some m₁ ∧
    (callee.act (.call (.readMessage1 m₁))).writeMessage2.value.1 = some m₂ ∧
    ∃ e s, e = ((caller.act (.call .writeMessage1)).act (.call .writeMessage3)).act
        (.call (.readMessage2 m₂)) ∧
      Reachable {} (acquainted [1] [2]) e ∧ e.Completes (.call .writeMessage3) e.sessions.current ∧
      (e.act (.call .writeMessage3)).sessions.sessions[e.sessions.current]? = some s ∧
      ¬ ∃ context, (e.act (.call .writeMessage3)).contexts.get? "" = some context ∧
        Session.Matches {} s.material context := by
  obtain ⟨m₁, i₁, hwrite₁, hmethod, hsuite, hpeer⟩ := caller_writeMessage1
  have hi₁ : Reachable {} (acquainted [1] [2]) i₁ :=
    caller_reachable.called .writeMessage1 (congrArg (Prod.map Answer.written id) hwrite₁)
  have hact₁ : caller.act (.call .writeMessage1) = i₁ := congrArg Prod.snd hwrite₁
  have hunready : i₁.ready i₁.sessions.current = false := by
    rw [← hact₁]
    exact caller.writeMessage1_ready.trans (initial_ready ..)
  obtain ⟨r₁, m₂, r₂, hread₁, hwrite₂, hafter, hr₁⟩ := callee_answers hi₁ hwrite₁ hmethod hsuite
  have hr : callee.act (.call (.readMessage1 m₁)) = r₁ := congrArg Prod.snd hread₁
  obtain ⟨i₂, hact₂, hready, ⟨context, hcontext, hsender⟩, _, _, hmaterial⟩ :=
    caller_settles hi₁ hunready hmethod hpeer
  have hi₂ : Reachable {} (acquainted [1] [2]) i₂ := hact₂ ▸ hi₁.acted (.call .writeMessage3)
  have hafter₂ : i₂.current.material.AfterMessage1 r₁.current.material := by
    rw [hmaterial]
    exact ⟨hafter.method_eq, hafter.suite_eq, hafter.hash_eq, hafter.initiatorId_eq, hafter.ids_ne,
      hafter.initiatorKey⟩
  obtain ⟨i₃, hread, -, hmethod₃, -, hlength⟩ := caller_learns hi₂ hr₁ hafter₂ (by rw [hmaterial, hmethod])
    (by rw [hmaterial, hsuite]) hwrite₂
  have hi₃ : Reachable {} (acquainted [1] [2]) i₃ :=
    hi₂.called (.readMessage2 m₂) (congrArg (Prod.map Answer.read id) hread)
  have hcompletes : i₃.Completes (.call .writeMessage3) i₃.sessions.current :=
    hi₃.completes_written (acquainted_equipped (by decide) (by decide)) rfl
      (by rw [hmethod₃]; rfl) fun hnil => by simp [hnil] at hlength
  obtain ⟨s, _, _, hs, -, -, hmaterial₃⟩ := hcompletes.written_session
  refine ⟨m₁, m₂, congrArg Prod.fst hwrite₁, hr ▸ congrArg Prod.fst hwrite₂, i₃, s, ?_, hi₃,
    hcompletes, hs, ?_⟩
  · rw [hact₁, hact₂]
    exact (congrArg Prod.snd hread).symm
  · rintro ⟨context', hget, _, _, -, -, hderives⟩
    -- The session is still set up, so that the context for the placeholder is still installed
    have hkept : i₃.ready i₃.sessions.current ∧ i₃.contexts = i₂.contexts := by
      obtain ⟨hcontexts, hnumber⟩ := i₂.readMessage2_frame m₂
      have hflag := i₂.readMessage2_ready m₂ (n := i₂.sessions.current)
      rw [hread] at hcontexts hnumber hflag
      exact ⟨by rw [hnumber, hflag]; exact hready, hcontexts⟩
    obtain ⟨-, -, -, hstays⟩ := hcompletes.installs
    rw [hstays hkept.1, hkept.2, hcontext] at hget
    obtain rfl : context = context' := Option.some.inj hget
    have hid : i₃.current.material.peerConnectionId = Material.unknownId := by
      rw [← hsender, hderives.senderId_eq, hmaterial₃]
      rfl
    rw [hid] at hlength
    exact absurd hlength (by decide)

end Acquainted

end Engine

end EdhocLab
