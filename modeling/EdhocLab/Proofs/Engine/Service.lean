import EdhocLab.Proofs.Engine.Identifiers
import EdhocLab.Proofs.Oscore.NonceUse

/-! # Engines in service

Between the actions on an engine its installed contexts protect and open messages, and the transport
records exchanges.  Neither touches a session, so that what actions preserve holds of every engine in
service.
-/
namespace EdhocLab

open Handshake

namespace Oscore

/-- A message that passes a security context in either direction. -/
inductive Traffic
  | sent (use : Use)
  | request (message : Bytes)
  | response (message : Bytes)
  deriving DecidableEq, Repr

/-- Protects or opens a message.  Nothing is kept of a response. -/
def Context.carry (context : Context) : Traffic → Except Error Bytes × Context
  | .sent use => context.perform use
  | .request message => context.unprotectRequest message
  | .response message => (context.unprotectResponse message, context)

/-- The context after some messages. -/
def Context.carryAll (context : Context) (traffic : List Traffic) : Context :=
  traffic.foldl (fun context message => (context.carry message).2) context

namespace Store

variable (store : Store) (uri other : String)

/-- The contexts after a message passed the one of a URI. -/
def carry (message : Traffic) : Store :=
  (store.withContext uri fun context => context.carry message).2

/-- The contexts after some messages passed the one of a URI. -/
def carryAll (traffic : List Traffic) : Store :=
  traffic.foldl (fun store message => store.carry uri message) store

theorem get?_insert (context : Context) :
    (store.insert uri context).get? other = if other = uri then some context else store.get? other := by
  split
  · rename_i h
    rw [h, get?_insert_self]
  · rename_i h
    induction store with
    | nil => simp [insert, get?, h]
    | cons entry rest ih =>
      unfold get? at ih ⊢
      by_cases huri : entry.1 = uri
      · have hentry : (other == entry.1) = false := by simpa [huri] using h
        have hother : (other == uri) = false := by simpa using h
        rw [insert, if_pos huri, List.lookup_cons, List.lookup_cons, hentry, hother]
      · rw [insert, if_neg huri, List.lookup_cons, List.lookup_cons, ih]

theorem get?_carry (message : Traffic) : (store.carry uri message).get? other =
    if other = uri then (store.get? uri).map fun context => (context.carry message).2
    else store.get? other := by
  cases hget : store.get? uri with
  | none =>
    have hcarry : store.carry uri message = store := by rw [carry, withContext, hget]
    rw [hcarry]
    split
    · rename_i h
      rw [h, hget]
      rfl
    · rfl
  | some context =>
    have hcarry : store.carry uri message = store.insert uri (context.carry message).2 := by
      rw [carry, withContext, hget]
    rw [hcarry, get?_insert]
    rfl

theorem carryAll_append (traffic traffic' : List Traffic) :
    store.carryAll uri (traffic ++ traffic') = (store.carryAll uri traffic).carryAll uri traffic' :=
  List.foldl_append

/-- Messages that pass a context concern what is installed there alone. -/
theorem get?_carryAll (traffic : List Traffic) : (store.carryAll uri traffic).get? uri =
    (store.get? uri).map fun context => context.carryAll traffic := by
  induction traffic generalizing store with
  | nil => exact Option.map_id_apply.symm
  | cons message traffic ih =>
    change ((store.carry uri message).carryAll uri traffic).get? uri = _
    rw [ih, get?_carry, if_pos rfl, Option.map_map]
    rfl

end Store

end Oscore

namespace Engine

variable {settings : Settings} {endpoint : Endpoint} {e : Engine}

/-- A message passes the context of a URI. -/
def carry (e : Engine) (uri : String) (message : Oscore.Traffic) : Engine :=
  { e with contexts := e.contexts.carry uri message }

/-- What happens to an engine in service. -/
inductive Operation
  | act (action : Action)
  | carry (uri : String) (message : Oscore.Traffic)
  | record (exchanger : Transport.Exchanger)

def operate (e : Engine) : Operation → Engine
  | .act action => e.act action
  | .carry uri message => e.carry uri message
  | .record exchanger => { e with exchanger }

/-- Who an engine is does not change in service. -/
theorem operate_frame (e : Engine) (operation : Operation) :
    (e.operate operation).settings = e.settings ∧ (e.operate operation).endpoint = e.endpoint ∧
      (e.operate operation).profile = e.profile := by
  cases operation with
  | act action => exact (e.act_change action).frame
  | carry uri message => exact ⟨rfl, rfl, rfl⟩
  | record exchanger => exact ⟨rfl, rfl, rfl⟩

/-- The engines that an endpoint with some source of keys gets to in service. -/
inductive InService (settings : Settings) (endpoint : Endpoint) : Engine → Prop
  | created {entropy : Entropy} {e : Engine} (h : (create settings endpoint entropy).result = .ok e) :
      InService settings endpoint e
  | operated {e : Engine} (h : InService settings endpoint e) (operation : Operation) :
      InService settings endpoint (e.operate operation)

/-- Actions alone are service. -/
theorem Reachable.inService (h : Reachable settings endpoint e) : InService settings endpoint e := by
  induction h with
  | created hcreate => exact .created hcreate
  | acted _ action ih => exact ih.operated (.act action)

namespace InService

/-- What holds of a created engine and is preserved by changes, traffic and records holds in service. -/
theorem induction_on_changes {P : Engine → Prop}
    (hinitial : ∀ profile entropy, endpoint.profile? settings.edhocUri = some profile →
      P (initial settings endpoint profile entropy))
    (hchange : ∀ e e', P e → Change e e' → P e')
    (hcarry : ∀ e uri message, P e → P (e.carry uri message))
    (hrecord : ∀ e exchanger, P e → P { e with exchanger })
    (h : InService settings endpoint e) : P e := by
  induction h with
  | created hcreate =>
    obtain ⟨profile, hprofile, rfl⟩ := create_eq_ok.mp hcreate
    exact hinitial profile _ hprofile
  | @operated e h operation ih =>
    cases operation with
    | act action => exact hchange e _ ih (e.act_change action)
    | carry uri message => exact hcarry e uri message ih
    | record exchanger => exact hrecord e exchanger ih

/-- The sessions of an engine in service are coherent. -/
theorem coherent (h : InService settings endpoint e) :
    e.settings = settings ∧ e.endpoint = endpoint ∧ e.Coherent := by
  refine induction_on_changes (P := fun e => e.settings = settings ∧ e.endpoint = endpoint ∧
    e.Coherent) ?_ ?_ (fun _ _ _ h => h) (fun _ _ h => h) h
  · intro profile entropy _
    exact ⟨rfl, rfl, initial_coherent⟩
  · rintro e e' ⟨rfl, rfl, hcoherent⟩ hchange
    obtain ⟨hsettings, hendpoint, -⟩ := hchange.frame
    exact ⟨hsettings, hendpoint, hcoherent.change hchange⟩

/-- The current session of an engine in service is found under its identifier. -/
theorem indexed (h : InService settings endpoint e) : e.Indexed :=
  h.induction_on_changes (fun _ _ _ => initial_indexed) (fun _ _ h hchange => h.change hchange)
    (fun _ _ _ h => ⟨h.number_current, h.role_eq⟩) fun _ _ h => ⟨h.number_current, h.role_eq⟩

/-- An engine in service has a context installed for its resource. -/
theorem installed (h : InService settings endpoint e) :
    ∃ context, e.contexts.get? endpoint.oscoreUri = some context := by
  have hinsert (e : Engine) (context : Oscore.Context) :
      ((e.contexts.insert e.endpoint.oscoreUri context).get? e.endpoint.oscoreUri).isSome := by
    rw [Oscore.Store.get?_insert_self]
    rfl
  obtain ⟨rfl, hsome⟩ : e.endpoint = endpoint ∧ (e.contexts.get? e.endpoint.oscoreUri).isSome := by
    -- The endpoint is part of the invariant because it says under which resource to look.
    refine induction_on_changes (P := fun e => e.endpoint = endpoint ∧
      (e.contexts.get? e.endpoint.oscoreUri).isSome) ?_ ?_ ?_ (fun _ _ h => h) h
    · intro profile entropy _
      obtain ⟨context, -, hcontexts⟩ := initial_contexts settings endpoint profile entropy
      refine ⟨rfl, ?_⟩
      rw [hcontexts]
      simp [initial, markUsed, Oscore.Store.get?]
    · rintro e e' ⟨rfl, hsome⟩ hchange
      refine ⟨hchange.frame.2.1, ?_⟩
      rw [hchange.frame.2.1]
      rcases hchange.keepsIds with hkeeps | ⟨_, a, -, rfl⟩
      · rcases hkeeps.contexts_eq with heq | ⟨_, -, context, -, heq⟩
        · rwa [heq]
        · rw [heq]
          exact hinsert e context
      · obtain ⟨context, -, heq⟩ := e.accept1_contexts a
        rw [heq]
        exact hinsert e context
    · rintro e uri message ⟨rfl, hsome⟩
      refine ⟨rfl, ?_⟩
      change ((e.contexts.carry uri message).get? e.endpoint.oscoreUri).isSome
      rw [Oscore.Store.get?_carry]
      split
      · rename_i huri
        rw [Option.isSome_map, ← huri]
        exact hsome
      · exact hsome
  exact Option.isSome_iff_exists.mp hsome

end InService

end Engine

end EdhocLab
