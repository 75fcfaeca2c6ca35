import EdhocLab.Proofs.Engine.Completion
import EdhocLab.Proofs.Engine.Repetition
import EdhocLab.Proofs.Engine.Service

/-! # Third messages after the handshake

A third message may arrive or be written once more when the context that it led to is in use.  The
session counts as set up by then, so that the context keeps its sequence number and replay window
whatever else has passed it.
-/
namespace EdhocLab.Engine

open Handshake

variable {settings : Settings} {endpoint : Endpoint} {e : Engine} {action : Action} {n : Nat}

/-- The engine after some operations. -/
def serve (e : Engine) (operations : List Operation) : Engine := operations.foldl operate e

/-- The messages that pass a context. -/
def trafficOf (operations : List Operation) : List Oscore.Traffic :=
  operations.filterMap fun
    | .carry _ message => some message
    | _ => none

/-- What may follow an action with a third message: traffic on the installed context, the action
again, a third message that is written again or that an Initiator reads, and reads that fail. -/
inductive Follows (e : Engine) (action : Action) : Operation → Prop
  | traffic (message : Oscore.Traffic) : Follows e action (.carry e.endpoint.oscoreUri message)
  | again : Follows e action (.act action)
  | rewritten : Follows e action (.act (.call .writeMessage3))
  | reread {sequence : Bytes} (hrole : e.current.role = .initiator) :
      Follows e action (.act (.call (.readMessage3 sequence)))
  | rejected {call : Call} (h : (e.perform call).value.1 = .read false) :
      Follows e action (.act (.call call))

/-- Each operation may follow the action when it happens. -/
def Continues (action : Action) : Engine → List Operation → Prop
  | _, [] => True
  | e, operation :: operations =>
    e.Follows action operation ∧ Continues action (e.operate operation) operations

/-- The action changes nothing any more, whatever is installed. -/
def Absorbs (e : Engine) (action : Action) : Prop :=
  ∀ contexts, act { e with contexts } action = { e with contexts }

section Idle

/-- A Responder keeps nothing of a third message that it writes. -/
theorem absorbs_writeMessage3 (hrole : e.current.role = .responder) :
    e.Absorbs (.call .writeMessage3) := by
  intro contexts
  change (writeMessage3 { e with contexts }).value.2 = _
  have hrole' : (current { e with contexts }).role = .responder := hrole
  rw [writeMessage3_value, hrole']
  split <;> rfl

/-- An Initiator keeps nothing of a third message that it reads. -/
theorem absorbs_readMessage3 (hroles : ∀ handle, (e.sessions.get handle).role = .initiator)
    (sequence : Bytes) : e.Absorbs (.call (.readMessage3 sequence)) := by
  intro contexts
  change (readMessage3 { e with contexts } sequence).value.2 = _
  rw [readMessage3_value]
  split
  · rfl
  · rename_i handle material _
    have hrole' : (SessionTable.get _ handle).role = .initiator := hroles handle
    rw [hrole']

end Idle

/-- What completed a handshake changes nothing when it is done again. -/
theorem Completes.absorbs (h : e.Completes action n) : (e.act action).Absorbs action := by
  intro contexts
  cases h with
  | @written message hrole h =>
    cases hbuilt : e.build3.result with
    | error _ => simp [writeMessage3_value, hbuilt] at h
    | ok built =>
      -- The completed session builds the message that it keeps, and is not set up again.
      obtain ⟨e', he', hbuilt', hkept, hready⟩ := settle_build3 hbuilt
      have hact : e.act (.call .writeMessage3) = e' := by
        change e.writeMessage3.value.2 = e'
        rw [writeMessage3_value, hbuilt, hrole, he']
      rw [hact]
      have hvalue : (writeMessage3 { e' with contexts }).value = (some built.1, { e' with contexts }) :=
        @writeMessage3_of_kept { e' with contexts } built.1 built.2 hbuilt' hkept hready
      exact congrArg Prod.snd hvalue
  | @accepted sequence ciphertext3 handle hparse hrole h =>
    cases hcheck : (e.check3 sequence).result with
    | error _ => simp [readMessage3_value, hcheck] at h
    | ok found =>
      obtain ⟨_, _, _, _, hparse', -⟩ := check3_eq_ok hcheck
      obtain ⟨rfl, -⟩ := Prod.mk.inj (Except.ok.inj (hparse.symm.trans hparse'))
      obtain ⟨e', he', handle', hcheck', hready⟩ := settle_check3 hcheck
      have hact : e.act (.call (.readMessage3 sequence)) = e' := by
        change (e.readMessage3 sequence).value.2 = e'
        rw [readMessage3_value, hcheck]
        simp only [hrole, he']
      rw [hact]
      have hreplaces : e'.Replaces { e' with contexts } handle' (e'.sessions.get handle') :=
        ⟨rfl, rfl, rfl, (e'.sessions.set_get handle').symm, rfl⟩
      obtain ⟨handle'', hcheck'', hget⟩ := hreplaces.check3 rfl (fun _ _ => rfl) hcheck'
      have hvalue : (readMessage3 { e' with contexts } sequence).value = (true, { e' with contexts }) :=
        readMessage3_of_kept (hcheck''.trans (by rw [hget])) (by rw [hget]; exact hready)
      exact congrArg Prod.snd hvalue

/-- A third message is written in vain once one has completed a handshake. -/
theorem Completes.absorbs_writeMessage3 (h : e.Completes action n) (hindexed : e.Indexed)
    (hafter : (e.act action).Indexed) : (e.act action).Absorbs (.call .writeMessage3) := by
  have hsame : ownRole (e.act action).settings = ownRole e.settings := by
    rw [(e.act_change action).frame.1]
  cases h with
  | written hrole h => exact (Completes.written hrole h).absorbs
  | @accepted _ _ handle _ hrole _ =>
    refine Engine.absorbs_writeMessage3 ?_
    rw [hafter.current_role, hsame, ← hindexed.get_role handle, hrole]

section Run

variable {contexts : Oscore.Store} (hagain : e.Absorbs action)
  (hrewritten : e.Absorbs (.call .writeMessage3)) (hindexed : e.Indexed)

include hagain hrewritten hindexed

/-- An operation that may follow leaves all but the installed contexts alone, and these to traffic. -/
theorem Follows.operate_eq {operation : Operation}
    (h : Follows { e with contexts } action operation) :
    operate { e with contexts } operation = { e with
      contexts := contexts.carryAll e.endpoint.oscoreUri (trafficOf [operation]) } := by
  cases h with
  | traffic message => rfl
  | again => exact hagain contexts
  | rewritten => exact hrewritten contexts
  | reread hrole =>
    refine absorbs_readMessage3 (fun handle => ?_) _ contexts
    rw [hindexed.get_role, ← hindexed.current_role]
    exact hrole
  | rejected h => exact act_of_rejected h

/-- A run of such operations comes to the traffic on it. -/
theorem serve_eq {operations : List Operation}
    (h : Continues action { e with contexts } operations) :
    serve { e with contexts } operations = { e with
      contexts := contexts.carryAll e.endpoint.oscoreUri (trafficOf operations) } := by
  induction operations generalizing contexts with
  | nil => rfl
  | cons operation operations ih =>
    obtain ⟨hfollows, hcontinues⟩ := h
    have hoperate := hfollows.operate_eq hagain hrewritten hindexed
    have hsplit : trafficOf ([operation] ++ operations) =
        trafficOf [operation] ++ trafficOf operations := List.filterMap_append
    change serve (operate { e with contexts } operation) operations =
      { e with contexts := contexts.carryAll e.endpoint.oscoreUri (trafficOf ([operation] ++ operations)) }
    rw [hoperate] at hcontinues ⊢
    rw [ih hcontinues, hsplit, Oscore.Store.carryAll_append]

end Run

/-- After a third message that completed a handshake, its session counts as set up.  Whatever then
passes the installed context in between, reading or writing the message again leaves the context as
the traffic left it, and the rest of the engine as well. -/
theorem third_message_keeps_traffic (h : InService settings endpoint e)
    (hcompletes : e.Completes action n) :
    (e.act action).ready n ∧ ∃ context,
      (e.act action).contexts.get? endpoint.oscoreUri = some context ∧
      ∀ operations, Continues action (e.act action) operations →
        let e' := (e.act action).serve operations
        e'.contexts.get? endpoint.oscoreUri =
            some (context.carryAll (trafficOf operations)) ∧
          e'.act action = e' ∧ e'.act (.call .writeMessage3) = e' ∧ e'.ready n := by
  have hafter : InService settings endpoint (e.act action) := h.operated (.act action)
  have hready : (e.act action).ready n := act_ready_iff.mpr (.inl hcompletes)
  have hagain := hcompletes.absorbs
  have hrewritten := hcompletes.absorbs_writeMessage3 h.indexed hafter.indexed
  obtain ⟨context, hcontext⟩ := hafter.installed
  refine ⟨hready, context, hcontext, fun operations hcontinues => ?_⟩
  dsimp only
  have hserve : (e.act action).serve operations = { e.act action with
      contexts := (e.act action).contexts.carryAll (e.act action).endpoint.oscoreUri
        (trafficOf operations) } := serve_eq hagain hrewritten hafter.indexed hcontinues
  rw [hserve]
  refine ⟨?_, hagain _, hrewritten _, hready⟩
  rw [hafter.coherent.2.1, Oscore.Store.get?_carryAll, hcontext]
  rfl

/-- A protected request, the third message again, a message that is refused, and a request that
arrives. -/
def laterOperations : List Operation :=
  [.carry "" (.sent (.request [0x40, 0x01, 0x00, 0x00])), .act (.call .writeMessage3),
    .act (.call (.readMessage1 [])), .carry "" (.request [])]

theorem laterOperations_continue (h : InService {} (acquainted [1] [2]) e) :
    Continues (.call .writeMessage3) e laterOperations := by
  have htraffic {e : Engine} (h : InService {} (acquainted [1] [2]) e) (message : Oscore.Traffic) :
      e.Follows (.call .writeMessage3) (.carry "" message) := by
    have huri : e.endpoint.oscoreUri = "" := by rw [h.coherent.2.1]; rfl
    exact huri ▸ .traffic message
  have hrejected (e : Engine) : (e.perform (.readMessage1 [])).value.1 = .read false := rfl
  refine ⟨htraffic h _, .again, .rejected (hrejected _), htraffic ?_ _, trivial⟩
  exact ((h.operated (.carry _ _)).operated (.act _)).operated (.act _)

/-- An Initiator that writes the third message once more in the middle of its traffic. -/
theorem caller_keeps_traffic : InService {} (acquainted [1] [2]) caller ∧
    caller.Completes (.call .writeMessage3) 0 ∧
    Continues (.call .writeMessage3) (caller.act (.call .writeMessage3)) laterOperations ∧
    ∃ context, (caller.act (.call .writeMessage3)).contexts.get? "" = some context ∧
      ((caller.act (.call .writeMessage3)).serve laterOperations).contexts.get? "" =
        some (context.carryAll
          [.sent (.request [0x40, 0x01, 0x00, 0x00]), .request []]) := by
  have hservice := caller_reachable.inService
  have hcontinues := laterOperations_continue (hservice.operated (.act (.call .writeMessage3)))
  obtain ⟨-, context, hcontext, hrun⟩ := third_message_keeps_traffic hservice caller_completes
  exact ⟨hservice, caller_completes, hcontinues, context, hcontext, (hrun laterOperations hcontinues).1⟩

end EdhocLab.Engine
