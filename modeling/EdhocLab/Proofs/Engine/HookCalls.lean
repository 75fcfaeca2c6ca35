import EdhocLab.Proofs.Engine.Call

/-! # Calls of application hooks

The hooks that a call of the engine runs, in order and with what they are given.  Log records are left
out: a check calls the hooks that it reaches, whatever it comes to.
-/
namespace EdhocLab

open Cbor (Value)
open Handshake

/-- The hook call of an event that is one. -/
def Event.call? : Event → Option HookCall
  | hook call => some call
  | log _ _ => none

namespace Traced

variable {α β : Type}

/-- The hook calls among the events. -/
def calls (t : Traced α) : List HookCall := t.events.filterMap Event.call?

@[simp] theorem calls_pure (a : α) : (pure a : Traced α).calls = [] := rfl

@[simp] theorem calls_bind (t : Traced α) (f : α → Traced β) :
    (t >>= f).calls = t.calls ++ (f t.value).calls := by
  rw [calls, events_bind, List.filterMap_append]
  rfl

@[simp] theorem calls_map (f : α → β) (t : Traced α) : (f <$> t).calls = t.calls := by
  rw [← bind_pure_comp, calls_bind, calls_pure, List.append_nil]

@[simp] theorem calls_log (level : LogLevel) (text : String) : (log level text).calls = [] := rfl

@[simp] theorem calls_hook (call : HookCall) : (emit (.hook call)).calls = [call] := rfl

end Traced

namespace Check

variable {α β : Type}

def calls (check : Check α) : List HookCall := check.run.calls

@[simp] theorem calls_pure (a : α) : (pure a : Check α).calls = [] := rfl

@[simp] theorem calls_ofExcept (r : Except Error α) : (ofExcept r).calls = [] := rfl

/-- What follows a failed step calls nothing. -/
theorem calls_bind (x : Check α) (f : α → Check β) : (x >>= f).calls =
    x.calls ++ match x.result with
      | .ok a => (f a).calls
      | .error _ => [] := by
  unfold calls result
  rw [ExceptT.run_bind, Traced.calls_bind]
  cases x.run.value with
  | ok a => rfl
  | error e => rfl

theorem calls_bind_ok {x : Check α} {a : α} (h : x.result = .ok a) (f : α → Check β) :
    (x >>= f).calls = x.calls ++ (f a).calls := by
  rw [calls_bind, h]

theorem calls_ofExcept_bind {r : Except Error α} {a : α} (h : r = .ok a) (f : α → Check β) :
    (ofExcept r >>= f).calls = (f a).calls := by
  rw [h]
  rfl

@[simp] theorem calls_map (f : α → β) (x : Check α) : (f <$> x).calls = x.calls := by
  rw [← bind_pure_comp, calls_bind]
  cases x.result with
  | ok a => exact List.append_nil _
  | error e => exact List.append_nil _

theorem report_calls (activity : String) (check : Check α) :
    (report activity check).calls = check.calls := by
  unfold report calls
  rw [Traced.calls_bind]
  cases check.run.value with
  | ok a => simp
  | error e => simp

end Check

theorem Session.setup_calls (s : Session) (settings : Settings) (uri : String)
    (store : Oscore.Store) : (s.setup settings uri store).calls = [] := by
  unfold setup
  split
  · rfl
  · split
    · split <;> rfl
    · rfl

namespace Engine

variable (e : Engine) (sequence : Bytes)

theorem settle_calls (handle : e.sessions.Handle) (material : Material) :
    (e.settle handle material).calls = [] := by
  rw [settle, Traced.calls_bind, Session.setup_calls]
  rfl

section Hooks

variable (slot : Ead.Slot) (ead : List Value)

/-- A hook is not called for nothing. -/
theorem preVerify_calls : (e.preVerify slot ead).calls =
    if ead.isEmpty then [] else [.preVerify slot ead] := by
  unfold preVerify
  by_cases hempty : ead.isEmpty
  · simp [hempty]
  · simp only [hempty, Bool.false_eq_true, if_false]
    cases e.endpoint.hooks.preVerify slot ead <;> rfl

theorem postVerify_calls (idCred : Value) : (e.postVerify slot idCred ead).calls =
    if ead.isEmpty then [] else [.postVerify slot idCred ead] := by
  unfold postVerify
  by_cases hempty : ead.isEmpty
  · simp [hempty]
  · simp only [hempty, Bool.false_eq_true, if_false]
    cases e.endpoint.hooks.postVerify slot idCred ead <;> rfl

end Hooks

/-- Reading a message calls the hooks of its check. -/
theorem readMessage2_calls : (e.readMessage2 sequence).calls = (e.check2 sequence).calls := by
  rw [readMessage2, Traced.calls_bind, Check.report_calls]
  cases (Check.report "Reading EDHOC Message 2" (e.check2 sequence)).value with
  | none => simp
  | some found =>
    obtain ⟨handle, material⟩ := found
    cases h : (e.sessions.get handle).role <;> simp [h]

theorem readMessage3_calls : (e.readMessage3 sequence).calls = (e.check3 sequence).calls := by
  rw [readMessage3, Traced.calls_bind, Check.report_calls]
  cases (Check.report "Reading EDHOC Message 3" (e.check3 sequence)).value with
  | none => simp
  | some found =>
    obtain ⟨handle, material⟩ := found
    cases h : (e.sessions.get handle).role <;> simp [h, settle_calls]

end Engine

end EdhocLab
