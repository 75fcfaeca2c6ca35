import EdhocLab.Engine.Basic
import EdhocLab.Proofs.Outcome

/-! # Results of checks

A check is reasoned about through its result alone.  The events on the way never decide what
happens next, so that a check with hooks and log records comes to a plain `Except`.
-/
namespace EdhocLab

open Handshake

namespace Check

variable {α β : Type}

/-- What a check comes to, without the events on the way. -/
def result (check : Check α) : Except Error α := check.run.value

@[simp] theorem result_pure (a : α) : (pure a : Check α).result = .ok a := rfl

@[simp] theorem result_bind (x : Check α) (f : α → Check β) :
    (x >>= f).result = x.result >>= fun a => (f a).result := by
  unfold result
  rw [ExceptT.run_bind, Traced.value_bind]
  cases x.run.value with
  | ok a => rfl
  | error e => rfl

theorem result_bind_eq_ok {x : Check α} {f : α → Check β} {b : β} :
    (x >>= f).result = .ok b ↔ ∃ a, x.result = .ok a ∧ (f a).result = .ok b := by
  rw [result_bind]
  exact bind_eq_ok

@[simp] theorem result_ofExcept (r : Except Error α) : (ofExcept r).result = r := rfl

@[simp] theorem result_throw (e : Error) : (throw e : Check α).result = .error e := rfl

@[simp] theorem result_lift (t : Traced α) : (liftM t : Check α).result = .ok t.value := rfl

@[simp] theorem result_map (f : α → β) (x : Check α) : (f <$> x).result = x.result.map f := by
  rw [← bind_pure_comp, result_bind]
  cases x.result with
  | ok a => rfl
  | error e => rfl

theorem report_value (activity : String) (check : Check α) :
    (report activity check).value = check.result.toOption := by
  unfold report result
  rw [Traced.value_bind]
  cases check.run.value with
  | ok a => rfl
  | error e => rfl

end Check

namespace Engine

variable (e : Engine) (slot : Ead.Slot) (ead : List Cbor.Value)

theorem produceEad_result :
    (e.produceEad slot).result = (e.endpoint.hooks.produce slot).mapError Error.authorization := by
  unfold produceEad
  cases e.endpoint.hooks.produce slot with
  | ok items => simp [Except.map]
  | error reason => simp

theorem produceEad_result_eq_ok :
    (e.produceEad slot).result = .ok ead ↔ e.endpoint.hooks.produce slot = .ok ead := by
  rw [produceEad_result]
  exact mapError_eq_ok

theorem preVerify_result : (e.preVerify slot ead).result =
    if ead.isEmpty then .ok ()
    else (e.endpoint.hooks.preVerify slot ead).mapError Error.authorization := by
  unfold preVerify
  by_cases hempty : ead.isEmpty
  · simp [hempty]
  · cases e.endpoint.hooks.preVerify slot ead with
    | ok _ => simp [hempty]
    | error reason => simp [hempty]

variable {e slot ead} in
/-- Only the application decides. -/
theorem preVerify_result_congr {e' : Engine} (h : e'.endpoint = e.endpoint) :
    (e'.preVerify slot ead).result = (e.preVerify slot ead).result := by
  rw [preVerify_result, preVerify_result, h]

theorem postVerify_result (idCred : Cbor.Value) : (e.postVerify slot idCred ead).result =
    if ead.isEmpty then .ok ()
    else (e.endpoint.hooks.postVerify slot idCred ead).mapError Error.authorization := by
  unfold postVerify
  by_cases hempty : ead.isEmpty
  · simp [hempty]
  · cases e.endpoint.hooks.postVerify slot idCred ead with
    | ok _ => simp [hempty]
    | error reason => simp [hempty]

variable {e slot ead} in
theorem postVerify_result_congr {e' : Engine} (h : e'.endpoint = e.endpoint) (idCred : Cbor.Value) :
    (e'.postVerify slot idCred ead).result = (e.postVerify slot idCred ead).result := by
  rw [postVerify_result, postVerify_result, h]

end Engine

end EdhocLab
