import EdhocLab.Ead.Hooks

/-! # Traces

What an engine reports besides its results: log records and the calls of application hooks, in
the order in which they happen.  A traced computation is a value with the events of its making,
so that no value depends on earlier events.
-/
namespace EdhocLab

inductive LogLevel
  | error
  | warn
  | info
  deriving DecidableEq, Repr

def LogLevel.name : LogLevel → String
  | error => "error"
  | warn => "warn"
  | info => "info"

/-- A call of a hook, with the items and the identity that it was given. -/
inductive HookCall
  | produce (slot : Ead.Slot)
  | preVerify (slot : Ead.Slot) (items : List Cbor.Value)
  | postVerify (slot : Ead.Slot) (idCred : Cbor.Value) (items : List Cbor.Value)
  deriving DecidableEq

inductive Event
  | log (level : LogLevel) (text : String)
  | hook (call : HookCall)
  deriving DecidableEq

/-- The log record of an event that is one, behind its level. -/
def Event.record? : Event → Option String
  | log level text => some (level.name ++ ": " ++ text)
  | hook _ => none

structure Traced (α : Type) where
  value : α
  events : List Event

namespace Traced

variable {α β : Type}

instance : Monad Traced where
  pure value := { value, events := [] }
  bind x f := { value := (f x.value).value, events := x.events ++ (f x.value).events }

def emit (event : Event) : Traced Unit := { value := (), events := [event] }

def log (level : LogLevel) (text : String) : Traced Unit := emit (.log level text)

@[simp] theorem value_pure (a : α) : (pure a : Traced α).value = a := rfl
@[simp] theorem events_pure (a : α) : (pure a : Traced α).events = [] := rfl
@[simp] theorem value_bind (x : Traced α) (f : α → Traced β) :
    (x >>= f).value = (f x.value).value := rfl
@[simp] theorem events_bind (x : Traced α) (f : α → Traced β) :
    (x >>= f).events = x.events ++ (f x.value).events := rfl

@[ext] theorem ext {x y : Traced α} (hv : x.value = y.value) (he : x.events = y.events) : x = y := by
  cases x; cases y; simp_all

instance : LawfulMonad Traced := .mk' Traced
  (fun x => by ext <;> simp [Functor.map])
  (fun a f => by ext <;> simp)
  (fun x f g => by ext <;> simp)

end Traced

end EdhocLab
