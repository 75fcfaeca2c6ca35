import EdhocLab.Cbor.Value

/-! # Application hooks for external authorization data

An application decides what is sent with each message and may refuse what was received, before
and after the peer is authenticated.
-/
namespace EdhocLab.Ead

open Cbor (Value)

/-- The message that carries the items. -/
inductive Slot
  | message1
  | message2
  | message3
  | message4
  deriving DecidableEq, Repr

def Slot.number : Slot → Nat
  | message1 => 1
  | message2 => 2
  | message3 => 3
  | message4 => 4

/-- A hook that answers with an error refuses the message, with the error as the reason. -/
structure Hooks where
  /-- The items to send with a message. -/
  produce : Slot → Except String (List Value)
  /-- The check before the peer is authenticated. -/
  preVerify : Slot → List Value → Except String Unit
  /-- The check after the peer with the given identity was authenticated. -/
  postVerify : Slot → Value → List Value → Except String Unit

/-- Sends the given items and accepts everything. -/
def Hooks.sending (items : Slot → List Value) : Hooks where
  produce slot := .ok (items slot)
  preVerify _ _ := .ok ()
  postVerify _ _ _ := .ok ()

/-- Sends nothing and accepts everything. -/
def Hooks.silent : Hooks := .sending fun _ => []

end EdhocLab.Ead
