import EdhocLab.Engine.Basic

/-! # Classification of messages

A received sequence is told apart by the number and types of its elements alone.
-/
namespace EdhocLab.Engine

open Cbor (Value)

inductive MessageType
  | message1
  /-- Only where the identifier of the Responder is sent outside of the ciphertext. -/
  | message2
  | message2Or3Or4
  | message3Or4
  | errorMessage
  | unknown
  deriving DecidableEq, Repr

def MessageType.name : MessageType → String
  | message1 => "Message1"
  | message2 => "Message2"
  | message2Or3Or4 => "Message2Or3Or4"
  | message3Or4 => "Message3Or4"
  | errorMessage => "ErrorMessage"
  | unknown => "Unknown"

def isInteger : Value → Bool
  | .integer _ => true
  | _ => false

/-- Whether the items look like an error message: a code and its information, in requests behind
an identifier. -/
def isErrorShaped (e : Engine) (items : List Value) : Bool :=
  match items with
  | [a, b] | [a, b, _] =>
    if e.settings.prependsOnReceive then a != .bool true && isInteger b else isInteger a
  | _ => false

/-- The type of a message that is no error message, by the number of its elements. -/
def typeOfLength (outerResponderId : Bool) : Nat → MessageType
  | 4 | 5 => .message1
  | 2 => if outerResponderId then .message2 else .unknown
  | 1 => if outerResponderId then .message3Or4 else .message2Or3Or4
  | _ => .unknown

/-- The type of a received message by its structure. -/
def messageType (e : Engine) (sequence : Bytes) : Traced MessageType := do
  match Cbor.decodeSequence sequence with
  | .error error => do
    Traced.log .error ("MessageType: " ++ error.message)
    return .unknown
  | .ok items =>
    if e.isErrorShaped items then return .errorMessage
    let leading := if e.settings.prependsOnReceive then 1 else 0
    return typeOfLength e.settings.version.outerResponderId (items.length - leading)

end EdhocLab.Engine
