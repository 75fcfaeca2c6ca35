import EdhocLab.Cbor.Decode
import EdhocLab.Cbor.Identifier
import EdhocLab.Handshake.KeySchedule

/-! # Elements of messages

Messages are read one element after the other.  Each of these functions names the element that is
missing or has a wrong type.
-/
namespace EdhocLab.Handshake

open Cbor (Value)

/-- The items that the bytes are the encodings of. -/
def decodeItems (bs : Bytes) : Except Error (List Value) :=
  (Cbor.decodeSequence bs).mapError Error.cbor

/-- The next element and those after it. -/
def next (field : Field) : List Value → Except Error (Value × List Value)
  | v :: rest => .ok (v, rest)
  | [] => .error (.malformed (.missing field))

/-- The content of an element that has to be a byte string. -/
def bytesOf (field : Field) (v : Value) : Except Error Bytes :=
  match v.bytes? with
  | some b => .ok b
  | none => .error (.malformed (.wrongType field))

/-- The number in an element that has to be a small integer. -/
def intOf (field : Field) (v : Value) : Except Error Int :=
  match v.int64? with
  | some n => .ok n
  | none => .error (.malformed (.wrongType field))

/-- The next element, which has to be a byte string. -/
def nextBytes (field : Field) (items : List Value) : Except Error (Bytes × List Value) := do
  let (v, rest) ← next field items
  return (← bytesOf field v, rest)

/-- The connection identifier in an element. -/
def identifierOf (field : Field) (v : Value) : Except Error Bytes :=
  match Cbor.Identifier.ofValue? v with
  | some id => .ok id
  | none => .error (.invalidIdentifier field)

/-- How a connection identifier is sent. -/
def identifierValue (field : Field) (id : Bytes) : Except Error Value :=
  match Cbor.Identifier.toValue? id with
  | some v => .ok v
  | none => .error (.invalidIdentifier field)

/-- Fails if elements are left. -/
def expectEnd (defect : Defect) : List Value → Except Error Unit
  | [] => .ok ()
  | _ :: _ => .error (.malformed defect)

/-- The elements behind the padding, which is only skipped where plaintexts are padded. -/
def skipPadding (padded : Bool) (items : List Value) : List Value :=
  if padded then items.dropWhile (· == .bool true) else items

end EdhocLab.Handshake
