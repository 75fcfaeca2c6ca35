import EdhocLab.Cbor.Decode
import EdhocLab.Cbor.Proper
import EdhocLab.Settings

/-! # Combined payloads

The payload of a request that carries message 3 together with a protected payload.  In each of the
two layouts, `split` takes apart what `join` puts together.
-/
namespace EdhocLab.Transport.Combined

open Cbor (Value)

structure Parts where
  ciphertext3 : Bytes
  oscorePayload : Bytes
  deriving DecidableEq, Repr

/-- Why a payload is not a combined one. -/
inductive SplitError
  | cbor (error : Cbor.Error)
  | itemTypes
  | itemCount (count : Nat)
  | noMessage3
  | noOscorePayload
  deriving DecidableEq, Repr

def SplitError.message : SplitError → String
  | cbor error => "Combined payload: " ++ error.message
  | itemTypes => "Combined payload with items of invalid type"
  | itemCount count => "Combined payload with " ++ toString count ++ " items"
  | noMessage3 => "Invalid EDHOC message 3 in combined payload"
  | noOscorePayload => "No OSCORE payload in combined payload"

/-- The parts of a sequence of two byte strings. -/
def splitSequence (payload : Bytes) : Except SplitError Parts := do
  match ← (Cbor.decodeSequence payload).mapError SplitError.cbor with
  | [.bytes ciphertext3, .bytes oscorePayload] => return { ciphertext3, oscorePayload }
  | [_, _] => throw .itemTypes
  | items => throw (.itemCount items.length)

/-- The parts of a byte string with something behind it. -/
def splitLeading (payload : Bytes) : Except SplitError Parts := do
  match ← (Cbor.decodeFirst payload).mapError SplitError.cbor with
  | some (.bytes ciphertext3, rest) =>
    if rest.isEmpty then throw .noOscorePayload
    return { ciphertext3, oscorePayload := rest }
  | _ => throw .noMessage3

def split : CombinedLayout → Bytes → Except SplitError Parts
  | .v06 => splitSequence
  | .v07 => splitLeading

/-- Why a combined payload cannot be built. -/
inductive JoinError
  /-- The payload is longer than what is sent in one piece. -/
  | oversize (size max : Nat)
  /-- There is no third ciphertext where it is expected. -/
  | invalidMessage3
  | emptyOscorePayload
  | cbor (error : Cbor.Error)
  deriving DecidableEq, Repr

def JoinError.message : JoinError → String
  | oversize size max =>
    "The payload of the EDHOC+OSCORE request is exceeding MAX_UNFRAGMENTED_SIZE (" ++
      toString size ++ " > " ++ toString max ++ ")"
  | invalidMessage3 => "No EDHOC message 3 in the stored sequence"
  | emptyOscorePayload => "No OSCORE payload to combine with message 3"
  | cbor error => error.message

/-- The third ciphertext of a sequence that may start with a connection identifier. -/
def ciphertext3 (message3 : Bytes) (skipIdentifier : Bool) : Except JoinError Bytes := do
  let items ← (Cbor.decodeSequence message3).mapError JoinError.cbor
  match items[if skipIdentifier then 1 else 0]?.bind Value.bytes? with
  | some ciphertext => return ciphertext
  | none => throw .invalidMessage3

def encoded (items : List Value) : Except JoinError Bytes :=
  (Cbor.encodeSequence items).mapError JoinError.cbor

def join (layout : CombinedLayout) (message3 : Bytes) (skipIdentifier : Bool)
    (oscorePayload : Bytes) (maxSize : Nat) : Except JoinError Bytes := do
  let ciphertext := Value.bytes (← ciphertext3 message3 skipIdentifier)
  let payload ← match layout with
    | .v06 => encoded [ciphertext, .bytes oscorePayload]
    | .v07 =>
      if oscorePayload.isEmpty then throw .emptyOscorePayload
      pure ((← encoded [ciphertext]) ++ oscorePayload)
  if payload.length > maxSize then throw (.oversize payload.length maxSize)
  return payload

end EdhocLab.Transport.Combined
