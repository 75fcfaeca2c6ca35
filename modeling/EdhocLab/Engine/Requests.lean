import EdhocLab.Engine.Message3
import EdhocLab.Transport.Combined

/-! # Requests and responses

What happens to the messages of the CoAP stack that pass an engine: message 3 is combined with an
outgoing protected request, an incoming combined request is split again, and every exchange is
recorded.
-/
namespace EdhocLab.Engine

open Cbor (Value)
open Coap (Packet)
open Transport (Combined.JoinError Exchange)

/-- The option that marks a combined request. -/
def edhocOption : Nat := 21

def hasEdhoc (packet : Packet) : Bool := (packet.option? edhocOption).isSome

def hasOscore (packet : Packet) : Bool := (packet.option? Oscore.optionNumber).isSome

/-- The exchange of a message. -/
def exchangeOf (packet : Packet) : Exchange :=
  { Exchange.ofMessageId packet.messageId with
    hasOscore := hasOscore packet, hasEdhoc := hasOscore packet && hasEdhoc packet }

/-- Records a message as a draft for a resource to complete. -/
def recordRequest (e : Engine) (packet : Packet) : Traced Engine := do
  return { e with exchanger := ← e.exchanger.offerDraft (exchangeOf packet) }

/-- Records an exchange that is finished. -/
def recordReceived (e : Engine) (exchange : Exchange) : Traced Engine := do
  return { e with exchanger := ← e.exchanger.offerReceived exchange }

/-- Why an outgoing combined request is held back. -/
inductive HeldBack
  | noContext (uri : String)
  | noSession
  | inconsistentIds
  deriving DecidableEq, Repr

def HeldBack.message : HeldBack → String
  | noContext uri => "No OSCORE context for " ++ uri
  | noSession => "Unable to retrieve the EDHOC session"
  | inconsistentIds =>
    "Inconsistent OSCORE recipient ids between OSCORE context and retrieved EDHOC session"

/-- The message 3 to send with a request that is protected for the URI, and the context for it. -/
def pendingMessage3 (e : Engine) (uri : String) : Except HeldBack (Bytes × Oscore.Context) := do
  let some context := e.contexts.get? uri | throw (.noContext uri)
  let some h := e.sessions.find? context.recipientId | throw .noSession
  let m := (e.sessions.get h).material
  if Session.recipientId e.settings m ≠ context.recipientId then throw .inconsistentIds
  return (m.message3, context)

/-- Handles an outgoing request.  A combined one gets its payload; the result tells whether it is
sent at all. -/
def sendRequest (e : Engine) (uri : String) (packet : Packet) :
    Traced (Except Combined.JoinError (Bool × Packet)) := do
  if !(hasEdhoc packet && hasOscore packet) then return .ok (true, packet)
  match e.pendingMessage3 uri with
  | .error reason => do
    Traced.log .error reason.message
    return .ok (false, packet)
  | .ok (message3, context) =>
    match Transport.Combined.join e.settings.combinedLayout message3 e.settings.prependsOnSend
        packet.payload context.maxUnfragmentedSize with
    | .ok payload => return .ok (true, { packet with payload })
    | .error error => do
      Traced.log .error error.message
      return .error error

/-- Handles an outgoing response.  One to a request that never reached a resource is held back,
and its exchange is recorded as failed. -/
def sendResponse (e : Engine) (messageId : UInt16) : Traced (Bool × Engine) := do
  let (removed, exchanger) := e.exchanger.removeDraft messageId
  if removed then
    return (false, ← { e with exchanger }.recordReceived (.failed messageId))
  return (true, e)

/-- Why an incoming combined request is dropped before its message 3 is read. -/
inductive Dropped
  | noOscoreOption
  | payload (error : Transport.Combined.SplitError)
  | noKid
  | message3 (error : Cbor.Error)
  | noSession
  deriving DecidableEq, Repr

def Dropped.messages : Dropped → List String
  | noOscoreOption => ["Received a request with the EDHOC option but without the OSCORE option"]
  | payload error => [error.message, "Could not split received combined message"]
  | noKid => ["No kid in the OSCORE option"]
  | message3 error => ["Rebuilding message 3: " ++ error.message]
  | noSession => ["Unable to retrieve the EDHOC session"]

/-- Message 3 and the protected payload of a combined request. -/
def splitRequest (e : Engine) (packet : Packet) : Except Dropped (Bytes × Bytes) := do
  let some option := packet.option? Oscore.optionNumber | throw .noOscoreOption
  let parts ←
    (Transport.Combined.split e.settings.combinedLayout packet.payload).mapError Dropped.payload
  let some kid := (Oscore.OptionValue.decode option).kid | throw .noKid
  let leading := if e.settings.prependsOnReceive then (Cbor.Identifier.toValue? kid).toList else []
  let message3 ← (Cbor.encodeSequence (leading ++ [.bytes parts.ciphertext3])).mapError
    Dropped.message3
  if (e.sessions.find? kid).isNone then throw .noSession
  return (message3, parts.oscorePayload)

/-- Handles an incoming request.  Of a combined one only the protected payload continues, once its
message 3 is accepted; the result tells whether it continues at all. -/
def receiveRequest (e : Engine) (packet : Packet) : Traced (Bool × Packet × Engine) := do
  if !hasEdhoc packet then return (true, packet, ← e.recordRequest packet)
  match e.splitRequest packet with
  | .error reason => do
    reason.messages.forM (Traced.log .error)
    return (false, packet, e)
  | .ok (message3, oscorePayload) =>
    let packet := { packet with payload := oscorePayload }
    let (accepted, e) ← e.readMessage3 message3
    if accepted then return (true, packet, ← e.recordRequest packet)
    return (false, packet, ← e.recordReceived (.failed packet.messageId))

/-- Handles an incoming response, which is recorded right away. -/
def receiveResponse (e : Engine) (packet : Packet) : Traced (Bool × Engine) := do
  return (true, ← e.recordReceived (exchangeOf packet))

end EdhocLab.Engine
