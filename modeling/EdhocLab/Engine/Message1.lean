import EdhocLab.Engine.Basic
import EdhocLab.Handshake.Negotiation

/-! # The first message

Method, suites, ephemeral key and identifier of the Initiator.  A Responder that accepts the
message starts a session of its own for it.
-/
namespace EdhocLab.Engine

open Cbor (Value)
open Handshake

/-- What is settled before the ephemeral key of the message. -/
structure Offer1 where
  suite : Suite
  suitesI : Value
  cI : Value
  ead : List Value

def offer1 (e : Engine) : Check Offer1 := do
  let m := e.current.material
  let (suite, suitesI) ← Check.ofExcept (Negotiation.negotiate e.endpoint.suites m.peerSuites)
  let cI ← Check.ofExcept (identifierValue .cI m.connectionId)
  let ead ← e.produceEad .message1
  return { suite, suitesI, cI, ead }

/-- Selects a suite for the current session. -/
def selectSuite (e : Engine) (role : Role) (suite : Suite) : Engine :=
  let s := e.current
  let (material, entropy) := s.material.selectSuite e.endpoint role suite e.entropy
  { e.setCurrent { s with material } with entropy }

/-- The elements of the message, without what is in front of it in a request. -/
def elements1 (m : Material) (offer : Offer1) : List Value :=
  [.integer m.method.toNat, offer.suitesI, .bytes m.ephemeralKey.publicKey.toBytes, offer.cI] ++
    offer.ead

/-- Builds the message.  The session keeps the suite and its keys, and an Initiator the hash. -/
def writeMessage1 (e : Engine) : Traced (Option Bytes × Engine) := do
  match ← Check.report "Writing EDHOC Message 1" e.offer1 with
  | none => return (none, e)
  | some offer =>
    let e := e.selectSuite e.current.role offer.suite
    let m := e.current.material
    let leading := if e.settings.prependsOnSend then [Value.bool true] else []
    let message := KeySchedule.encodeItems (leading ++ elements1 m offer)
    match ← Check.report "Writing EDHOC Message 1" (.ofExcept message) with
    | none => return (none, e)
    | some message =>
      match e.current.role with
      | .responder => return (some message, e)
      | .initiator =>
        let hashMessage1 := KeySchedule.hash (message.drop leading.length)
        return (some message,
          e.setCurrent { e.current with material := { m with hashMessage1 } })

/-- What a received message holds. -/
structure Received1 where
  method : UInt8
  selection : Negotiation.Selection
  gX : Bytes
  cI : Bytes
  /-- What the hash of the message covers. -/
  hashed : Bytes

/-- Whether a request starts with `true`, and the elements after that. -/
def leading1 (e : Engine) (items : List Value) : Except Error (List Value) := do
  if e.settings.prependsOnReceive then
    let (v, rest) ← next .leadingTrue items
    if v = .bool true then return rest
    throw (.malformed .noLeadingTrue)
  return items

/-- The method of the message, which the profile has to allow. -/
def method1 (e : Engine) (v : Value) : Except Error UInt8 := do
  let method ← intOf .method v
  if e.profile.allows method then return UInt8.ofNat method.toNat
  throw (.unsupportedMethod method)

/-- The elements of a received message and its authorization data. -/
def parse1 (e : Engine) (sequence : Bytes) : Except Error (Received1 × List Value) := do
  let items ← decodeItems sequence
  if items.isEmpty then throw (.malformed .emptyMessage1)
  let items ← e.leading1 items
  let (method, items) ← next .method items
  let method ← e.method1 method
  let (suitesI, items) ← next .suitesI items
  let selection ← Negotiation.checkSuites suitesI e.endpoint.suiteIds
  let (gX, items) ← nextBytes .gX items
  let (cI, items) ← next .cI items
  let cI ← identifierOf .cI cI
  let ead ← e.acceptEad items
  let hashed := if e.settings.prependsOnReceive then sequence.drop 1 else sequence
  return ({ method, selection, gX, cI, hashed }, ead)

/-- What a Responder starts a session with. -/
structure Accepted1 where
  received : Received1
  suite : Suite
  peerEphemeralKey : PublicKey
  connectionId : Bytes

/-- The suite, the key of the peer and the identifier of a new session.  A suite without support
is answered on the preferred one. -/
def answer1 (e : Engine) (received : Received1) : Check Accepted1 := do
  let selected := received.selection.selected
  let suite ← match e.endpoint.suites.find? fun suite => suite.id == selected with
    | some suite => pure suite
    | none => do
      Traced.log .warn ("Unsupported cipher suite " ++ toString selected ++ " selected")
      pure e.endpoint.preferredSuite
  let curve := ((Suite.ofId? selected).getD suite).dhCurve
  let peerEphemeralKey ←
    Check.ofExcept ((PublicKey.ofEphemeral curve received.gX).mapError Error.key)
  let some connectionId := e.freeId? received.cI | throw .noConnectionId
  return { received, suite, peerEphemeralKey, connectionId }

/-- Checks a received message.  An Initiator accepts it without starting a session. -/
def check1 (e : Engine) (sequence : Bytes) : Check (Option Accepted1) := do
  let (received, ead) ← Check.ofExcept (e.parse1 sequence)
  e.preVerify .message1 ead
  match e.current.role with
  | .initiator => return none
  | .responder => return some (← e.answer1 received)

/-- Starts the session for an accepted message and makes it the current one. -/
def accept1 (e : Engine) (a : Accepted1) : Traced Engine := do
  let (s, contexts, entropy) ← startSession e.settings e.endpoint .responder a.received.method
    a.connectionId e.current.material.peerSuites e.contexts e.entropy
  let (m, entropy) := s.material.selectSuite e.endpoint .responder a.suite entropy
  let material := { m with
    peerConnectionId := a.received.cI
    peerEphemeralKey := a.peerEphemeralKey
    hashMessage1 := KeySchedule.hash a.received.hashed
    suitesInError := a.received.selection.offer }
  let e := e.markUsed a.connectionId
  return { e with
    sessions := e.sessions.add a.connectionId { s with material }
    contexts, entropy }

/-- Reads the message and tells whether it is accepted. -/
def readMessage1 (e : Engine) (sequence : Bytes) : Traced (Bool × Engine) := do
  match ← Check.report "Reading EDHOC Message 1" (e.check1 sequence) with
  | none => return (false, e)
  | some none => return (true, e)
  | some (some accepted) => return (true, ← e.accept1 accepted)

end EdhocLab.Engine
