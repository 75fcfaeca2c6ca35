import EdhocLab.Ead.Item
import EdhocLab.Engine.SessionTable
import EdhocLab.Handshake.Items
import EdhocLab.Transport.Exchange

/-! # Engines

One party of the handshake with its sessions, installed contexts, recorded exchanges and source of
keys.  Every operation is a function from an engine to a result and the engine after it.
-/
namespace EdhocLab

open Cbor (Value)

structure Engine where
  settings : Settings
  endpoint : Endpoint
  /-- The profile of the resource that handshakes run on. -/
  profile : AppProfile
  sessions : SessionTable
  /-- The connection identifiers that are reserved. -/
  used : Bytes → Bool
  contexts : Oscore.Store
  exchanger : Transport.Exchanger
  entropy : Entropy

/-- A check that may fail, with the events until then. -/
abbrev Check (α : Type) := ExceptT Handshake.Error Traced α

namespace Check

variable {α : Type}

def ofExcept (result : Except Handshake.Error α) : Check α := ExceptT.mk (pure result)

/-- Runs a check and logs why it fails. -/
def report (activity : String) (check : Check α) : Traced (Option α) := do
  match ← check.run with
  | .ok a => return some a
  | .error e => do
    Traced.log .error (activity ++ ": " ++ e.message)
    return none

end Check

namespace Engine

def current (e : Engine) : Session := e.sessions.currentSession

def setCurrent (e : Engine) (s : Session) : Engine :=
  { e with sessions := e.sessions.set e.sessions.currentHandle s }

/-- Reserves a connection identifier. -/
def markUsed (e : Engine) (id : Bytes) : Engine :=
  { e with used := fun other => other == id || e.used other }

/-- Reserves every connection identifier of a length. -/
def markAllUsed (e : Engine) (length : Nat) : Engine :=
  { e with used := fun other => other.length == length || e.used other }

/-- How the items of authorization data are laid out. -/
def eadConvention (e : Engine) : Ead.Convention :=
  if e.settings.version.paddedPlaintext then .forcedPairs else .optionalValue

/-- A new session of placeholders, whose context is installed without counting as set up. -/
def startSession (settings : Settings) (endpoint : Endpoint) (role : Role) (method : UInt8)
    (connectionId : Bytes) (peerSuites : List Int) (contexts : Oscore.Store) (entropy : Entropy) :
    Traced (Session × Oscore.Store × Entropy) := do
  let (material, entropy) :=
    Material.fresh endpoint role method connectionId peerSuites entropy
  let s : Session := { role, material, oscoreReady := false, derivations := 0 }
  let (s, contexts) ← s.setupPlaceholder settings endpoint.oscoreUri contexts
  return (s, contexts, entropy)

/-- An engine with one session under its own and possibly the forced identifier; the former and
the empty identifier are reserved. -/
def create (settings : Settings) (endpoint : Endpoint) (entropy : Entropy) : Check Engine := do
  let some profile := endpoint.profile? settings.edhocUri | throw .unknownProfile
  let role := if settings.isInitiator then Role.initiator else .responder
  let (s, contexts, entropy) ←
    startSession settings endpoint role settings.method settings.connectionId [] [] entropy
  let sessions := SessionTable.single s
  let sessions := sessions.register settings.connectionId sessions.currentHandle
  let sessions := match settings.forcedRecipientId with
    | some id => sessions.register id sessions.currentHandle
    | none => sessions
  let e : Engine := {
    settings, endpoint, profile, sessions, used := fun _ => false, contexts
    exchanger := .empty, entropy }
  return (e.markUsed []).markUsed settings.connectionId

/-- Installs the context of a session, unless that was done before. -/
def setupOscore (e : Engine) (h : e.sessions.Handle) : Traced Engine := do
  let (s, contexts) ← (e.sessions.get h).setup e.settings e.endpoint.oscoreUri e.contexts
  return { e with sessions := e.sessions.set h s, contexts }

/-- Replaces the material of the current session by placeholders, except for the method, the own
identifier and what is known about the suites of the peer. -/
def reset (e : Engine) : Traced Engine := do
  let s := e.current
  let m := s.material
  let (material, entropy) :=
    Material.fresh e.endpoint s.role m.method m.connectionId m.peerSuites e.entropy
  let s := { s with material := { material with suitesInError := m.suitesInError } }
  let (s, contexts) ← s.setupPlaceholder e.settings e.endpoint.oscoreUri e.contexts
  return { e.setCurrent s with contexts, entropy }

/-- Resets the current session if that is enabled, and otherwise only allows its context to be
installed again. -/
def resetSession (e : Engine) : Traced Engine :=
  if e.settings.sessionReset then e.reset
  else pure (e.setCurrent { e.current with oscoreReady := false })

/-- Whether a connection identifier may be given to a new session with the peer. -/
def isFree (e : Engine) (peerId id : Bytes) : Bool :=
  !e.used id && id != peerId && !e.contexts.hasRecipientId id

/-- The smallest free identifier of one byte, else of two bytes. -/
def freeId? (e : Engine) (peerId : Bytes) : Option Bytes :=
  let find := fun length : Nat =>
    (List.range (256 ^ length)).findSome? fun n =>
      let id := Bytes.ofNatBE length n
      if e.isFree peerId id then some id else none
  find 1 <|> find 2

/-- Reserves a fresh identifier for a session with the peer. -/
def allocate (e : Engine) (peerId : Bytes) : Option Bytes × Engine :=
  match e.freeId? peerId with
  | some id => (some id, e.markUsed id)
  | none => (none, e)

/-- The items to send with a message. -/
def produceEad (e : Engine) (slot : Ead.Slot) : Check (List Value) := do
  Traced.emit (.hook (.produce slot))
  match e.endpoint.hooks.produce slot with
  | .ok items => return items
  | .error reason => throw (.authorization reason)

/-- The supported items at the end of a message or plaintext. -/
def acceptEad (e : Engine) (items : List Value) : Except Handshake.Error (List Value) :=
  match Ead.accept e.eadConvention e.endpoint.eadLabels items with
  | some ead => .ok ead
  | none => .error (.malformed .authorizationData)

/-- Lets the application check received items before the peer is authenticated. -/
def preVerify (e : Engine) (slot : Ead.Slot) (ead : List Value) : Check Unit := do
  if ead.isEmpty then return
  Traced.emit (.hook (.preVerify slot ead))
  match e.endpoint.hooks.preVerify slot ead with
  | .ok () => return
  | .error reason => throw (.authorization reason)

/-- Lets the application check received items once the peer is authenticated. -/
def postVerify (e : Engine) (slot : Ead.Slot) (idCred : Value) (ead : List Value) : Check Unit := do
  if ead.isEmpty then return
  Traced.emit (.hook (.postVerify slot idCred ead))
  match e.endpoint.hooks.postVerify slot idCred ead with
  | .ok () => return
  | .error reason => throw (.authorization reason)

/-- The connection identifier in front of a message that is sent as a request. -/
def prepended (e : Engine) (field : Handshake.Field) (id : Bytes) :
    Except Handshake.Error (List Value) :=
  if e.settings.prependsOnSend then (Handshake.identifierValue field id).map fun v => [v]
  else .ok []

/-- The session that a received message is for: that of the identifier in front of it, or that of
the current session if there is none. -/
def addressed (e : Engine) (field : Handshake.Field) (items : List Value) :
    Except Handshake.Error (e.sessions.Handle × List Value) := do
  let (id, items) ←
    if e.settings.prependsOnReceive then do
      let (v, rest) ← Handshake.next field items
      pure (← Handshake.identifierOf field v, rest)
    else pure (e.current.material.connectionId, items)
  match e.sessions.find? id with
  | some h => return (h, items)
  | none => throw .unknownSession

/-- The identity of the peer from how it was sent.  The own identities may be refused. -/
def peerOf (e : Engine) (element : Value) (refuseOwn : Bool) : Except Handshake.Error Peer := do
  match element with
  | .bytes _ | .integer _ | .map _ => pure ()
  | _ => throw (.malformed (.wrongType .idCred))
  let some idCred := Cose.ofElement? element | throw (.invalidIdentifier .idCred)
  let some peer := e.endpoint.peer? idCred | throw .unknownIdentity
  if refuseOwn && e.endpoint.isOwnIdCred idCred then throw .ownIdentity
  return peer

end Engine

namespace Material

open Handshake (Error KeySchedule.th2 KeySchedule.prk2e)

def ownCredential (m : Material) : Except Error OwnCredential :=
  match m.credential with
  | some credential => .ok credential
  | none => .error .missingCredential

/-- The secret shared by two keys on the curve of the suite. -/
def agree (m : Material) (own : KeyPair) (peer : PublicKey) : Except Error Bytes :=
  if own.curve = m.suite.dhCurve ∧ peer.curve = m.suite.dhCurve then
    (own.exchange peer).mapError Error.key
  else .error (.key .mismatch)

/-- The secret with the static key of the party that authenticates with one: the owner combines it
with the ephemeral key of the peer, the other party its ephemeral key with the static one. -/
def staticSecret (m : Material) (isOwner signs : Bool) (peerLongTerm peerEphemeral : PublicKey) :
    Except Error (Option Bytes) :=
  if signs then .ok none
  else do
    let secret ←
      if isOwner then do m.agree (← m.ownCredential).key peerEphemeral
      else m.agree m.ephemeralKey peerLongTerm
    return some secret

/-- The transcript hash and the key of the second message. -/
def secrets2 (m : Material) (version : Version) (gY : Bytes) (cR : Option Value)
    (peerEphemeral : PublicKey) : Except Error (Bytes × Bytes) := do
  let th2 ← KeySchedule.th2 gY cR m.hashMessage1
  let gXY ← m.agree m.ephemeralKey peerEphemeral
  return (th2, KeySchedule.prk2e (if version.bareTranscript then [] else th2) gXY)

end Material

end EdhocLab
