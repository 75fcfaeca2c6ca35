import EdhocLab.Engine.Endpoint
import EdhocLab.Key.Generate
import EdhocLab.Oscore.Store
import EdhocLab.Trace

/-! # Sessions

The handshake material of one session and the security context that derives from it.  Material
that is not known yet is held by placeholders, so that every message can be built at any time.
-/
namespace EdhocLab

open Cbor (Value)

/-- The identity of the peer and what is known about it. -/
structure PeerIdentity where
  idCred : Value
  cred : Bytes
  longTermKey : PublicKey
  deriving DecidableEq

/-- What the second message establishes. -/
structure Phase2 where
  th2 : Bytes
  plaintext2 : Bytes
  prk2e : Bytes
  prk3e2m : Bytes
  deriving DecidableEq

/-- What the third message establishes. -/
structure Phase3 where
  th3 : Bytes
  prk4e3m : Bytes
  th4 : Bytes
  prkOut : Bytes
  prkExporter : Bytes
  deriving DecidableEq

/-- Stands for handshake material that is not known yet. -/
def placeholder : Bytes := [1]

def Phase2.placeholder : Phase2 :=
  { th2 := EdhocLab.placeholder, plaintext2 := EdhocLab.placeholder
    prk2e := EdhocLab.placeholder, prk3e2m := EdhocLab.placeholder }

def Phase3.placeholder : Phase3 :=
  { th3 := EdhocLab.placeholder, prk4e3m := EdhocLab.placeholder, th4 := EdhocLab.placeholder
    prkOut := EdhocLab.placeholder, prkExporter := EdhocLab.placeholder }

/-- The handshake material of a session. -/
structure Material where
  method : UInt8
  connectionId : Bytes
  peerConnectionId : Bytes
  suite : Suite
  /-- The suites that the peer said it supports, in its order. -/
  peerSuites : List Int
  /-- The suites to offer in an error message. -/
  suitesInError : Option Value
  ephemeralKey : KeyPair
  credential : Option OwnCredential
  peerEphemeralKey : PublicKey
  peer : PeerIdentity
  hashMessage1 : Bytes
  phase2 : Phase2
  phase3 : Phase3
  /-- The third message as written, for a combined request. -/
  message3 : Bytes
  deriving DecidableEq

namespace Material

/-- Stands for an identifier of the peer that is not known yet. -/
def unknownId : Bytes := Bytes.zeros 4

/-- Placeholders and own keys only. -/
def fresh (endpoint : Endpoint) (role : Role) (method : UInt8) (connectionId : Bytes)
    (peerSuites : List Int) (entropy : Entropy) : Material × Entropy :=
  let suite := endpoint.preferredSuite
  let (ephemeralKey, entropy) := KeyPair.generate suite.dhCurve entropy
  let credential := endpoint.authCredential role method suite
  let peer : PeerIdentity :=
    { idCred := Cose.kidMap unknownId
      cred := unknownId
      longTermKey := credential.elim ephemeralKey.publicKey fun c => c.key.publicKey }
  ({ method, connectionId, peerConnectionId := unknownId, suite, peerSuites, suitesInError := none
     ephemeralKey, credential, peerEphemeralKey := ephemeralKey.publicKey, peer
     hashMessage1 := placeholder, phase2 := .placeholder, phase3 := .placeholder
     message3 := placeholder }, entropy)

/-- Selects a suite and makes the own keys match it; the ephemeral key is only replaced by one on
another curve. -/
def selectSuite (m : Material) (endpoint : Endpoint) (role : Role) (suite : Suite)
    (entropy : Entropy) : Material × Entropy :=
  let m := { m with suite, credential := endpoint.authCredential role m.method suite }
  if m.ephemeralKey.curve = suite.dhCurve then (m, entropy)
  else
    let (ephemeralKey, entropy) := KeyPair.generate suite.dhCurve entropy
    ({ m with ephemeralKey }, entropy)

/-- Key material for an application. -/
def exporter (m : Material) (label : Int) (context : Bytes) (length : Int) :
    Except Handshake.Error Bytes :=
  Handshake.KeySchedule.exporter m.phase3.prkExporter label context length

end Material

structure Session where
  role : Role
  material : Material
  /-- Whether the context of the current material is installed. -/
  oscoreReady : Bool
  /-- How many contexts were derived, placeholders included. -/
  derivations : Nat
  deriving DecidableEq

namespace Session

/-- The forced sender identifier or the connection identifier of the peer. -/
def senderId (settings : Settings) (m : Material) : Bytes :=
  settings.forcedSenderId.getD m.peerConnectionId

/-- The forced recipient identifier or the own connection identifier. -/
def recipientId (settings : Settings) (m : Material) : Bytes :=
  settings.forcedRecipientId.getD m.connectionId

/-- The security context of the material. -/
def context (settings : Settings) (m : Material) : Except Handshake.Error Oscore.Context := do
  let algorithm := m.suite.appAead
  let secret ← m.exporter 0 [] algorithm.keyLength
  let salt ← m.exporter 1 [] 8
  let context ← (Oscore.Context.derive algorithm secret salt (senderId settings m)
    (recipientId settings m)).mapError Handshake.Error.oscore
  return (context.withWindow settings.replayWindow).withMaxUnfragmentedSize
    settings.maxUnfragmentedSize

/-- Installs the context of the current material, unless that was done before. -/
def setup (s : Session) (settings : Settings) (uri : String) (store : Oscore.Store) :
    Traced (Session × Oscore.Store) :=
  if s.oscoreReady then pure (s, store)
  else
    match context settings s.material with
    | .ok context => do
      if senderId settings s.material = recipientId settings s.material then
        Traced.log .warn
          "The Sender ID will be equal to the Recipient ID in this OSCORE Security Context"
      return ({ s with oscoreReady := true, derivations := s.derivations + 1 },
        store.insert uri context)
    | .error e => do
      Traced.log .error ("Error when setting up the OSCORE Security Context: " ++ e.message)
      return ({ s with derivations := s.derivations + 1 }, store)

/-- Installs the context of placeholder material, which does not count as set up. -/
def setupPlaceholder (s : Session) (settings : Settings) (uri : String) (store : Oscore.Store) :
    Traced (Session × Oscore.Store) := do
  let (s, store) ← { s with oscoreReady := false }.setup settings uri store
  return ({ s with oscoreReady := false }, store)

end Session

end EdhocLab
