import EdhocLab.Cose.Structure
import EdhocLab.Ead.Hooks
import EdhocLab.Handshake.KeySchedule
import EdhocLab.Settings

/-! # Endpoints

What a party knows about itself and its peers before a handshake: credentials, cipher suites,
application profiles and hooks.
-/
namespace EdhocLab

open Cbor (Value)

/-- The part of a party in the handshake. -/
inductive Role
  | initiator
  | responder
  deriving DecidableEq, Repr

/-- What an authentication key is used for. -/
inductive KeyUsage
  | signature
  | ecdh
  deriving DecidableEq, Repr

/-- A key to authenticate with, and how it is identified and described. -/
structure OwnCredential where
  key : KeyPair
  /-- The header map that identifies the credential. -/
  idCred : Value
  /-- The encoded credential. -/
  cred : Bytes
  deriving DecidableEq

/-- The credential of a raw public key with a key identifier. -/
def OwnCredential.ofKid (key : KeyPair) (kid : Bytes) : OwnCredential :=
  { key, idCred := Cose.kidMap kid, cred := Cose.encodeKey key.publicKey }

/-- A peer that is accepted. -/
structure Peer where
  idCred : Value
  key : PublicKey
  cred : Bytes
  deriving DecidableEq

structure Endpoint where
  preferredSuite : Suite
  /-- The other suites by descending preference. -/
  otherSuites : List Suite
  own : List ((KeyUsage × Curve) × OwnCredential)
  peers : List Peer
  /-- The supported labels of authorization data, ascending and without sign. -/
  eadLabels : List Int
  profiles : List (String × AppProfile)
  hooks : Ead.Hooks
  /-- The resource that contexts are installed for. -/
  oscoreUri : String

namespace Endpoint

/-- An endpoint without credentials, which needs at least one suite. -/
def create (suites : List Suite) (oscoreUri : String) : Except Handshake.Error Endpoint :=
  match suites with
  | [] => .error .unsupportedSuite
  | preferredSuite :: otherSuites =>
    .ok { preferredSuite, otherSuites, own := [], peers := [], eadLabels := [], profiles := [],
          hooks := .silent, oscoreUri }

/-- The suites by descending preference. -/
def suites (endpoint : Endpoint) : List Suite := endpoint.preferredSuite :: endpoint.otherSuites

def suiteIds (endpoint : Endpoint) : List Int := endpoint.suites.map Suite.id

/-- Adds a credential in place of one with the same usage on the same curve. -/
def addOwn (endpoint : Endpoint) (usage : KeyUsage) (credential : OwnCredential) : Endpoint :=
  let slot := (usage, credential.key.curve)
  { endpoint with own := (slot, credential) :: endpoint.own.filter fun entry => entry.1 != slot }

/-- Adds a peer in place of one with the same identity. -/
def addPeer (endpoint : Endpoint) (peer : Peer) : Endpoint :=
  { endpoint with peers := peer :: endpoint.peers.filter fun p => !p.idCred.isSame peer.idCred }

def addProfile (endpoint : Endpoint) (uri : String) (profile : AppProfile) : Endpoint :=
  { endpoint with profiles := (uri, profile) :: endpoint.profiles }

def setEadLabels (endpoint : Endpoint) (labels : List Int) : Endpoint :=
  { endpoint with eadLabels := Ascending.ofList labels }

def profile? (endpoint : Endpoint) (uri : String) : Option AppProfile := endpoint.profiles.lookup uri

/-- Whether a party signs under a method. -/
def signs (role : Role) (method : UInt8) : Bool :=
  match role with
  | .initiator => Handshake.initiatorSigns method
  | .responder => Handshake.responderSigns method

/-- The credential that a party authenticates with: its signature key or its static key on the
curve of the suite. -/
def authCredential (endpoint : Endpoint) (role : Role) (method : UInt8) (suite : Suite) :
    Option OwnCredential :=
  endpoint.own.lookup
    (if signs role method then (.signature, suite.signatureCurve) else (.ecdh, suite.dhCurve))

/-- Whether the header map identifies one of the own credentials. -/
def isOwnIdCred (endpoint : Endpoint) (idCred : Value) : Bool :=
  endpoint.own.any fun entry => entry.2.idCred.isSame idCred

/-- The peer with the identity, which it is given with the header map as that is asked for. -/
def peer? (endpoint : Endpoint) (idCred : Value) : Option Peer :=
  (endpoint.peers.find? fun peer => peer.idCred.isSame idCred).map fun peer => { peer with idCred }

end Endpoint

end EdhocLab
