import EdhocLab.Engine.Basic

/-! # The second message

Ephemeral key, identity and proof of the Responder, masked by a key stream.
-/
namespace EdhocLab.Engine

open Cbor (Value)
open Handshake

/-- What is settled before the authorization data of the message. -/
structure Draft2 where
  prepended : List Value
  gY : Bytes
  cR : Value
  th2 : Bytes
  prk2e : Bytes
  prk3e2m : Bytes
  credential : OwnCredential

def draft2 (e : Engine) : Except Error Draft2 := do
  let s := e.current
  let m := s.material
  let version := e.settings.version
  let prepended ← e.prepended .cI m.peerConnectionId
  let gY := m.ephemeralKey.publicKey.toBytes
  let cR ← identifierValue .cR m.connectionId
  let (th2, prk2e) ← m.secrets2 version gY
    (if version.outerResponderId then some cR else none) m.peerEphemeralKey
  let gRX ← m.staticSecret (s.role == .responder) (responderSigns m.method) m.peer.longTermKey
    m.peerEphemeralKey
  let prk3e2m ← KeySchedule.prk3e2m prk2e th2 gRX
  let credential ← m.ownCredential
  return { prepended, gY, cR, th2, prk2e, prk3e2m, credential }

/-- What a party proves itself with in a message: the MAC and the data that is signed with it. -/
def proofInput (prk : Bytes) (label : Label) (signs : Bool) (suite : Suite) (idCred : Value)
    (th cred : Bytes) (ead : List Value) : Except Error (Bytes × Bytes) := do
  let mac ← KeySchedule.mac prk label.number idCred th cred ead (KeySchedule.macLength signs suite)
  return (mac, ← KeySchedule.externalData th cred ead)

/-- The proof of the owner of a credential. -/
def prove (prk : Bytes) (label : Label) (signs : Bool) (suite : Suite)
    (credential : OwnCredential) (th : Bytes) (ead : List Value) : Except Error Bytes := do
  let (mac, external) ← proofInput prk label signs suite credential.idCred th credential.cred ead
  KeySchedule.signatureOrMac signs suite mac credential.idCred external credential.key

/-- Checks the proof of a peer. -/
def checkProof (prk : Bytes) (label : Label) (signs : Bool) (suite : Suite) (peer : Peer)
    (th : Bytes) (ead : List Value) (received : Bytes) : Except Error Unit := do
  let (mac, external) ← proofInput prk label signs suite peer.idCred th peer.cred ead
  KeySchedule.verifySignatureOrMac signs suite received mac peer.idCred external peer.key

/-- How the identity of a credential is sent. -/
def identityElement (field : Field) (credential : OwnCredential) : Except Error Value :=
  match Cose.toElement? credential.idCred with
  | some element => .ok element
  | none => .error (.invalidIdentifier field)

/-- The message and what it establishes. -/
def finish2 (e : Engine) (d : Draft2) (ead : List Value) : Except Error (Bytes × Phase2) := do
  let m := e.current.material
  let outer := e.settings.version.outerResponderId
  let proof ← prove d.prk3e2m .mac2 (responderSigns m.method) m.suite d.credential d.th2 ead
  let idCredR ← identityElement .idCredR d.credential
  let inner := if outer then [] else [d.cR]
  let plaintext2 ← KeySchedule.encodeItems (inner ++ [idCredR, .bytes proof] ++ ead)
  let keystream ← KeySchedule.keystream2 d.prk2e d.th2 plaintext2.length
  let masked := d.gY ++ Bytes.xor plaintext2 keystream
  let message ← KeySchedule.encodeItems
    (d.prepended ++ [.bytes masked] ++ if outer then [d.cR] else [])
  return (message, { th2 := d.th2, plaintext2, prk2e := d.prk2e, prk3e2m := d.prk3e2m })

def build2 (e : Engine) : Check (Bytes × Phase2) := do
  let d ← Check.ofExcept e.draft2
  let ead ← e.produceEad .message2
  Check.ofExcept (e.finish2 d ead)

/-- Builds the message.  A Responder keeps what it establishes. -/
def writeMessage2 (e : Engine) : Traced (Option Bytes × Engine) := do
  match ← Check.report "Writing EDHOC Message 2" e.build2 with
  | none => return (none, e)
  | some (message, phase2) =>
    let s := e.current
    match s.role with
    | .initiator => return (some message, e)
    | .responder =>
      return (some message, e.setCurrent { s with material := { s.material with phase2 } })

/-- A received message before the key stream is removed. -/
structure Masked2 (e : Engine) where
  handle : e.sessions.Handle
  gY : Bytes
  ciphertext2 : Bytes
  outerCR : Option Value

def parse2 (e : Engine) (sequence : Bytes) : Except Error (Masked2 e) := do
  let items ← decodeItems sequence
  let (handle, items) ← e.addressed .cI items
  let (masked, items) ← nextBytes .gYCiphertext2 items
  if masked.length ≤ Key.byteLength then throw (.malformed .shortCiphertext2)
  let (outerCR, items) ←
    if e.settings.version.outerResponderId then do
      let (v, rest) ← next .cR items
      pure (some v, rest)
    else pure (none, items)
  expectEnd (.trailingItems 2) items
  return {
    handle, gY := masked.take Key.byteLength
    ciphertext2 := masked.drop Key.byteLength, outerCR }

/-- A received message without its mask. -/
structure Opened2 where
  peerEphemeralKey : PublicKey
  th2 : Bytes
  prk2e : Bytes
  plaintext2 : Bytes
  cR : Bytes
  proof : Bytes
  ead : List Value
  peer : Peer

/-- Removes the mask with the keys of the session. -/
def unmask2 (e : Engine) (m : Material) (gY ciphertext2 : Bytes) (outerCR : Option Value) :
    Except Error (PublicKey × Bytes × Bytes × Bytes) := do
  let peerEphemeralKey ← (PublicKey.ofEphemeral m.suite.dhCurve gY).mapError Error.key
  let (th2, prk2e) ← m.secrets2 e.settings.version gY outerCR peerEphemeralKey
  let keystream ← KeySchedule.keystream2 prk2e th2 ciphertext2.length
  return (peerEphemeralKey, th2, prk2e, Bytes.xor ciphertext2 keystream)

def open2 (e : Engine) (m : Material) (gY ciphertext2 : Bytes) (outerCR : Option Value) :
    Except Error Opened2 := do
  let (peerEphemeralKey, th2, prk2e, plaintext2) ← e.unmask2 m gY ciphertext2 outerCR
  let fields ← decodeItems plaintext2
  if fields.isEmpty then throw (.malformed (.emptyPlaintext 2))
  let fields := skipPadding e.settings.version.paddedPlaintext fields
  let (cR, fields) ← match outerCR with
    | some cR => pure (cR, fields)
    | none => next .cR fields
  let cR ← identifierOf .cR cR
  if e.profile.useOscore && cR == m.connectionId then throw (.malformed .equalIdentifiers)
  let (idCredR, fields) ← next .idCredR fields
  let (proof, fields) ← nextBytes .signatureOrMac2 fields
  let ead ← e.acceptEad fields
  let peer ← e.peerOf idCredR true
  return { peerEphemeralKey, th2, prk2e, plaintext2, cR, proof, ead, peer }

/-- The last key of the message, once the proof of the Responder is checked with it. -/
def verify2 (s : Session) (o : Opened2) : Except Error Bytes := do
  let m := s.material
  let signs := responderSigns m.method
  let gRX ← m.staticSecret (s.role == .responder) signs o.peer.key o.peerEphemeralKey
  let prk3e2m ← KeySchedule.prk3e2m o.prk2e o.th2 gRX
  checkProof prk3e2m .mac2 signs m.suite o.peer o.th2 o.ead o.proof
  return prk3e2m

/-- The material of an Initiator after an accepted message. -/
def learn2 (m : Material) (o : Opened2) (prk3e2m : Bytes) : Material :=
  { m with
    peerConnectionId := o.cR
    peer := { idCred := o.peer.idCred, cred := o.peer.cred, longTermKey := o.peer.key }
    peerEphemeralKey := o.peerEphemeralKey
    phase2 := { th2 := o.th2, plaintext2 := o.plaintext2, prk2e := o.prk2e, prk3e2m } }

def check2 (e : Engine) (sequence : Bytes) : Check (e.sessions.Handle × Material) := do
  let masked ← Check.ofExcept (e.parse2 sequence)
  let s := e.sessions.get masked.handle
  let o ← Check.ofExcept (e.open2 s.material masked.gY masked.ciphertext2 masked.outerCR)
  e.preVerify .message2 o.ead
  let prk3e2m ← Check.ofExcept (verify2 s o)
  e.postVerify .message2 o.peer.idCred o.ead
  return (masked.handle, learn2 s.material o prk3e2m)

/-- Reads the message and tells whether it is accepted.  An Initiator keeps what it learns. -/
def readMessage2 (e : Engine) (sequence : Bytes) : Traced (Bool × Engine) := do
  match ← Check.report "Reading EDHOC Message 2" (e.check2 sequence) with
  | none => return (false, e)
  | some (h, material) =>
    let s := e.sessions.get h
    match s.role with
    | .responder => return (true, e)
    | .initiator => return (true, { e with sessions := e.sessions.set h { s with material } })

end EdhocLab.Engine
