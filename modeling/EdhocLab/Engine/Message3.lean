import EdhocLab.Engine.Message2

/-! # The third message

Identity and proof of the Initiator, encrypted.  With it both parties know the keys of the session
and install its security context.
-/
namespace EdhocLab.Engine

open Cbor (Value)
open Handshake

/-- The credential that a transcript hash covers; older revisions leave it out. -/
def coveredCred (e : Engine) (cred : Bytes) : Option Bytes :=
  if e.settings.version.bareTranscript then none else some cred

/-- The keys that follow from the third plaintext. -/
def phase3 (e : Engine) (th3 prk4e3m plaintext3 credI : Bytes) : Except Error Phase3 := do
  let th4 := KeySchedule.nextTh th3 plaintext3 (e.coveredCred credI)
  let prkOut ← KeySchedule.prkOut prk4e3m th4
  let prkExporter ← KeySchedule.prkExporter prkOut
  return { th3, prk4e3m, th4, prkOut, prkExporter }

/-- What is settled before the authorization data of the message. -/
structure Draft3 where
  prepended : List Value
  th3 : Bytes
  prk4e3m : Bytes
  credential : OwnCredential

def draft3 (e : Engine) : Except Error Draft3 := do
  let s := e.current
  let m := s.material
  let prepended ← e.prepended .cR m.peerConnectionId
  let th3 := KeySchedule.nextTh m.phase2.th2 m.phase2.plaintext2 (e.coveredCred m.peer.cred)
  let gIY ← m.staticSecret (s.role == .initiator) (initiatorSigns m.method) m.peer.longTermKey
    m.peerEphemeralKey
  let prk4e3m ← KeySchedule.prk4e3m m.phase2.prk3e2m th3 gIY
  let credential ← m.ownCredential
  return { prepended, th3, prk4e3m, credential }

/-- The message and what it establishes. -/
def finish3 (e : Engine) (d : Draft3) (ead : List Value) : Except Error (Bytes × Phase3) := do
  let m := e.current.material
  let proof ← prove d.prk4e3m .mac3 (initiatorSigns m.method) m.suite d.credential d.th3 ead
  let idCredI ← identityElement .idCredI d.credential
  let plaintext3 ← KeySchedule.encodeItems ([idCredI, .bytes proof] ++ ead)
  let (key, iv) ← KeySchedule.keyAndIv m.suite m.phase2.prk3e2m Label.k3.number Label.iv3.number
    d.th3
  let ciphertext3 ← KeySchedule.encrypt m.suite key iv d.th3 plaintext3
  let message ← KeySchedule.encodeItems (d.prepended ++ [.bytes ciphertext3])
  return (message, ← e.phase3 d.th3 d.prk4e3m plaintext3 d.credential.cred)

def build3 (e : Engine) : Check (Bytes × Phase3) := do
  let d ← Check.ofExcept e.draft3
  let ead ← e.produceEad .message3
  Check.ofExcept (e.finish3 d ead)

/-- Replaces the material of a session and installs its context. -/
def settle (e : Engine) (h : e.sessions.Handle) (material : Material) : Traced Engine := do
  let s := { e.sessions.get h with material }
  let (s, contexts) ← s.setup e.settings e.endpoint.oscoreUri e.contexts
  return { e with sessions := e.sessions.set h s, contexts }

/-- Builds the message.  An Initiator keeps it with what it establishes and installs its
context. -/
def writeMessage3 (e : Engine) : Traced (Option Bytes × Engine) := do
  match ← Check.report "Writing EDHOC Message 3" e.build3 with
  | none => return (none, e)
  | some (message, phase3) =>
    let s := e.current
    match s.role with
    | .responder => return (some message, e)
    | .initiator =>
      let e ← e.settle e.sessions.currentHandle
        { s.material with phase3, message3 := message }
      return (some message, e)

/-- A received message before it is decrypted. -/
def parse3 (e : Engine) (sequence : Bytes) : Except Error (e.sessions.Handle × Bytes) := do
  let items ← decodeItems sequence
  let (handle, items) ← e.addressed .cR items
  let (ciphertext3, items) ← nextBytes .ciphertext3 items
  expectEnd (.trailingItems 3) items
  return (handle, ciphertext3)

/-- A decrypted message. -/
structure Opened3 where
  th3 : Bytes
  plaintext3 : Bytes
  proof : Bytes
  ead : List Value
  peer : Peer

/-- Decrypts the message with the keys of the session. -/
def decrypt3 (e : Engine) (m : Material) (ciphertext3 : Bytes) : Except Error (Bytes × Bytes) := do
  let credential ← m.ownCredential
  let th3 := KeySchedule.nextTh m.phase2.th2 m.phase2.plaintext2 (e.coveredCred credential.cred)
  let (key, iv) ← KeySchedule.keyAndIv m.suite m.phase2.prk3e2m Label.k3.number Label.iv3.number
    th3
  return (th3, ← KeySchedule.decrypt m.suite key iv th3 ciphertext3)

def open3 (e : Engine) (m : Material) (ciphertext3 : Bytes) : Except Error Opened3 := do
  let (th3, plaintext3) ← e.decrypt3 m ciphertext3
  let fields ← decodeItems plaintext3
  if fields.isEmpty then throw (.malformed (.emptyPlaintext 3))
  let fields := skipPadding e.settings.version.paddedPlaintext fields
  let (idCredI, fields) ← next .idCredI fields
  let (proof, fields) ← nextBytes .signatureOrMac3 fields
  let ead ← e.acceptEad fields
  let peer ← e.peerOf idCredI false
  return { th3, plaintext3, proof, ead, peer }

/-- The last key of the handshake, once the proof of the Initiator is checked with it. -/
def verify3 (s : Session) (o : Opened3) : Except Error Bytes := do
  let m := s.material
  let signs := initiatorSigns m.method
  let gIY ← m.staticSecret (s.role == .initiator) signs o.peer.key m.peerEphemeralKey
  let prk4e3m ← KeySchedule.prk4e3m m.phase2.prk3e2m o.th3 gIY
  checkProof prk4e3m .mac3 signs m.suite o.peer o.th3 o.ead o.proof
  return prk4e3m

/-- The material of a Responder after an accepted message. -/
def learn3 (m : Material) (o : Opened3) (phase3 : Phase3) : Material :=
  { m with
    peer := { idCred := o.peer.idCred, cred := o.peer.cred, longTermKey := o.peer.key }
    phase3 }

def check3 (e : Engine) (sequence : Bytes) : Check (e.sessions.Handle × Material) := do
  let (h, ciphertext3) ← Check.ofExcept (e.parse3 sequence)
  let s := e.sessions.get h
  let o ← Check.ofExcept (e.open3 s.material ciphertext3)
  e.preVerify .message3 o.ead
  let prk4e3m ← Check.ofExcept (verify3 s o)
  e.postVerify .message3 o.peer.idCred o.ead
  let phase3 ← Check.ofExcept (e.phase3 o.th3 prk4e3m o.plaintext3 o.peer.cred)
  return (h, learn3 s.material o phase3)

/-- Reads the message and tells whether it is accepted.  A Responder keeps what it learns and
installs its context. -/
def readMessage3 (e : Engine) (sequence : Bytes) : Traced (Bool × Engine) := do
  match ← Check.report "Reading EDHOC Message 3" (e.check3 sequence) with
  | none => return (false, e)
  | some (h, material) =>
    match (e.sessions.get h).role with
    | .initiator => return (true, e)
    | .responder => return (true, ← e.settle h material)

end EdhocLab.Engine
