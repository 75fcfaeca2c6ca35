import EdhocLab.Cbor.Proper
import EdhocLab.Cose.Structure
import EdhocLab.Digest.Hkdf
import EdhocLab.Handshake.Error
import EdhocLab.Suite

/-! # The key schedule

Transcript hashes, pseudorandom keys, MACs and ciphertexts as functions of the values they depend
on.  Nothing here reads or writes a session.
-/
namespace EdhocLab.Handshake

open Cbor (Value)

/-- Labels of the key derivation function. -/
inductive Label
  | keystream2
  | salt3e2m
  | mac2
  | k3
  | iv3
  | salt4e3m
  | mac3
  | prkOut
  | k4
  | iv4
  | prkExporter
  deriving DecidableEq, Repr

def Label.number : Label → Int
  | keystream2 => 0
  | salt3e2m => 1
  | mac2 => 2
  | k3 => 3
  | iv3 => 4
  | salt4e3m => 5
  | mac3 => 6
  | prkOut => 7
  | k4 => 8
  | iv4 => 9
  | prkExporter => 10

/-- Whether the Initiator authenticates with a signature. -/
def initiatorSigns (method : UInt8) : Bool := method == 0 || method == 1

/-- Whether the Responder authenticates with a signature. -/
def responderSigns (method : UInt8) : Bool := method == 0 || method == 2

namespace KeySchedule

def hashLength : Nat := Digest.Hkdf.hashLength

def hash (input : Bytes) : Bytes := Digest.Sha256.digest input

/-- The length of the MAC of a party: a whole hash under a signature, else that of a tag. -/
def macLength (signs : Bool) (suite : Suite) : Nat := if signs then hashLength else suite.macLength

def encodeItem (v : Value) : Except Error Bytes := v.encode?.mapError Error.cbor

def encodeItems (vs : List Value) : Except Error Bytes := (Cbor.encodeSequence vs).mapError Error.cbor

def expand (prk info : Bytes) (length : Nat) : Except Error Bytes :=
  match Digest.Hkdf.expand prk info length with
  | some output => .ok output
  | none => .error .kdfLength

/-- The derivation input: label, context and length as a sequence of items. -/
def info (label : Int) (context : Bytes) (length : Nat) : Bytes :=
  Value.encodeItems [.integer label, .bytes context, .integer length]

/-- The key derivation function of the protocol. -/
def kdf (prk : Bytes) (label : Int) (context : Bytes) (length : Nat) : Except Error Bytes :=
  expand prk (info label context length) length

/-- The input of the second transcript hash; the identifier of the Responder is part of it only
where it is sent in the clear. -/
def th2Input (gY : Bytes) (cR : Option Value) (hashMessage1 : Bytes) : Except Error Bytes := do
  let cR ← match cR with
    | some v => encodeItem v
    | none => pure []
  return Cbor.encodeBytes gY ++ cR ++ Cbor.encodeBytes hashMessage1

def th2 (gY : Bytes) (cR : Option Value) (hashMessage1 : Bytes) : Except Error Bytes :=
  (th2Input gY cR hashMessage1).map hash

/-- The input of the transcript hash after a plaintext. -/
def nextThInput (th plaintext : Bytes) (cred : Option Bytes) : Bytes :=
  Cbor.encodeBytes th ++ plaintext ++ cred.getD []

/-- The transcript hash after a plaintext and the credential that it was authenticated with. -/
def nextTh (th plaintext : Bytes) (cred : Option Bytes) : Bytes :=
  hash (nextThInput th plaintext cred)

def prk2e (salt gXY : Bytes) : Bytes := Digest.Hkdf.extract salt gXY

/-- Mixes the secret of a static key into a pseudorandom key; there is none under a signature. -/
def mix (label : Label) (prk th : Bytes) (secret : Option Bytes) : Except Error Bytes :=
  match secret with
  | none => .ok prk
  | some secret => do
    let salt ← kdf prk label.number th hashLength
    return Digest.Hkdf.extract salt secret

def prk3e2m (prk2e th2 : Bytes) (gRX : Option Bytes) : Except Error Bytes :=
  mix .salt3e2m prk2e th2 gRX

def prk4e3m (prk3e2m th3 : Bytes) (gIY : Option Bytes) : Except Error Bytes :=
  mix .salt4e3m prk3e2m th3 gIY

/-- What a MAC authenticates. -/
def macContext (idCred : Value) (th cred : Bytes) (ead : List Value) : Except Error Bytes := do
  let idCred ← encodeItem idCred
  let ead ← encodeItems ead
  return idCred ++ Cbor.encodeBytes th ++ cred ++ ead

def mac (prk : Bytes) (label : Int) (idCred : Value) (th cred : Bytes) (ead : List Value)
    (length : Nat) : Except Error Bytes := do
  kdf prk label (← macContext idCred th cred ead) length

/-- What is signed besides the identity and the MAC. -/
def externalData (th cred : Bytes) (ead : List Value) : Except Error Bytes := do
  return Cbor.encodeBytes th ++ cred ++ (← encodeItems ead)

/-- What a party proves its identity with: its signature, or the MAC itself. -/
def signatureOrMac (signs : Bool) (suite : Suite) (mac : Bytes) (idCred : Value)
    (externalData : Bytes) (key : KeyPair) : Except Error Bytes :=
  if !signs then .ok mac
  else if key.curve ≠ suite.signatureCurve then .error (.key .mismatch)
  else do
    let idCred ← encodeItem idCred
    (Cose.sign idCred externalData mac key).mapError Error.key

/-- Checks what a party proved its identity with. -/
def verifySignatureOrMac (signs : Bool) (suite : Suite) (received mac : Bytes) (idCred : Value)
    (externalData : Bytes) (key : PublicKey) : Except Error Unit :=
  if !signs then if received = mac then .ok () else .error (.key .notVerified)
  else if key.curve ≠ suite.signatureCurve then .error (.key .mismatch)
  else do
    let idCred ← encodeItem idCred
    (Cose.verify idCred externalData mac key received).mapError Error.key

/-- The key stream for the second plaintext.  What one expansion cannot provide is taken from
further ones, whose labels count downwards. -/
def keystream2 (prk2e th2 : Bytes) (length : Nat) : Except Error Bytes := do
  let part := Digest.Hkdf.maxLength
  let parts ← (List.range ((length + (part - 1)) / part)).mapM fun (i : Nat) =>
    kdf prk2e (Label.keystream2.number - (i : Int)) th2 (min part (length - part * i))
  return parts.flatten

/-- The key and nonce of an encrypted message. -/
def keyAndIv (suite : Suite) (prk : Bytes) (keyLabel ivLabel : Int) (th : Bytes) :
    Except Error (Bytes × Bytes) := do
  let key ← kdf prk keyLabel th suite.aead.keyLength
  let iv ← kdf prk ivLabel th suite.aead.nonceLength
  return (key, iv)

def encrypt (suite : Suite) (key iv th plaintext : Bytes) : Except Error Bytes :=
  (suite.aead.encrypt key iv (Cose.encStructure th) plaintext).mapError Error.aead

def decrypt (suite : Suite) (key iv th ciphertext : Bytes) : Except Error Bytes :=
  (suite.aead.decrypt key iv (Cose.encStructure th) ciphertext).mapError Error.aead

def prkOut (prk4e3m th4 : Bytes) : Except Error Bytes :=
  kdf prk4e3m Label.prkOut.number th4 hashLength

def prkExporter (prkOut : Bytes) : Except Error Bytes :=
  kdf prkOut Label.prkExporter.number [] hashLength

/-- Key material for an application; negative labels and lengths are refused. -/
def exporter (prkExporter : Bytes) (label : Int) (context : Bytes) (length : Int) :
    Except Error Bytes :=
  if label < 0 ∨ length < 0 then .error .kdfLength
  else kdf prkExporter label context length.toNat

end KeySchedule

end EdhocLab.Handshake
