import EdhocLab.Curve.Ed25519
import EdhocLab.Curve.P256
import EdhocLab.Curve.X25519

/-! # Keys

Key pairs and public keys on the three curves, with the operations that a cipher suite asks of
them.  A key pair carries its public key together with the proof that it belongs to the secret.
-/
namespace EdhocLab

inductive Curve
  | x25519
  | ed25519
  | p256
  deriving DecidableEq, Repr

def Curve.name : Curve → String
  | x25519 => "x25519"
  | ed25519 => "ed25519"
  | p256 => "p256"

namespace Key

/-- Why an operation on keys failed. -/
inductive Error
  /-- The key is on another curve than the operation needs. -/
  | mismatch
  /-- The bytes are no key. -/
  | invalid
  /-- The signature is not one of the message. -/
  | notVerified
  deriving DecidableEq, Repr

def Error.message : Error → String
  | mismatch => "Key doesn't match the expected curve or usage"
  | invalid => "Invalid key material"
  | notVerified => "Signature_or_MAC is not valid"

end Key

/-- The length of every private key and of every public key as it is sent. -/
def Key.byteLength : Nat := 32

inductive PublicKey
  | x25519 (u : Bytes) (length_u : u.length = Key.byteLength)
  | ed25519 (encoded : Bytes) (length_encoded : encoded.length = Key.byteLength)
  | p256 (point : Curve.P256.Point)
  deriving DecidableEq

namespace PublicKey

def curve : PublicKey → Curve
  | x25519 .. => .x25519
  | ed25519 .. => .ed25519
  | p256 _ => .p256

/-- The key as it is sent, which is the `x` coordinate on P-256. -/
def toBytes : PublicKey → Bytes
  | x25519 u _ => u
  | ed25519 encoded _ => encoded
  | p256 point => Bytes.ofNatBE Key.byteLength point.x

/-- The `y` coordinate of a key on P-256. -/
def yBytes? : PublicKey → Option Bytes
  | p256 point => some (Bytes.ofNatBE Key.byteLength point.y)
  | _ => none

@[simp] theorem length_toBytes (key : PublicKey) : key.toBytes.length = Key.byteLength := by
  cases key with
  | x25519 u hu => exact hu
  | ed25519 encoded he => exact he
  | p256 point => simp [toBytes]

/-- The key of a peer from how it was sent; on P-256 the point with even `y` coordinate. -/
def ofEphemeral (curve : Curve) (bytes : Bytes) : Except Key.Error PublicKey :=
  if h : bytes.length = Key.byteLength then
    match curve with
    | .x25519 => .ok (.x25519 bytes h)
    | .p256 =>
      match Curve.P256.decode (2 :: bytes) with
      | some point => .ok (.p256 point)
      | none => .error .invalid
    | .ed25519 => .error .mismatch
  else .error .invalid

/-- The key with the given bytes, a SEC1 encoding on P-256. -/
def ofBytes (curve : Curve) (bytes : Bytes) : Except Key.Error PublicKey :=
  match curve with
  | .x25519 => if h : bytes.length = Key.byteLength then .ok (.x25519 bytes h) else .error .invalid
  | .ed25519 =>
    if h : bytes.length = Key.byteLength ∧ (Curve.Ed25519.decode bytes).isSome then
      .ok (.ed25519 bytes h.1)
    else .error .invalid
  | .p256 =>
    match Curve.P256.decode bytes with
    | some point => .ok (.p256 point)
    | none => .error .invalid

/-- Checks that the signature is one of the message. -/
def verify (key : PublicKey) (message signature : Bytes) : Except Key.Error Unit :=
  match key with
  | x25519 .. => .error .mismatch
  | ed25519 encoded _ =>
    if Curve.Ed25519.verify encoded message signature then .ok () else .error .notVerified
  | p256 point =>
    if Curve.P256.verify point message signature then .ok () else .error .notVerified

end PublicKey

inductive SecretKey
  | x25519 (secret : Bytes)
  | ed25519 (seed : Bytes)
  | p256 (scalar : Curve.P256.Scalar)
  deriving DecidableEq

namespace SecretKey

def ofBytes? (curve : Curve) (bytes : Bytes) : Option SecretKey :=
  if bytes.length ≠ Key.byteLength then none
  else match curve with
    | .x25519 => some (.x25519 bytes)
    | .ed25519 => some (.ed25519 bytes)
    | .p256 => (Curve.P256.scalar? bytes).map .p256

def publicKey? : SecretKey → Option PublicKey
  | x25519 secret =>
    some (.x25519 (Curve.X25519.publicKey secret) (Curve.X25519.length_publicKey secret))
  | ed25519 seed =>
    some (.ed25519 (Curve.Ed25519.publicKey seed) (Curve.Ed25519.length_publicKey seed))
  | p256 scalar => (Curve.P256.publicPoint scalar).map .p256

end SecretKey

structure KeyPair where
  secret : SecretKey
  publicKey : PublicKey
  derived : secret.publicKey? = some publicKey
  deriving DecidableEq

namespace KeyPair

def ofSecret? (secret : SecretKey) : Option KeyPair :=
  match h : secret.publicKey? with
  | some publicKey => some { secret, publicKey, derived := h }
  | none => none

/-- The key pair of a private key. -/
def ofPrivate? (curve : Curve) (bytes : Bytes) : Option KeyPair :=
  (SecretKey.ofBytes? curve bytes).bind ofSecret?

def ofPrivate (curve : Curve) (bytes : Bytes) : Except Key.Error KeyPair :=
  match ofPrivate? curve bytes with
  | some pair => .ok pair
  | none => .error .invalid

def curve (pair : KeyPair) : Curve := pair.publicKey.curve

/-- The secret shared with the owner of a public key on the same curve. -/
def exchange (pair : KeyPair) (peer : PublicKey) : Except Key.Error Bytes :=
  match pair.secret, peer with
  | .x25519 secret, .x25519 u _ => .ok (Curve.X25519.exchange secret u)
  | .p256 scalar, .p256 point => .ok (Curve.P256.exchange scalar point)
  | _, _ => .error .mismatch

/-- The signature of a message. -/
def sign (pair : KeyPair) (message : Bytes) : Except Key.Error Bytes :=
  match pair.secret with
  | .x25519 _ => .error .mismatch
  | .ed25519 seed => .ok (Curve.Ed25519.sign seed pair.publicKey.toBytes message)
  | .p256 scalar => .ok (Curve.P256.sign scalar message)

end KeyPair

end EdhocLab
