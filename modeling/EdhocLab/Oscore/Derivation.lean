import EdhocLab.Cbor.Encode
import EdhocLab.Digest.Hkdf
import EdhocLab.Oscore.Error

/-! # Derivation of keys and associated data

The inputs of key derivation and authentication are encoded arrays, so that different parts never
share an encoding.
-/
namespace EdhocLab.Oscore

open Cbor (Value)

/-- What a key is derived for: its owner, algorithm, type and length. -/
def info (id : Bytes) (algorithm : Int) (type : String) (length : Nat) : Bytes :=
  (Value.array [.bytes id, .null, .integer algorithm, .text type, .integer length]).encode

/-- A key of the given length. -/
def deriveKey (secret salt info : Bytes) (length : Nat) : Except Error Bytes :=
  match Digest.Hkdf.expand (Digest.Hkdf.extract salt secret) info length with
  | some key => .ok key
  | none => .error .keyLength

/-- The algorithm and the request that a message belongs to. -/
def aadArray (algorithm : Int) (requestKid requestPiv : Bytes) : Bytes :=
  (Value.array [.integer 1, .array [.integer algorithm], .bytes requestKid, .bytes requestPiv,
    .bytes []]).encode

/-- The associated data of a message. -/
def aad (algorithm : Int) (requestKid requestPiv : Bytes) : Bytes :=
  (Value.array [.text "Encrypt0", .bytes [],
    .bytes (aadArray algorithm requestKid requestPiv)]).encode

end EdhocLab.Oscore
