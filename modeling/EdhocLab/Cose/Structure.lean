import EdhocLab.Cbor.Identifier
import EdhocLab.Cbor.Proper
import EdhocLab.Key.Basic

/-! # COSE structures

Header maps that identify a credential, the structures that are signed or authenticated, and the
encoding of public keys.
-/
namespace EdhocLab.Cose

open Cbor (Value)

/-- The label of the key identifier in a header map. -/
def kidLabel : Value := .integer 4

/-- The header map with the given key identifier. -/
def kidMap (kid : Bytes) : Value := .map [(kidLabel, .bytes kid)]

/-- The key identifier of a header map. -/
def kidOf? : Value → Option Bytes
  | .map entries => (entries.lookup kidLabel).bind Value.bytes?
  | _ => none

/-- How a header map is sent: one with only a key identifier as that identifier, any other as it
is. -/
def toElement? : Value → Option Value
  | .map [entry] =>
    match kidOf? (.map [entry]) with
    | some kid => Cbor.Identifier.toValue? kid
    | none => some (.map [entry])
  | .map entries => some (.map entries)
  | _ => none

/-- The header map from how it was sent. -/
def ofElement? : Value → Option Value
  | .map entries => some (.map entries)
  | .bytes b => (Cbor.Identifier.ofValue? (.bytes b)).map kidMap
  | .integer n => (Cbor.Identifier.ofValue? (.integer n)).map kidMap
  | _ => none

/-- What is signed: the encoded header map, the external data and the payload. -/
def sigStructure (idCred external payload : Bytes) : Bytes :=
  (Value.array [.text "Signature1", .bytes idCred, .bytes external, .bytes payload]).encode

/-- The associated data of an encrypted message with the given external data. -/
def encStructure (external : Bytes) : Bytes :=
  (Value.array [.text "Encrypt0", .bytes [], .bytes external]).encode

def sign (idCred external payload : Bytes) (pair : KeyPair) : Except Key.Error Bytes :=
  pair.sign (sigStructure idCred external payload)

def verify (idCred external payload : Bytes) (key : PublicKey) (signature : Bytes) :
    Except Key.Error Unit :=
  key.verify (sigStructure idCred external payload) signature

/-- The labels and values of a public key in a row: key type, curve and coordinates. -/
def keyItems (key : PublicKey) : List Value :=
  match key.curve with
  | .p256 => [.integer 1, .integer 2, .integer (-1), .integer 1, .integer (-2), .bytes key.toBytes,
      .integer (-3), .bytes (key.yBytes?.getD [])]
  | curve => [.integer 1, .integer 1, .integer (-1), .integer (if curve = .x25519 then 4 else 6),
      .integer (-2), .bytes key.toBytes]

/-- The encoding of a public key, which is written as an array and turned into a map. -/
def serializeKey (key : PublicKey) : Except Cbor.Error Bytes := do
  Cbor.arrayToMap (← (Value.array (keyItems key)).encode?)

/-- The encoded public key, which serves as a credential. -/
def encodeKey (key : PublicKey) : Bytes := (serializeKey key).toOption.getD []

end EdhocLab.Cose
