import EdhocLab.Bytes

/-! # CoAP packets

The message format of RFC 7252.  A packet keeps its first byte as it was received; its options are
listed by ascending number, in the order of their occurrence within one number.
-/
namespace EdhocLab.Coap

/-- Why bytes are no packet, or a packet cannot be sent. -/
inductive Error
  | invalidHeader
  | invalidPacketLength
  | invalidTokenLength
  | invalidOptionDelta
  | invalidOptionLength
  deriving DecidableEq, Repr

def Error.message : Error → String
  | invalidHeader => "InvalidHeader"
  | invalidPacketLength => "InvalidPacketLength"
  | invalidTokenLength => "InvalidTokenLength"
  | invalidOptionDelta => "InvalidOptionDelta"
  | invalidOptionLength => "InvalidOptionLength"

structure Field where
  number : Nat
  value : Bytes
  deriving DecidableEq, Repr

structure Packet where
  /-- Version, type and token length. -/
  first : UInt8
  code : UInt8
  messageId : UInt16
  token : Bytes
  options : List Field
  payload : Bytes
  deriving DecidableEq, Repr

/-- A delta or length from its nibble, with the bytes after its extension. -/
def readExtension (reserved : Error) (nibble : Nat) (bs : Bytes) : Except Error (Nat × Bytes) :=
  if nibble < 13 then .ok (nibble, bs)
  else if nibble = 13 then
    match bs with
    | b :: rest => .ok (b.toNat + 13, rest)
    | [] => .error .invalidOptionLength
  else if nibble = 14 then
    match bs with
    | b :: c :: rest => .ok (b.toNat * 256 + c.toNat + 269, rest)
    | _ => .error .invalidOptionLength
  else .error reserved

/-- The option after one with the given number, and the bytes after it. -/
def readField (number : Nat) (first : UInt8) (bs : Bytes) : Except Error (Field × Bytes) := do
  let (delta, bs) ← readExtension .invalidOptionDelta (first.toNat / 16) bs
  let (length, bs) ← readExtension .invalidOptionLength (first.toNat % 16) bs
  if bs.length < length then throw .invalidOptionLength
  return ({ number := number + delta, value := bs.take length }, bs.drop length)

/-- Options up to the payload marker or the end, at most `limit` of them, and the payload. -/
def readFields : (limit number : Nat) → Bytes → Except Error (List Field × Bytes)
  | _, _, [] => .ok ([], [])
  | _, _, 0xff :: payload => .ok ([], payload)
  | 0, _, _ => .error .invalidOptionLength
  | limit + 1, number, first :: bs => do
    let (field, rest) ← readField number first bs
    let (fields, payload) ← readFields limit field.number rest
    return (field :: fields, payload)

/-- A delta or length as a nibble and its extension. -/
def extension (n : Nat) : Nat × Bytes :=
  if n < 13 then (n, [])
  else if n < 269 then (13, Bytes.ofNatBE 1 (n - 13))
  else (14, Bytes.ofNatBE 2 (n - 269))

def writeField (number : Nat) (field : Field) : Bytes :=
  let (delta, deltaBytes) := extension (field.number - number)
  let (length, lengthBytes) := extension field.value.length
  UInt8.ofNat (delta * 16 + length) :: deltaBytes ++ lengthBytes ++ field.value

/-- The options after one with the given number. -/
def writeFields : (number : Nat) → List Field → Bytes
  | _, [] => []
  | number, field :: fields => writeField number field ++ writeFields field.number fields

namespace Packet

/-- The longest packet that is sent. -/
def maxLength : Nat := 1280

/-- A packet without token, options and payload. -/
def empty : Packet :=
  { first := 0x40, code := 0, messageId := 0, token := [], options := [], payload := [] }

def ofBytes (bs : Bytes) : Except Error Packet :=
  match bs with
  | first :: code :: high :: low :: rest => do
    let tokenLength := first.toNat % 16
    if 8 < tokenLength ∨ rest.length < tokenLength then throw .invalidTokenLength
    let (options, payload) ← readFields rest.length 0 (rest.drop tokenLength)
    return {
      first, code, messageId := UInt16.ofNat (high.toNat * 256 + low.toNat)
      token := rest.take tokenLength, options, payload }
  | _ => .error .invalidHeader

/-- The marker and the payload; an empty payload has no marker, and the payload of a message
without a code is lost. -/
def writePayload (packet : Packet) : Bytes :=
  if packet.payload.isEmpty || packet.code == 0 then [] else 0xff :: packet.payload

def toBytes (packet : Packet) : Except Error Bytes :=
  let options := writeFields 0 packet.options
  let marker := if packet.code ≠ 0 ∧ packet.payload ≠ [] then 1 else 0
  let length := 4 + packet.token.length + options.length + packet.payload.length + marker
  if length > maxLength then .error .invalidPacketLength
  else .ok (packet.first :: packet.code :: Bytes.ofNatBE 2 packet.messageId.toNat ++ packet.token ++
    options ++ packet.writePayload)

/-- The first value of the option with the given number. -/
def option? (packet : Packet) (number : Nat) : Option Bytes :=
  (packet.options.find? (·.number == number)).map (·.value)

/-- Places an option behind those with numbers up to its own. -/
def insertField (field : Field) : List Field → List Field
  | [] => [field]
  | f :: fs => if f.number ≤ field.number then f :: insertField field fs else field :: f :: fs

/-- Adds the options of `fields`, each behind those with numbers up to its own. -/
def insertFields (options fields : List Field) : List Field :=
  fields.foldl (fun options field => insertField field options) options

end Packet

/-- The codes that stand for a response. -/
def responseCodes : List UInt8 :=
  [0x41, 0x42, 0x43, 0x44, 0x45, 0x5f, 0x80, 0x81, 0x82, 0x83, 0x84, 0x85, 0x86, 0x88, 0x89, 0x8c,
   0x8d, 0x8f, 0x96, 0x9d, 0xa0, 0xa1, 0xa2, 0xa3, 0xa4, 0xa5, 0xa8]

end EdhocLab.Coap
