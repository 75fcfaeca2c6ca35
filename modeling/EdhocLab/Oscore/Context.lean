import EdhocLab.Oscore.Derivation
import EdhocLab.Oscore.Nonce
import EdhocLab.Oscore.OptionValue
import EdhocLab.Oscore.ReplayWindow

/-! # Security contexts

A context protects outgoing messages with its sender key and opens incoming ones with its
recipient key.  Options of class U stay readable, the code, all other options and the payload are
encrypted.  Every operation returns its result together with the context after it.
-/
namespace EdhocLab.Oscore

open Coap (Packet)

structure Context where
  algorithm : Aead.Algorithm
  commonIv : Bytes
  senderId : Bytes
  senderKey : Bytes
  /-- The sequence number of the next protected message. -/
  senderSequence : Nat
  recipientId : Bytes
  recipientKey : Bytes
  window : ReplayWindow
  maxUnfragmentedSize : Nat
  deriving DecidableEq

/-- The number of the OSCORE option. -/
def optionNumber : Nat := 9

/-- Options that intermediaries have to read: Uri-Host, Uri-Port, Proxy-Uri and Proxy-Scheme. -/
def isClassU (number : Nat) : Bool := [3, 7, 35, 39].contains number

/-- Options without support: Observe, Block2, Block1, Size2 and Size1. -/
def isUnsupported (number : Nat) : Bool := [6, 23, 27, 28, 60].contains number

/-- The OSCORE option of a message. -/
def optionOf (packet : Packet) : Except Error Bytes :=
  match packet.option? optionNumber with
  | some value => .ok value
  | none => .error .noOption

/-- Fails for the first option without support. -/
def checkOptions (packet : Packet) : Except Error Unit :=
  match packet.options.find? fun field => isUnsupported field.number with
  | some field => .error (.unsupportedOption field.number)
  | none => .ok ()

/-- What is encrypted of a message: its code, options and payload without the rest of a header. -/
def innerBytes (packet : Packet) : Except Error Bytes := do
  let inner := { Packet.empty with
    code := packet.code
    options := packet.options.filter fun field => !isClassU field.number
    payload := packet.payload }
  match inner.toBytes with
  | .ok bytes => .ok (packet.code :: bytes.drop 4)
  | .error e => .error (.coap e)

/-- The code of a protected message, which tells only requests from responses. -/
def outerCode (code : UInt8) : UInt8 := if Coap.responseCodes.contains code then 0x44 else 0x02

/-- The message with its protected part restored from what was encrypted. -/
def restore (outer : Packet) (plaintext : Bytes) : Except Error Bytes :=
  match plaintext with
  | [] => .error .emptyPlaintext
  | code :: rest =>
    match Packet.ofBytes (0x40 :: code :: 0 :: 0 :: rest) with
    | .error e => .error (.coap e)
    | .ok inner =>
      let kept := outer.options.filter fun field =>
        isClassU field.number && (inner.option? field.number).isNone
      let restored := { outer with
        code := inner.code
        options := Packet.insertFields kept inner.options
        payload := inner.payload }
      match restored.toBytes with
      | .ok bytes => .ok bytes
      | .error e => .error (.coap e)

namespace Context

/-- Sizes used unless configured otherwise. -/
def defaultWindow : Nat := 32
def defaultMaxUnfragmentedSize : Nat := 4096

/-- The context of a master secret and salt. -/
def derive (algorithm : Aead.Algorithm) (secret salt senderId recipientId : Bytes) :
    Except Error Context := do
  let key := fun (id : Bytes) (type : String) (length : Nat) =>
    deriveKey secret salt (info id algorithm.coseId type length) length
  let senderKey ← key senderId "Key" algorithm.keyLength
  let recipientKey ← key recipientId "Key" algorithm.keyLength
  let commonIv ← key [] "IV" algorithm.nonceLength
  return {
    algorithm, commonIv, senderId, senderKey, senderSequence := 0, recipientId, recipientKey
    window := .ofSize defaultWindow, maxUnfragmentedSize := defaultMaxUnfragmentedSize }

/-- The context with a new replay window of the given size. -/
def withWindow (context : Context) (size : Nat) : Context :=
  { context with window := .ofSize size }

def withMaxUnfragmentedSize (context : Context) (size : Nat) : Context :=
  { context with maxUnfragmentedSize := size }

/-- The partial IV of the next protected message. -/
def nextPiv (context : Context) : Bytes := formatPiv context.senderSequence

def advance (context : Context) : Context :=
  { context with senderSequence := context.senderSequence + 1 }

/-- The protected message with the given OSCORE option. -/
def protect (context : Context) (message aad nonce : Bytes) (option : OptionValue) :
    Except Error Bytes := do
  let packet ← (Packet.ofBytes message).mapError Error.coap
  checkOptions packet
  let plaintext ← innerBytes packet
  let payload ← (context.algorithm.encrypt context.senderKey nonce aad plaintext).mapError
    Error.aead
  let outer := { packet with
    code := outerCode packet.code
    options := Packet.insertField { number := optionNumber, value := option.encode }
      (packet.options.filter fun field => isClassU field.number)
    payload }
  outer.toBytes.mapError Error.coap

/-- Protects a request; its sequence number is used up even if that fails. -/
def protectRequest (context : Context) (message : Bytes) : Except Error Bytes × Context :=
  let piv := context.nextPiv
  let id := context.senderId
  (context.protect message (aad context.algorithm.coseId id piv)
      (nonce piv id context.commonIv) { piv := some piv, kidContext := none, kid := some id },
    context.advance)

/-- The key identifier and partial IV of a protected request. -/
def requestParts (packet : Packet) : Except Error (Bytes × Bytes) := do
  let value := OptionValue.decode (← optionOf packet)
  match value.kid, value.piv with
  | some kid, some piv => .ok (kid, piv)
  | _, _ => .error .noKidPiv

/-- Protects the response to a protected request, with the nonce of the request or one of its
own. -/
def protectResponse (context : Context) (message request : Bytes) (reusePiv : Bool) :
    Except Error Bytes × Context :=
  match (Packet.ofBytes request).mapError Error.coap >>= requestParts with
  | .error e => (.error e, context)
  | .ok (kid, requestPiv) =>
    let aad := aad context.algorithm.coseId kid requestPiv
    if reusePiv then
      (context.protect message aad (nonce requestPiv context.recipientId context.commonIv)
        .empty, context)
    else
      let piv := context.nextPiv
      (context.protect message aad (nonce piv context.senderId context.commonIv)
        { piv := some piv, kidContext := none, kid := none }, context.advance)

/-- The message that a protected one stands for. -/
def unprotect (context : Context) (packet : Packet) (aad nonce : Bytes) :
    Except Error Bytes := do
  checkOptions packet
  let plaintext ← (context.algorithm.decrypt context.recipientKey nonce aad
    packet.payload).mapError Error.aead
  restore packet plaintext

/-- Opens a request; its sequence number is remembered only if everything else succeeded. -/
def unprotectRequest (context : Context) (message : Bytes) : Except Error Bytes × Context :=
  let opened : Except Error (Bytes × Bytes) := do
    let packet ← (Packet.ofBytes message).mapError Error.coap
    let (kid, piv) ← requestParts packet
    let message ← context.unprotect packet (aad context.algorithm.coseId kid piv)
      (nonce piv context.recipientId context.commonIv)
    return (message, piv)
  match opened with
  | .error e => (.error e, context)
  | .ok (message, piv) =>
    match context.window.accept? (pivNumber piv) with
    | some window => (.ok message, { context with window })
    | none => (.error .replayDetected, context)

/-- Opens the response to the request that was protected last. -/
def unprotectResponse (context : Context) (message : Bytes) : Except Error Bytes := do
  let packet ← (Packet.ofBytes message).mapError Error.coap
  let value := OptionValue.decode (← optionOf packet)
  if context.senderSequence = 0 then throw .noKidPiv
  let requestPiv := formatPiv (context.senderSequence - 1)
  let (id, piv) := match value.piv with
    | some piv => (context.recipientId, piv)
    | none => (context.senderId, requestPiv)
  context.unprotect packet (aad context.algorithm.coseId context.senderId requestPiv)
    (nonce piv id context.commonIv)

end Context

end EdhocLab.Oscore
