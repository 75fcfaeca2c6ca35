import EdhocLab.Engine.Basic

/-! # The fourth message

An optional message that only carries encrypted authorization data.  No session changes with it.
-/
namespace EdhocLab.Engine

open Cbor (Value)
open Handshake

/-- The key and nonce of the message. -/
def keyAndIv4 (m : Material) : Except Error (Bytes × Bytes) :=
  KeySchedule.keyAndIv m.suite m.phase3.prk4e3m Label.k4.number Label.iv4.number m.phase3.th4

def finish4 (m : Material) (prepended ead : List Value) : Except Error Bytes := do
  let plaintext4 ← KeySchedule.encodeItems ead
  let (key, iv) ← keyAndIv4 m
  let ciphertext4 ← KeySchedule.encrypt m.suite key iv m.phase3.th4 plaintext4
  KeySchedule.encodeItems (prepended ++ [.bytes ciphertext4])

def build4 (e : Engine) : Check Bytes := do
  let m := e.current.material
  let prepended ← Check.ofExcept (e.prepended .cI m.peerConnectionId)
  let ead ← e.produceEad .message4
  Check.ofExcept (finish4 m prepended ead)

/-- Builds the message. -/
def writeMessage4 (e : Engine) : Traced (Option Bytes × Engine) := do
  return (← Check.report "Writing EDHOC Message 4" e.build4, e)

/-- The authorization data of a received message. -/
def open4 (e : Engine) (sequence : Bytes) : Except Error (List Value) := do
  let items ← decodeItems sequence
  let (h, items) ← e.addressed .cI items
  let (ciphertext4, items) ← nextBytes .ciphertext4 items
  expectEnd (.trailingItems 4) items
  let m := (e.sessions.get h).material
  let (key, iv) ← keyAndIv4 m
  let plaintext4 ← KeySchedule.decrypt m.suite key iv m.phase3.th4 ciphertext4
  let fields ← decodeItems plaintext4
  e.acceptEad (skipPadding e.settings.version.paddedPlaintext fields)

def check4 (e : Engine) (sequence : Bytes) : Check Unit := do
  let ead ← Check.ofExcept (e.open4 sequence)
  e.preVerify .message4 ead

/-- Reads the message and tells whether it is accepted. -/
def readMessage4 (e : Engine) (sequence : Bytes) : Traced (Bool × Engine) := do
  return ((← Check.report "Reading EDHOC Message 4" (e.check4 sequence)).isSome, e)

end EdhocLab.Engine
