import EdhocLab.Engine.Basic
import EdhocLab.Handshake.Negotiation

/-! # Error messages

A code with a diagnostic text or with the suites to use instead.  The latter are remembered for
the next first message.
-/
namespace EdhocLab.Engine

open Cbor (Value)
open Handshake

/-- The codes of error messages. -/
def successCode : Int := 0
def unspecifiedCode : Int := 1
def wrongSuiteCode : Int := 2

/-- What follows the code. -/
def errorInfo (e : Engine) (code : Int) (diagnostic : Option String) : Except Error Value :=
  if code = unspecifiedCode then
    match diagnostic with
    | some text => .ok (.text text)
    | none => .error (.malformed .noDiagnostic)
  else if code = wrongSuiteCode then
    let suites := e.current.material.suitesInError.getD
      (Negotiation.suitesValue e.endpoint.suiteIds)
    if (Negotiation.suitesOf? suites).isSome then .ok suites
    else .error (.malformed .invalidSuitesR)
  else .error (.malformed .unsupportedCode)

def buildError (e : Engine) (code : Int) (diagnostic : Option String) : Except Error Bytes := do
  let prepended ← e.prepended .cX e.current.material.peerConnectionId
  let info ← e.errorInfo code diagnostic
  KeySchedule.encodeItems (prepended ++ [.integer code, info])

/-- Builds an error message. -/
def writeError (e : Engine) (code : Int) (diagnostic : Option String) :
    Traced (Option Bytes × Engine) := do
  let message ← Check.report "Writing EDHOC Error Message" (.ofExcept (e.buildError code diagnostic))
  return (message, e)

/-- A received code and what follows it. -/
def parseError (e : Engine) (sequence : Bytes) :
    Except Error (e.sessions.Handle × Int × Value) := do
  let items ← decodeItems sequence
  if items.isEmpty || 3 < items.length then throw (.malformed .itemCount)
  let (h, items) ← e.addressed .cX items
  let (code, items) ← next .errCode items
  let code ← intOf .errCode code
  let (info, items) ← next .errInfo items
  expectEnd .trailingErrorItems items
  return (h, code, info)

/-- A list of numbers as it is logged. -/
def listText (ns : List Int) : String := "[" ++ ", ".intercalate (ns.map toString) ++ "]"

/-- The suites that a received error message tells, if it does. -/
def errorSuites (code : Int) (info : Value) : Check (Option (List Int)) := do
  if code = successCode then
    Traced.log .warn "Error message with success code"
    return none
  else if code = unspecifiedCode then
    match info with
    | .text diagnostic =>
      Traced.log .info ("Error message: " ++ diagnostic)
      return none
    | _ => throw (.malformed (.wrongType .diagMsg))
  else if code = wrongSuiteCode then
    match Negotiation.suitesOf? info with
    | some suites =>
      Traced.log .info ("Peer supports the cipher suites " ++ listText suites)
      return some suites
    | none => throw (.malformed .invalidSuitesR)
  else
    Traced.log .warn ("Error message with unknown code " ++ toString code)
    return none

def checkError (e : Engine) (sequence : Bytes) :
    Check (e.sessions.Handle × Option (List Int)) := do
  let (h, code, info) ← Check.ofExcept (e.parseError sequence)
  return (h, ← errorSuites code info)

/-- Reads an error message and tells whether it is accepted. -/
def readError (e : Engine) (sequence : Bytes) : Traced (Bool × Engine) := do
  match ← Check.report "Reading EDHOC Error Message" (e.checkError sequence) with
  | none => return (false, e)
  | some (_, none) => return (true, e)
  | some (h, some peerSuites) =>
    let s := e.sessions.get h
    let s := { s with material := { s.material with peerSuites } }
    return (true, { e with sessions := e.sessions.set h s })

end EdhocLab.Engine
