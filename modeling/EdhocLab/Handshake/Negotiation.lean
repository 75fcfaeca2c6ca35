import EdhocLab.Handshake.Error
import EdhocLab.Suite

/-! # Negotiation of the cipher suite

The Initiator selects its first suite that the peer is known to support, and lists its suites up
to it.  The Responder checks the selection and otherwise offers the suites to use instead.
-/
namespace EdhocLab.Handshake.Negotiation

open Cbor (Value)

/-- How a list of suites is sent, a single suite as an integer. -/
def suitesValue : List Int → Value
  | [id] => .integer id
  | ids => .array (ids.map .integer)

/-- The suites in an integer or an array of integers. -/
def suitesOf? : Value → Option (List Int)
  | .integer n => (Value.int64? (.integer n)).map fun n => [n]
  | .array vs => vs.mapM Value.int64?
  | _ => none

/-- The suite to use with a peer that supports the suites `peer`, or about which nothing is
known. -/
def selectSuite (own : List Suite) (peer : List Int) : Except Error Suite :=
  match own with
  | [] => .error .unsupportedSuite
  | preferred :: _ =>
    if peer.isEmpty then .ok preferred
    else match own.find? fun suite => peer.contains suite.id with
      | some suite => .ok suite
      | none => .error .noCommonSuite

/-- The suite to use and the list that is sent with it. -/
def negotiate (own : List Suite) (peer : List Int) : Except Error (Suite × Value) := do
  let selected ← selectSuite own peer
  let before := (own.takeWhile fun suite => suite.id != selected.id).map Suite.id
  return (selected, suitesValue (before ++ [selected.id]))

/-- The suite that a received list selects, which is its last one. -/
structure Selection where
  selected : Int
  /-- The suites to offer if the selection is not acceptable. -/
  offer : Option Value

/-- A suite in a received list. -/
def suiteOf? (v : Value) : Option Int := v.int64?.filter fun n => decide (0 ≤ n)

/-- The suites of an array of at least two. -/
def listedSuites (vs : List Value) : Except Error (List Int) :=
  if vs.length < 2 then .error (.malformed .tooFewSuites)
  else match vs.mapM suiteOf? with
    | some ids => .ok ids
    | none => .error (.malformed .invalidSuite)

/-- The offer for a received list: nothing if the selected suite is the first common one, else
that one, or all own suites if there is none. -/
def offerFor (own listed : List Int) (selected : Int) : Option Value :=
  match listed.find? fun id => own.contains id with
  | none => some (suitesValue own)
  | some shared => if shared = selected then none else some (suitesValue [shared])

/-- Reads the suites of the Initiator. -/
def checkSuites (suitesI : Value) (own : List Int) : Except Error Selection :=
  match suitesI with
  | .integer n =>
    match suiteOf? (.integer n) with
    | some selected => .ok { selected, offer := offerFor own [selected] selected }
    | none => .error (.malformed .negativeSuite)
  | .array vs => do
    let listed ← listedSuites vs
    let selected := listed.getLastD 0
    return { selected, offer := offerFor own listed selected }
  | _ => .error (.malformed (.wrongType .suitesI))

end EdhocLab.Handshake.Negotiation
