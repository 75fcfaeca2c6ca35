import EdhocLab.Cbor.Value

/-! # Items of external authorization data

An item is a label and possibly a value.  A received list is read into items first; it is refused
if an item that the receiver does not support is critical, and otherwise reduced to the supported
items.
-/
namespace EdhocLab.Ead

open Cbor (Value)

/-- How the items of a message are laid out. -/
inductive Convention
  /-- Every label is followed by a byte string. -/
  | forcedPairs
  /-- A label is followed by a byte string only if its item has a value. -/
  | optionalValue
  deriving DecidableEq, Repr

structure Item where
  label : Int
  value : Option Bytes
  deriving DecidableEq, Repr

namespace Item

def toValues (item : Item) : List Value :=
  match item.value with
  | some b => [.integer item.label, .bytes b]
  | none => [.integer item.label]

/-- The padding item has label zero and means nothing. -/
def isPadding (item : Item) : Bool := item.label == 0

def isSupported (supported : List Int) (item : Item) : Bool :=
  supported.contains item.label.natAbs

/-- Items with a negative label have to be understood by the receiver. -/
def isCritical (item : Item) : Bool := decide (item.label < 0)

end Item

/-- The items of a list of alternating labels and values. -/
def readPairs : List Value → Option (List Item)
  | [] => some []
  | [_] => none
  | label :: value :: rest => do
    let label ← label.int64?
    let value ← value.bytes?
    return { label, value := some value } :: (← readPairs rest)

/-- The items of a list in which every label may be followed by a value. -/
def readOptional : List Value → Option (List Item)
  | [] => some []
  | label :: .bytes value :: rest => do
    let label ← label.int64?
    return { label, value := some value } :: (← readOptional rest)
  | label :: rest => do
    let label ← label.int64?
    return { label, value := none } :: (← readOptional rest)

def Convention.read : Convention → List Value → Option (List Item)
  | .forcedPairs => readPairs
  | .optionalValue => readOptional

/-- The supported items, unless another one is critical. -/
def select (supported : List Int) (items : List Item) : Option (List Item) :=
  if items.any fun item => item.isCritical && !item.isSupported supported then none
  else some (items.filter fun item => !item.isPadding && item.isSupported supported)

/-- The supported part of a received list, label and value kept together. -/
def accept (convention : Convention) (supported : List Int) (values : List Value) :
    Option (List Value) := do
  let items ← convention.read values
  let items ← select supported items
  return items.flatMap Item.toValues

end EdhocLab.Ead
