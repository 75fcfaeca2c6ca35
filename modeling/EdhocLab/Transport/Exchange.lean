import EdhocLab.Trace

/-! # Recorded exchanges

Descriptors of CoAP exchanges, handed from the network to whoever drives the engine.  A request
waits as a draft until a resource completes it; responses are received at once.
-/
namespace EdhocLab.Transport

/-- What a CoAP exchange carried and how it ended. -/
structure Exchange where
  messageId : UInt16
  hasEdhoc : Bool
  hasOscore : Bool
  hasCoap : Bool
  /-- The exchange failed before it reached a resource. -/
  unsuccessful : Bool
  deriving DecidableEq, Repr

def Exchange.ofMessageId (messageId : UInt16) : Exchange :=
  { messageId, hasEdhoc := false, hasOscore := false, hasCoap := false, unsuccessful := false }

/-- The exchange of a message that never reached a resource. -/
def Exchange.failed (messageId : UInt16) : Exchange :=
  { Exchange.ofMessageId messageId with unsuccessful := true }

/-- A bounded queue, oldest entry first. -/
structure Queue where
  capacity : Nat
  items : List Exchange
  deriving DecidableEq

namespace Queue

def ofCapacity (capacity : Nat) : Queue := { capacity, items := [] }

def length (queue : Queue) : Nat := queue.items.length

/-- The queue with a new entry, unless it is full. -/
def offer? (queue : Queue) (exchange : Exchange) : Option Queue :=
  if queue.length < queue.capacity then
    some { queue with items := queue.items ++ [exchange] }
  else none

/-- The oldest entry and the queue without it. -/
def poll (queue : Queue) : Option Exchange × Queue :=
  (queue.items.head?, { queue with items := queue.items.tail })

/-- The queue without the entries that satisfy `p`. -/
def removeAll (queue : Queue) (p : Exchange → Bool) : Queue :=
  { queue with items := queue.items.filter fun exchange => !p exchange }

/-- The queue without the first entry that satisfies `p`. -/
def removeFirst (queue : Queue) (p : Exchange → Bool) : Queue :=
  { queue with items := queue.items.eraseP p }

end Queue

/-- The two queues of an engine. -/
structure Exchanger where
  draft : Queue
  received : Queue
  deriving DecidableEq

namespace Exchanger

/-- Empty queues for one entry each. -/
def empty : Exchanger := { draft := .ofCapacity 1, received := .ofCapacity 1 }

/-- Adds a request on its way to a resource; a full queue is reported and left alone. -/
def offerDraft (exchanger : Exchanger) (exchange : Exchange) : Traced Exchanger :=
  match exchanger.draft.offer? exchange with
  | some draft => pure { exchanger with draft }
  | none => do
    Traced.log .warn "Full draft queue found"
    return exchanger

/-- Adds a finished exchange; a full queue is reported and left alone. -/
def offerReceived (exchanger : Exchanger) (exchange : Exchange) : Traced Exchanger :=
  match exchanger.received.offer? exchange with
  | some received => pure { exchanger with received }
  | none => do
    Traced.log .warn "Full received queue found"
    return exchanger

/-- Removes the draft of a request; the result tells whether there was one. -/
def removeDraft (exchanger : Exchanger) (messageId : UInt16) : Bool × Exchanger :=
  let matching := fun exchange : Exchange => exchange.messageId == messageId
  (exchanger.draft.items.any matching,
    { exchanger with draft := exchanger.draft.removeAll matching })

/-- Moves the draft of a request to the received queue, updated by what the resource found; the
result tells whether there was one. -/
def completeDraft (exchanger : Exchanger) (messageId : UInt16) (update : Exchange → Exchange) :
    Traced (Bool × Exchanger) :=
  let matching := fun exchange : Exchange => exchange.messageId == messageId
  match exchanger.draft.items.find? matching with
  | some exchange => do
    let exchanger := { exchanger with draft := exchanger.draft.removeFirst matching }
    return (true, ← exchanger.offerReceived (update exchange))
  | none => pure (false, exchanger)

end Exchanger

end EdhocLab.Transport
