/-
  LoadBench.Channel

  The link between the one that spreads batches and the workers of one queue.
  Values go to the workers in a bounded queue; for each value a worker has
  finished, one acknowledgment comes back, and no more of them wait than the
  queue has slots.

  A channel ends in one of two ways.  The sending side closes it: then no value
  is accepted any more, and the workers still receive those that wait.  Or every
  endpoint is dropped: then no value is accepted either, and the sending side
  still takes the acknowledgments that wait before it meets the end.
-/

import LoadBench.Fault
import LoadBench.Memory

namespace LoadBench

/-- Why a value cannot be sent. -/
inductive SendFault where
  /-- The sending side has closed the channel. -/
  | closed
  /-- Every endpoint has been dropped. -/
  | abandoned
  deriving DecidableEq, Repr

/-- A value that cannot be sent, as a fault. -/
def SendFault.fault : SendFault → Fault
  | .closed => ⟨.internal, "send on a closed duplex channel"⟩
  | .abandoned => ⟨.internal, "every worker of the queue has exited"⟩

/-- The lack of any queue, as a fault. -/
def noQueuesFault : Fault := ⟨.config, "at least one work queue is required"⟩

/-- A bounded queue of values, and the acknowledgments that come back. -/
structure Channel (α : Type) where
  /-- How many values wait at most, and how many acknowledgments. -/
  capacity : Nat
  /-- The waiting values, in the order in which they were sent. -/
  queue : List α
  /-- How many acknowledgments wait. -/
  acks : Nat
  /-- Whether values may still be sent. -/
  isOpen : Bool
  /-- Whether acknowledgments are still taken. -/
  isRead : Bool
  /-- For each endpoint given out so far, whether it is still held. -/
  endpoints : List Bool
  deriving DecidableEq, Repr

namespace Channel

variable {α : Type}

/-- A new channel with one endpoint. It has one slot at least. -/
def create (capacity : Nat) : Channel α where
  capacity := Nat.max capacity 1
  queue := []
  acks := 0
  isOpen := true
  isRead := true
  endpoints := [true]

/-- How many bytes a slot takes at least: the value and whose turn it is. -/
def slotWidth : Nat := 16

/-- Whether a channel can be made that has a number of slots. -/
def canHold (capacity : Nat) : Bool := Memory.holds capacity slotWidth

/-- Whether an endpoint is still held. -/
def holds (channel : Channel α) (endpoint : Nat) : Bool := channel.endpoints.getD endpoint false

/-- Whether any endpoint is still held. -/
def isHeld (channel : Channel α) : Bool := channel.endpoints.any id

/-- How many values wait; none once the channel is closed, whatever the workers may still
receive. -/
def queued (channel : Channel α) : Nat := if channel.isOpen then channel.queue.length else 0

/-- Whether no more values can wait. -/
def isFull (channel : Channel α) : Bool := channel.capacity ≤ channel.queue.length

/-! ## The sending side -/

/-- What came of offering a value. -/
inductive Offer where
  | accepted
  /-- No slot is free: the value stays with its owner. -/
  | full
  | refused (fault : SendFault)
  deriving DecidableEq, Repr

/-- Offers a value. -/
def offer (channel : Channel α) (value : α) : Channel α × Offer :=
  -- A closed channel refuses as closed, also when nobody listens any more.
  if ¬channel.isOpen then (channel, .refused .closed)
  else if ¬channel.isHeld then (channel, .refused .abandoned)
  else if channel.isFull then (channel, .full)
  else ({ channel with queue := channel.queue ++ [value] }, .accepted)

/-- What came of taking an acknowledgment. -/
inductive Credit where
  | taken
  /-- None waits. -/
  | none
  /-- None waits, and none will come. -/
  | lost
  deriving DecidableEq, Repr

/-- Takes an acknowledgment. -/
def takeCredit (channel : Channel α) : Channel α × Credit :=
  -- What waits is taken first, also after its endpoint has been dropped.
  if 0 < channel.acks then ({ channel with acks := channel.acks - 1 }, .taken)
  else if channel.isHeld then (channel, .none)
  else (channel, .lost)

/-- Whether taking an acknowledgment has an outcome at once: there is one, or none will come. -/
def isReady (channel : Channel α) : Bool := 0 < channel.acks || !channel.isHeld

/-- Accepts no more values. -/
def close (channel : Channel α) : Channel α := { channel with isOpen := false }

/-- Lets go of the sending side: no more values are accepted, and acknowledgments are taken by
nobody. -/
def dropSender (channel : Channel α) : Channel α :=
  { channel with isOpen := false, isRead := false }

/-! ## The endpoints -/

/-- What came of waiting for a value. -/
inductive Receipt (α : Type) where
  | received (value : α)
  /-- The channel is closed and nothing waits. -/
  | exhausted
  /-- Nothing waits yet. -/
  | waiting
  /-- The endpoint has been dropped. -/
  | gone
  deriving DecidableEq, Repr

/-- Receives a value at an endpoint. -/
def receive (channel : Channel α) (endpoint : Nat) : Channel α × Receipt α :=
  if ¬channel.holds endpoint then (channel, .gone)
  else
    match channel.queue with
    | value :: rest => ({ channel with queue := rest }, .received value)
    | [] => (channel, if channel.isOpen then .waiting else .exhausted)

/-- What came of sending an acknowledgment. -/
inductive Acknowledgment where
  | sent
  /-- As many wait as can. -/
  | blocked
  /-- The endpoint has been dropped. -/
  | gone
  deriving DecidableEq, Repr

/-- Sends an acknowledgment from an endpoint. One that nobody takes is lost. -/
def acknowledge (channel : Channel α) (endpoint : Nat) : Channel α × Acknowledgment :=
  if ¬channel.holds endpoint then (channel, .gone)
  -- Nobody is left to be told, so the worker is not held up.
  else if ¬channel.isRead then (channel, .sent)
  else if channel.capacity ≤ channel.acks then (channel, .blocked)
  else ({ channel with acks := channel.acks + 1 }, .sent)

/-- One more endpoint like a given one; which one it is. -/
def clone (channel : Channel α) (endpoint : Nat) : Channel α × Nat :=
  ({ channel with endpoints := channel.endpoints ++ [channel.holds endpoint] },
    channel.endpoints.length)

/-- Replaces all endpoints by one for each of some workers. -/
def assign (channel : Channel α) (workers : Nat) : Channel α :=
  { channel with endpoints := List.replicate workers true }

/-- Drops an endpoint. -/
def drop (channel : Channel α) (endpoint : Nat) : Channel α :=
  { channel with endpoints := channel.endpoints.set endpoint false }

end Channel

end LoadBench
