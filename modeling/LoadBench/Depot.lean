/-
  LoadBench.Depot

  What the scan and the workers share: a channel for each queue, and the pool
  of the batches that nobody uses.
-/

import LoadBench.Batch.Pool
import LoadBench.Channel

namespace LoadBench

/-- The channels of the queues, and the pool of their batches. -/
structure Depot (α : Type) where
  /-- One channel for each queue. -/
  channels : List (Channel (Batch α))
  pool : BatchPool α
  deriving DecidableEq, Repr

namespace Depot

variable {α : Type}

/-- New channels, each with `slots` slots and one endpoint, and an empty pool. -/
def create (queues slots poolCapacity : Nat) : Depot α where
  channels := List.replicate queues (Channel.create slots)
  pool := BatchPool.empty poolCapacity

/-- How many bytes a channel takes, its slots aside. -/
def channelWidth : Nat := 40

/-- Whether there can be so many channels with so many slots each. A slot is as wide as the cell of
a pool. -/
def canHold (queues slots : Nat) : Bool :=
  queues = 0 || Memory.holds queues channelWidth && Memory.holds slots BatchPool.cellWidth

/-- Changes the channel of a queue. -/
def modifyChannel (depot : Depot α) (queue : Nat) (f : Channel (Batch α) → Channel (Batch α)) :
    Depot α :=
  { depot with channels := depot.channels.modify queue f }

/-- Puts a channel in place of that of a queue. -/
def setChannel (depot : Depot α) (queue : Nat) (channel : Channel (Batch α)) : Depot α :=
  { depot with channels := depot.channels.set queue channel }

/-! ## The scan's side -/

/-- Draws an empty batch. -/
def draw (depot : Depot α) : Depot α × Batch α :=
  let (pool, batch) := depot.pool.acquire
  ({ depot with pool }, batch)

/-- Offers a batch to a queue; nothing comes of it if there is no such queue. -/
def offer (depot : Depot α) (queue : Nat) (batch : Batch α) :
    Option (Depot α × Channel.Offer) :=
  (depot.channels[queue]?).map fun channel =>
    let (channel, offer) := channel.offer batch
    (depot.setChannel queue channel, offer)

/-- Takes an acknowledgment of a queue; nothing comes of it if there is no such queue. -/
def takeCredit (depot : Depot α) (queue : Nat) : Option (Depot α × Channel.Credit) :=
  (depot.channels[queue]?).map fun channel =>
    let (channel, credit) := channel.takeCredit
    (depot.setChannel queue channel, credit)

/-- Whether taking an acknowledgment of some queue has an outcome at once. -/
def isReady (depot : Depot α) : Bool := depot.channels.any Channel.isReady

/-- The first queue of which taking an acknowledgment has an outcome at once. -/
def firstReady (depot : Depot α) : Nat := depot.channels.findIdx Channel.isReady

/-- Closes all channels. -/
def close (depot : Depot α) : Depot α :=
  { depot with channels := depot.channels.map Channel.close }

/-- Lets go of the scan's side of all channels. -/
def dropSenders (depot : Depot α) : Depot α :=
  { depot with channels := depot.channels.map Channel.dropSender }

/-! ## The workers' side -/

/-- Receives a batch at an endpoint of a queue. -/
def receive (depot : Depot α) (queue endpoint : Nat) :
    Depot α × Channel.Receipt (Batch α) :=
  match depot.channels[queue]? with
  | none => (depot, .gone)
  | some channel =>
    let (channel, receipt) := channel.receive endpoint
    (depot.setChannel queue channel, receipt)

/-- Acknowledges a batch at an endpoint of a queue. -/
def acknowledge (depot : Depot α) (queue endpoint : Nat) : Depot α × Channel.Acknowledgment :=
  match depot.channels[queue]? with
  | none => (depot, .gone)
  | some channel =>
    let (channel, acknowledgment) := channel.acknowledge endpoint
    (depot.setChannel queue channel, acknowledgment)

/-- Gives each queue as many endpoints as a list says, in place of those there are. -/
def assign (depot : Depot α) (endpoints : List Nat) : Depot α :=
  { depot with channels := List.zipWith Channel.assign depot.channels endpoints }

/-- Drops an endpoint of a queue. -/
def drop (depot : Depot α) (queue endpoint : Nat) : Depot α :=
  depot.modifyChannel queue fun channel => channel.drop endpoint

/-- Gives a batch back to the pool. -/
def release (depot : Depot α) (batch : Batch α) : Depot α :=
  { depot with pool := depot.pool.release batch }

end Depot

end LoadBench
