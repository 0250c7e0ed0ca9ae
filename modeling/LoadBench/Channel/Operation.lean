/-
  LoadBench.Channel.Operation

  The operations on a channel, as they are called at its two sides, and what comes of
  each.  An operation that would have to wait does nothing, and so does one at an
  endpoint that is not held.
-/

import LoadBench.Channel

namespace LoadBench.Channel

variable {α : Type}

/-- A call at one of the two sides of a channel. -/
inductive Operation (α : Type) where
  /-- Sends a value if a slot is free. -/
  | trySend (value : α)
  /-- Sends a value, and waits for a slot if none is free. -/
  | send (value : α)
  /-- Takes an acknowledgment if one waits. -/
  | takeCredit
  | close
  /-- Receives a value at an endpoint, and waits for one if there is none. -/
  | receive (endpoint : Nat)
  /-- Sends an acknowledgment from an endpoint, and waits if as many wait as can. -/
  | acknowledge (endpoint : Nat)
  | clone (endpoint : Nat)
  | drop (endpoint : Nat)
  deriving DecidableEq, Repr

/-- What comes of an operation. -/
inductive Outcome (α : Type) where
  | accepted (value : α)
  /-- No slot was free, and the value comes back. -/
  | returned (value : α)
  | refused (fault : Fault)
  | received (endpoint : Nat) (value : α)
  /-- There will be no values any more. -/
  | exhausted (endpoint : Nat)
  | acknowledged (endpoint : Nat)
  /-- An acknowledgment was taken. -/
  | credited
  /-- None waits. -/
  | uncredited
  /-- None waits, and none will come. -/
  | disconnected
  /-- There is a new endpoint. -/
  | cloned (endpoint : Nat)
  | dropped (endpoint : Nat)
  | closed
  /-- The operation would have to wait. -/
  | blocked
  /-- The endpoint is not held. -/
  | gone
  deriving DecidableEq, Repr

/-- Does an operation. -/
def perform (channel : Channel α) : Operation α → Channel α × Outcome α
  | .trySend value =>
    match channel.offer value with
    | (channel, .accepted) => (channel, .accepted value)
    | (channel, .full) => (channel, .returned value)
    | (channel, .refused fault) => (channel, .refused fault.fault)
  | .send value =>
    match channel.offer value with
    | (channel, .accepted) => (channel, .accepted value)
    | (channel, .full) => (channel, .blocked)
    | (channel, .refused fault) => (channel, .refused fault.fault)
  | .takeCredit =>
    match channel.takeCredit with
    | (channel, .taken) => (channel, .credited)
    | (channel, .none) => (channel, .uncredited)
    | (channel, .lost) => (channel, .disconnected)
  | .close => (channel.close, .closed)
  | .receive endpoint =>
    match channel.receive endpoint with
    | (channel, .received value) => (channel, .received endpoint value)
    | (channel, .exhausted) => (channel, .exhausted endpoint)
    | (channel, .waiting) => (channel, .blocked)
    | (channel, .gone) => (channel, .gone)
  | .acknowledge endpoint =>
    match channel.acknowledge endpoint with
    | (channel, .sent) => (channel, .acknowledged endpoint)
    | (channel, .blocked) => (channel, .blocked)
    | (channel, .gone) => (channel, .gone)
  | .clone endpoint =>
    if channel.holds endpoint then
      let (channel, added) := channel.clone endpoint
      (channel, .cloned added)
    else (channel, .gone)
  | .drop endpoint =>
    if channel.holds endpoint then (channel.drop endpoint, .dropped endpoint)
    else (channel, .gone)

/-- A channel behind operations. -/
def after (channel : Channel α) (operations : List (Operation α)) : Channel α :=
  operations.foldl (fun channel operation => (channel.perform operation).1) channel

/-- What comes of operations, one after another. -/
def outcomes (channel : Channel α) : List (Operation α) → List (Outcome α)
  | [] => []
  | operation :: rest =>
    (channel.perform operation).2 :: (channel.perform operation).1.outcomes rest

end LoadBench.Channel
