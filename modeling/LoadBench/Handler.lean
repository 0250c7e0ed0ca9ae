/-
  LoadBench.Handler

  What a worker does with its batches, as a job that goes on step by step.  One
  step issues one call at most, so that the steps of several workers can come in
  any order.
-/

import LoadBench.Batch
import LoadBench.Fault
import LoadBench.Sample
import LoadBench.TokenBucket

namespace LoadBench

/-- What the clocks show when a step is made. -/
structure Clock where
  /-- Nanoseconds since the start of the run. -/
  now : Nat
  /-- Seconds since the epoch. -/
  second : UInt64
  /-- How long the call of the step takes, in microseconds. -/
  latency : UInt64
  deriving DecidableEq, Repr

/-- What the workers share while they work. -/
structure Surroundings (ω : Type) where
  limit : RateLimit
  /-- What the system under load remembers. -/
  world : ω

/-- The place of a worker in a run. -/
structure Post where
  worker : Nat
  /-- How many workers there are. -/
  workers : Nat
  /-- Whether commands are issued. -/
  loadEnabled : Bool
  deriving DecidableEq, Repr

/-- What comes of one step of a job. -/
inductive Progress (τ : Type) where
  | going (job : τ)
  | done (measured : Measurements)
  | failed (fault : Fault)
  /-- The worker is gone. -/
  | panicked

/-- What a worker does with batches of items `α`. It keeps a `κ` between batches, a job is a `τ`,
and the system under load remembers an `ω`. -/
structure Handler (α κ τ ω : Type) where
  /-- What a worker has before it is prepared. -/
  idle : κ
  /-- Prepares a worker. -/
  prepare : κ → Post → ω → ω × κ × Option Fault
  /-- Starts the job of a batch; whether commands are issued, and whether their rate is limited. -/
  start : κ → Batch α → Bool → Bool → τ
  /-- Makes one step of a job. -/
  step : Clock → τ → Surroundings ω → Surroundings ω × Progress τ
  /-- Lets go of what a worker has. -/
  finish : κ → ω → ω × κ

namespace Handler

variable {α κ τ ω : Type}

/-- Makes the steps of a job until it ends, `fuel` steps at most; nothing if that is not enough. -/
def runJob (handler : Handler α κ τ ω) (clock : Clock) :
    Nat → τ → Surroundings ω → Surroundings ω × Option (Progress τ)
  | 0, _, surroundings => (surroundings, none)
  | fuel + 1, job, surroundings =>
    match handler.step clock job surroundings with
    | (surroundings, .going job) => runJob handler clock fuel job surroundings
    | (surroundings, progress) => (surroundings, some progress)

end Handler

end LoadBench
