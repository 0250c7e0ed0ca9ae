/-
  LoadBench.Run

  A run from its input to its end: the scan spreads the items over the queues,
  the workers process them, and when all of them have ended the run knows whether
  it went well.

  A run makes its steps one at a time, each of them either a step of the scan or
  a step of one worker; `Run.step?` says what a step does, and which one comes
  next is left open.  The fault that was raised first, by a worker or for the
  scan, is the fault of the run.
-/

import LoadBench.Crew
import LoadBench.Dispatch
import LoadBench.Json.Value

namespace LoadBench

/-- What comes of reading an item. -/
inductive Reading (α : Type) where
  | item (item : α)
  /-- The input has ended. -/
  | ended
  | unreadable (fault : Fault)
  /-- The reader is gone, and the run with it. -/
  | panicked
  deriving DecidableEq, Repr

/-- What a run needs from one kind of input and one kind of work. The input is left as a `φ`
between two items. -/
structure Workload (α κ τ ω φ : Type) where
  /-- Which queue an item goes to, given the number of queues. -/
  routing : Nat → Routing α
  handler : Handler α κ τ ω
  /-- How many items a new batch has room for. -/
  room : Nat
  /-- How many bytes of an input are read ahead at most. -/
  buffer : φ → Nat
  /-- The next item. -/
  next : φ → φ × Reading α
  /-- The input from its start; whether it can be had again. -/
  again : φ → φ × Except Fault Bool
  /-- Settings of the system under load. -/
  configuration : Table String Json.Value

/-- Where a run stands. -/
inductive RunStage where
  | scanning
  /-- About to let go of the channels. -/
  | closing
  /-- Waiting for the workers to end. -/
  | joining
  | over (result : Except Fault ScanTally)
  /-- Gone, without any result. -/
  | panicked

/-- A run. -/
structure Run (α κ τ ω φ : Type) where
  /-- How long the input is read. -/
  duration : Option TimeSpan
  scan : Scan α
  crew : Crew α κ τ ω
  input : φ
  stage : RunStage

/-- Who makes a step. -/
inductive Move where
  /-- The scan. If it takes an acknowledgment, then of the queue `pick`. -/
  | main (pick : Nat)
  | worker (index : Nat)
  deriving DecidableEq, Repr

namespace Settings

/-- How a run with these settings scans its input. -/
def plan (settings : Settings) : ScanPlan where
  queues := settings.queueCount
  slots := Nat.max settings.workersPerQueue 1
  batchSize := settings.batchSize
  limit := settings.limit
  mode := .timed settings.duration.isSome

/-- How many batches the pool holds at most: as many as can be under way at one time. -/
def poolCapacity (settings : Settings) : Nat :=
  settings.queueCount * settings.workersPerQueue * (ScanPlan.creditFactor + 1) +
    settings.queueCount

/-- Whether there can be what a run starts with: its channels, batches with room for `room` items,
and `buffer` bytes to read ahead. -/
def canStart (settings : Settings) (room buffer : Nat) : Bool :=
  Memory.holds buffer 1 && Depot.canHold settings.queueCount settings.workersPerQueue &&
    Batch.canHold room

end Settings

namespace Run

variable {α κ τ ω φ : Type}

/-! ## The start -/

/-- The floor of the workers at the start. -/
def floorOf (settings : Settings) (world : ω) : Floor α ω where
  depot :=
    Depot.create settings.queueCount (Nat.max settings.workersPerQueue 1) settings.poolCapacity
  alarm := Alarm.quiet
  ledger := Ledger.create settings.burnIn
  surroundings := ⟨RateLimit.ofRate settings.maxRate settings.workers, world⟩

/-- A run at its start. It is asked before whether there is room for it (`Settings.canStart`). -/
def start (workload : Workload α κ τ ω φ) (settings : Settings) (world : ω) (input : φ) :
    Except Fault (Run α κ τ ω φ) :=
  match Crew.start workload.handler settings.workers settings.loadEnabled
    (floorOf settings world) with
  | .error fault => .error fault
  | .ok crew =>
    .ok
      { duration := settings.duration
        scan := Scan.start settings.plan (workload.routing settings.queueCount)
        crew := crew
        input := input
        stage := .scanning }

/-! ## Steps -/

/-- The scan and the depot of a run. -/
def dispatch (run : Run α κ τ ω φ) : Dispatch α := ⟨run.scan, run.crew.floor.depot⟩

/-- The run with a changed floor. -/
def withFloor (run : Run α κ τ ω φ) (floor : Floor α ω) : Run α κ τ ω φ :=
  { run with crew := { run.crew with floor } }

/-- The run with a changed scan and depot. -/
def withDispatch (run : Run α κ τ ω φ) (dispatch : Dispatch α) : Run α κ τ ω φ :=
  { run.withFloor { run.crew.floor with depot := dispatch.depot } with scan := dispatch.scan }

/-- Goes on with an answer to the scan. -/
def answer (run : Run α κ τ ω φ) (reply : Reply α) : Run α κ τ ω φ :=
  { run with scan := run.scan.resume reply }

/-- Whether the scan is to stop: the run is over, or its time is up. -/
def isStopped (run : Run α κ τ ω φ) (clock : Clock) : Bool :=
  run.crew.floor.alarm.isRaised ||
    match run.duration with
    | some duration => duration.nanos ≤ clock.now
    | none => false

/-- Lets go of the channels, and goes on to a stage. -/
def letGo (run : Run α κ τ ω φ) (stage : RunStage) : Run α κ τ ω φ :=
  -- The workers learn from the closed channels that nothing more will come.
  { run.withFloor { run.crew.floor with depot := run.crew.floor.depot.dropSenders } with stage }

/-- Goes on with what came of reading an item. The channels go with a reader that panics. -/
def takeReading (run : Run α κ τ ω φ) : Reading α → Run α κ τ ω φ
  | .item item => run.answer (.item (some item))
  | .ended => run.answer (.item none)
  | .unreadable fault => run.answer (.unreadable fault)
  | .panicked => run.letGo .panicked

/-- What the scan is told about the input from its start. -/
def rewindReply : Except Fault Bool → Reply α
  | .ok again => .rewound again
  | .error fault => .unreadable fault

/-- The scan has returned: a fault of its own is raised. -/
def scanned (run : Run α κ τ ω φ) : Run α κ τ ω φ :=
  let run := { run with stage := .closing }
  match run.scan.result? with
  | some (.error fault) => run.withFloor (run.crew.floor.raise fault.fault)
  | _ => run

/-- What a run comes to when all workers have ended. -/
def verdict (run : Run α κ τ ω φ) : Except Fault ScanTally :=
  -- The fault raised first is the fault of the run; a lost worker counts only without one.
  match run.crew.floor.alarm.first with
  | some fault => .error fault
  | none =>
    match run.crew.joined with
    | .error fault => .error fault
    | .ok () =>
      match run.scan.result? with
      | some (.ok summary) => .ok summary
      | _ => .error ⟨.internal, "scan failed without an error"⟩

/-- Makes a step of the scan or behind it; nothing if it has to wait. -/
def mainStep? (workload : Workload α κ τ ω φ) (clock : Clock) (pick : Nat)
    (run : Run α κ τ ω φ) : Option (Run α κ τ ω φ) :=
  match run.stage with
  | .scanning =>
    match run.scan.request? with
    | none => some run.scanned
    | some .stop => some (run.answer (.stop (run.isStopped clock)))
    | some .item =>
      let (input, reading) := workload.next run.input
      some ({ run with input }.takeReading reading)
    | some .rewind =>
      let (input, again) := workload.again run.input
      some ({ run with input }.answer (rewindReply again))
    | some _ => (run.dispatch.serve? pick).map run.withDispatch
  | .closing => some (run.letGo .joining)
  | .joining => if run.crew.isDone then some { run with stage := .over run.verdict } else none
  | .over _ => none
  | .panicked => none

/-- Makes a step; nothing if the one who should make it has to wait or has ended. -/
def step? (workload : Workload α κ τ ω φ) (clock : Clock) (move : Move)
    (run : Run α κ τ ω φ) : Option (Run α κ τ ω φ) :=
  match move with
  | .main pick => run.mainStep? workload clock pick
  | .worker index =>
    (run.crew.step? workload.handler clock index).map fun crew => { run with crew }

/-! ## One schedule -/

/-- Makes a step of the scan if it can make one, and otherwise of the first worker that can. -/
def stepAny? (workload : Workload α κ τ ω φ) (clock : Clock) (run : Run α κ τ ω φ) :
    Option (Run α κ τ ω φ) :=
  (run.step? workload clock (.main run.crew.floor.depot.firstReady)).or <|
    (List.range run.crew.size).findSome? fun index => run.step? workload clock (.worker index)

/-- Makes steps until nobody can make one, `fuel` steps at most. -/
def driveFor (workload : Workload α κ τ ω φ) (clock : Clock) :
    Nat → Run α κ τ ω φ → Run α κ τ ω φ
  | 0, run => run
  | fuel + 1, run =>
    match run.stepAny? workload clock with
    | some next => driveFor workload clock fuel next
    | none => run

/-- How many steps a run makes at most, if its input gives no more than `items` items in one pass
and no job makes more than `jobSteps` steps for each item. An input that can be had again gives
items up to the limit; without a limit, no more are read than can be outstanding when a fault
ends the run. -/
def stepsFor (settings : Settings) (items jobSteps : Nat) : Nat :=
  let held := (settings.plan.creditLimit + settings.queueCount + 1) * settings.batchSize
  (2 * settings.limit + items + held + settings.queueCount + settings.workers + 4) *
    (jobSteps + 32)

end Run

end LoadBench
