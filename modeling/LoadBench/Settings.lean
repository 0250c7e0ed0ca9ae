/-
  LoadBench.Settings

  The settings of a run, what makes them fit to run, and the layout of work
  queues that follows from them: how many queues there are, how many workers
  each one serves, and which worker is served by which queue.
-/

import LoadBench.Fault
import LoadBench.Rounding
import LoadBench.TimeSpan

namespace LoadBench

/-- How many work queues the workers are spread over. -/
inductive QueuePolicy where
  /-- One queue for each worker. -/
  | perWorker
  /-- One queue for all workers. -/
  | shared
  /-- A number of queues, to which the workers are assigned in turn. -/
  | count (queues : Nat)
  deriving DecidableEq, Repr

/-- The settings of a run. -/
structure Settings where
  workers : Nat
  batchSize : Nat
  /-- How many items are read at most; zero for all of the input. -/
  limit : Nat
  /-- Whether commands are issued; otherwise they are only read and spread. -/
  loadEnabled : Bool
  /-- The time between two rows of the console table; zero for no table. -/
  reportingPeriod : TimeSpan
  /-- The file the commands are read from. -/
  input : Option String
  readBufferSize : Nat
  /-- How many commands are issued each second at most; zero for no limit. -/
  maxRate : Nat
  /-- The file the report is written to. -/
  reportFile : Option String
  metadata : String
  queues : QueuePolicy
  /-- How long the input is read again and again. -/
  duration : Option TimeSpan
  /-- How many leading samples are left out of all statistics. -/
  burnIn : Nat
  deriving DecidableEq, Repr

/-- Why settings cannot run. -/
inductive SettingsFault where
  | noWorkers
  | emptyBatches
  | noQueues
  | idleQueues (queues workers : Nat)
  | burnInBeyondLimit (burnIn limit : Nat)
  deriving DecidableEq, Repr

/-- What a user is told about settings that cannot run. -/
def SettingsFault.message : SettingsFault → String
  | .noWorkers => "--workers cannot be less than 1"
  | .emptyBatches => "--batch-size cannot be less than 1"
  | .noQueues => "--work-queues cannot be 0"
  | .idleQueues queues workers =>
    "cannot have more work queues (" ++ Nat.repr queues ++ ") than workers (" ++
      Nat.repr workers ++ ")"
  | .burnInBeyondLimit burnIn limit =>
    "burn-in (" ++ Nat.repr burnIn ++ ") is larger than limit (" ++ Nat.repr limit ++ ")"

/-- Settings that cannot run, as a fault. -/
def SettingsFault.fault (fault : SettingsFault) : Fault := ⟨.config, fault.message⟩

namespace Settings

/-- The settings of a run of `workers` workers for which nothing else was chosen. -/
def standard (workers : Nat) : Settings where
  workers := workers
  batchSize := 100
  limit := 0
  loadEnabled := true
  reportingPeriod := TimeSpan.ofParts 1 0
  input := none
  readBufferSize := 4194304
  maxRate := 0
  reportFile := none
  metadata := ""
  queues := .shared
  duration := none
  burnIn := 0

/-- Why the queues of settings cannot run. -/
def queueFault? (settings : Settings) : Option SettingsFault :=
  match settings.queues with
  | .count queues =>
    if queues = 0 then some .noQueues
    else if settings.workers < queues then some (.idleQueues queues settings.workers)
    else none
  | _ => none

/-- Why settings cannot run, if they cannot. -/
def fault? (settings : Settings) : Option SettingsFault :=
  if settings.workers < 1 then some .noWorkers
  else if settings.batchSize < 1 then some .emptyBatches
  else
    match settings.queueFault? with
    | some fault => some fault
    | none =>
      if 0 < settings.limit ∧ settings.limit < settings.burnIn then
        some (.burnInBeyondLimit settings.burnIn settings.limit)
      else none

/-- Accepts settings that can run. -/
def validate (settings : Settings) : Except Fault Unit :=
  match settings.fault? with
  | some fault => .error fault.fault
  | none => .ok ()

/-! ## The layout of work queues -/

/-- The number of work queues. -/
def queueCount (settings : Settings) : Nat :=
  match settings.queues with
  | .perWorker => settings.workers
  | .shared => 1
  | .count queues => queues

/-- The number of workers a queue serves at most. -/
def workersPerQueue (settings : Settings) : Nat :=
  ceilDiv settings.workers (Nat.max settings.queueCount 1)

/-- The capacities of the channels, one channel for each queue and one slot at least in each. -/
def channelCapacities (settings : Settings) : List Nat :=
  List.replicate settings.queueCount (Nat.max settings.workersPerQueue 1)

/-- The queue that serves a worker. -/
def queueOf (settings : Settings) (worker : Nat) : Nat := worker % settings.queueCount

end Settings

end LoadBench
