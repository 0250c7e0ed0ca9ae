/-
  LoadBench.Run.Outcome

  What a user gets from a run: its report or its fault, and what is printed.
  Settings that cannot run are refused before the input is opened.  A run that
  went well prints its summary; only then is its report written to a file.  A run
  for which there is not enough memory panics at its start, and one whose lines
  cannot be counted at its first item.
-/

import LoadBench.Console
import LoadBench.Report.Summary
import LoadBench.Run
import LoadBench.Storage

namespace LoadBench

/-- What a user gets from a run. -/
structure Outcome (ω : Type) where
  /-- The report or the fault; none for a run that has panicked, or has not ended. -/
  result : Option (Except Fault Report)
  /-- What was printed, line by line. -/
  console : List String
  ledger : Ledger
  /-- What the system under load remembers. -/
  world : ω

namespace Outcome

variable {ω : Type}

/-- A run that has not started. -/
def refused (fault : Fault) (world : ω) : Outcome ω :=
  ⟨some (.error fault), [], Ledger.create 0, world⟩

/-- A run that panics at its start. -/
def panicked (world : ω) : Outcome ω := ⟨none, [], Ledger.create 0, world⟩

end Outcome

namespace Settings

/-- What a report tells about a run of these settings that took a time. -/
def facts (settings : Settings) (configuration : Table String Json.Value) (took : TimeSpan) :
    RunFacts where
  startTime := 0
  endTime := 0
  took := took
  runId := ⟨0⟩
  metadata := settings.metadata
  limit := UInt64.ofNat settings.limit
  workers := UInt64.ofNat settings.workers
  maxRate := UInt64.ofNat settings.maxRate
  batchSize := UInt64.ofNat settings.batchSize
  settings := configuration

/-- What is printed before the first period ends. -/
def heading (settings : Settings) : List String :=
  if settings.reportingPeriod.nanos = 0 then [] else [Console.header]

end Settings

namespace Run

variable {α κ τ ω φ : Type}

/-- What a user gets from a run that is over and took a time. -/
def outcome (settings : Settings) (configuration : Table String Json.Value) (took : TimeSpan)
    (run : Run α κ τ ω φ) : Outcome ω :=
  let floor := run.crew.floor
  let ended (result : Option (Except Fault Report)) (summary : List String) : Outcome ω :=
    ⟨result, settings.heading ++ summary, floor.ledger, floor.surroundings.world⟩
  match run.stage with
  | .over (.ok _) =>
    let report := Report.compose floor.ledger (settings.facts configuration took)
    let summary := (report.summaryLines settings.workers).map String.ofList
    match settings.reportFile.map Storage.create with
    | some (.error fault) => ended (some (.error fault.fault)) summary
    | _ => ended (some (.ok report)) summary
  | .over (.error fault) => ended (some (.error fault)) []
  | _ => ended none []

end Run

namespace Workload

variable {α κ τ ω φ : Type}

/-- Runs over an input, if it can be opened, and takes a time. No more than `fuel` steps are
made. -/
def run (workload : Workload α κ τ ω φ) (settings : Settings) (clock : Clock) (took : TimeSpan)
    (fuel : Nat) (input : Except Fault φ) (world : ω) : Outcome ω :=
  match settings.validate, input with
  | .error fault, _ => Outcome.refused fault world
  | .ok (), .error fault => Outcome.refused fault world
  | .ok (), .ok input =>
    if settings.canStart workload.room (workload.buffer input) then
      match Run.start workload settings world input with
      | .error fault => Outcome.refused fault world
      | .ok run => (run.driveFor workload clock fuel).outcome settings workload.configuration took
    else Outcome.panicked world

end Workload

end LoadBench
