/-
  LoadBench.Desk

  A ledger that several recordings are written into at the same time, while
  reporting periods end.  A recording is its sections one after another
  (`Recording.advance?`): each ticket is drawn on its own, each of the three views
  is counted in one section, and each byte total is added to on its own.  All of
  them without a break are `Ledger.record` (`Desk.follow_alone`).  The end of
  a period has two sections: one on the tracks of the labels, and one on the time
  series.  Between two sections of one party any other may make any number of its
  own, and any party may read the counters.

  A worker that records one batch after another is, for the ledger, as many
  recordings of which each happens to wait for the one before.
-/

import LoadBench.Period

namespace LoadBench

/-! ## One recording -/

/-- How far a recording has come. -/
inductive RecordingStage where
  /-- Some samples have no ticket yet. -/
  | drawing (undrawn : List Sample)
  | labelling
  | querying
  | dating
  | sending
  /-- The bytes sent are added, those received are not. -/
  | receiving (bytes : UInt64)
  | returned
  /-- The bytes of this one batch are beyond 64 bits, and no bytes were added. -/
  | overflowed
  deriving DecidableEq, Repr

/-- The recording of one batch. -/
structure Recording where
  /-- The samples that have a ticket. -/
  drawn : List Sample
  /-- Those among them that are measured. -/
  measured : List Sample
  stage : RecordingStage
  deriving DecidableEq, Repr

namespace Recording

/-- A recording of which nothing was done. -/
def start (batch : Measurements) : Recording := ⟨[], [], .drawing batch.samples⟩

/-- The samples without a ticket. -/
def undrawn (recording : Recording) : List Sample :=
  match recording.stage with
  | .drawing undrawn => undrawn
  | _ => []

/-- The samples of the batch. -/
def samples (recording : Recording) : List Sample := recording.drawn ++ recording.undrawn

/-- Whether nothing more is done. -/
def isOver (recording : Recording) : Bool :=
  match recording.stage with
  | .returned => true
  | .overflowed => true
  | _ => false

/-- The next section of a recording in a ledger; none after the last. -/
def advance? (ledger : Ledger) (recording : Recording) : Option (Ledger × Recording) :=
  match recording.stage with
  | .drawing (sample :: rest) =>
    let (ledger, isMeasured) := ledger.ticket
    let measured := if isMeasured then recording.measured ++ [sample] else recording.measured
    some (ledger, ⟨recording.drawn ++ [sample], measured, .drawing rest⟩)
  | .drawing [] =>
    let stage := if recording.measured.isEmpty then .returned else .labelling
    some (ledger, { recording with stage := stage })
  | .labelling =>
    some (ledger.countLabels recording.measured, { recording with stage := .querying })
  | .querying =>
    some (ledger.countQueries recording.measured, { recording with stage := .dating })
  | .dating =>
    some (ledger.countSeconds recording.measured, { recording with stage := .sending })
  | .sending =>
    match Traffic.ofSamples? recording.measured with
    | some traffic =>
      some (ledger.addSent traffic.sent, { recording with stage := .receiving traffic.received })
    | none => some (ledger, { recording with stage := .overflowed })
  | .receiving bytes => some (ledger.addReceived bytes, { recording with stage := .returned })
  | .returned => none
  | .overflowed => none

end Recording

/-! ## The end of a period -/

namespace Ledger

/-- The section on the tracks of the labels: the instant histograms start anew. -/
def restartTracks (ledger : Ledger) : Ledger :=
  { ledger with
    tracks := ledger.tracks.map Track.restart
    instantTotal := Histogram.empty }

/-- The section on the time series. -/
def publish (ledger : Ledger) (points : List (String × SeriesPoint)) : Ledger :=
  { ledger with
    series := points.foldl (fun series point => addPoint series point.1 point.2) ledger.series }

/-- The end of a period is its two sections without a break. -/
theorem endPeriod_eq (ledger : Ledger) (timestamp : UInt64) (took : TimeSpan)
    (previous : Counts) :
    (ledger.endPeriod timestamp took previous).1 =
      ledger.restartTracks.publish
        (ledger.pointsOf timestamp took (ledger.row took previous)) := rfl

end Ledger

/-! ## All parties -/

/-- A ledger, the recordings in it, and the points that the reporter has still to publish. -/
structure Desk where
  ledger : Ledger
  recordings : List Recording
  unpublished : Option (List (String × SeriesPoint))
  deriving DecidableEq, Repr

/-- Whose section is next. -/
inductive Desk.Move where
  | advance (index : Nat)
  | endPeriod (timestamp : UInt64) (took : TimeSpan) (previous : Counts)
  | publish
  deriving DecidableEq, Repr

namespace Desk

/-- A desk at which nothing was done, with the batches that are to be recorded. -/
def start (burnIn : Nat) (batches : List Measurements) : Desk :=
  ⟨Ledger.create burnIn, batches.map Recording.start, none⟩

/-- One section of one party; none if that party has nothing to do. -/
def step? (move : Move) (desk : Desk) : Option Desk :=
  match move with
  | .advance index => do
    let recording ← desk.recordings[index]?
    let (ledger, next) ← recording.advance? desk.ledger
    return { desk with ledger := ledger, recordings := desk.recordings.set index next }
  | .endPeriod timestamp took previous =>
    match desk.unpublished with
    | some _ => none
    | none =>
      let points := desk.ledger.pointsOf timestamp took (desk.ledger.row took previous)
      some { desk with ledger := desk.ledger.restartTracks, unpublished := some points }
  | .publish => do
    let points ← desk.unpublished
    return { desk with ledger := desk.ledger.publish points, unpublished := none }

end Desk

end LoadBench
