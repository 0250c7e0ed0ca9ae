/-
  LoadBench.Row.Playback

  Issuing the commands of the rows of a batch, one after another.  A command is
  executed, and then the pages behind its cursor are read one by one, each page
  naming the next.  Every call is measured: the execution under the label of the
  row, the reading of a page under a label of its own.

  A playback is a machine that stops where it needs something from outside: the
  leave of the rate limit before each call, and the call itself.
-/

import LoadBench.Handler
import LoadBench.Row.Command
import LoadBench.Target

namespace LoadBench

/-- Where a playback stands. -/
inductive PlaybackStage where
  /-- About to ask the rate limit for the leave to make a call. -/
  | reserving (call : Call)
  | calling (call : Call)
  | ended (result : Except Fault Measurements)

/-- The rows of a batch while they are played. -/
structure Playback where
  worker : Nat
  /-- Whether the worker has a connection. -/
  connected : Bool
  /-- Whether the rate of calls is limited. -/
  limited : Bool
  /-- Whether a row that is no command is skipped and a call that fails is only measured; both end
  the run otherwise. -/
  lenient : Bool
  /-- The rows that have not been looked at. -/
  rows : List (List UInt8)
  measured : Measurements
  stage : PlaybackStage

namespace Playback

/-- The label of the calls that read a page. -/
def pageLabel : String := Label.cursorRead.name

/-- A worker without a connection, as a fault. -/
def unconnected (worker : Nat) : Fault :=
  ⟨.setup, "worker " ++ Nat.repr worker ++ " has no connection"⟩

/-- A call that failed, as a fault of its command. -/
def callFault (command : Command) (fault : Fault) : Fault :=
  ⟨.execution, command.name ++ " failed: " ++ fault.display ++ ". Issued command: " ++
    command.display⟩

/-- Ends the playback. -/
def finish (playback : Playback) (result : Except Fault Measurements) : Playback :=
  { playback with stage := .ended result }

/-- Goes on to a call. -/
def issue (playback : Playback) (call : Call) : Playback :=
  { playback with stage := if playback.limited then .reserving call else .calling call }

/-- Goes on to the first command of the rows, or to the end. -/
def nextRow (playback : Playback) : List (List UInt8) → Playback
  | [] => { playback with rows := [] }.finish (.ok playback.measured)
  | row :: rest =>
    match Row.command row with
    | .error fault =>
      if playback.lenient then nextRow playback rest
      else { playback with rows := rest }.finish (.error fault.fault)
    | .ok command =>
      if playback.connected then { playback with rows := rest }.issue (.execute command)
      else { playback with rows := rest }.finish (.error (unconnected playback.worker))

/-- A playback of rows, gone on to the first call. -/
def start (worker : Nat) (connected limited lenient : Bool) (rows : List (List UInt8)) : Playback :=
  nextRow
    { worker, connected, limited, lenient, rows, measured := Measurements.empty,
      stage := .ended (.ok Measurements.empty) } rows

/-- The label a call is measured under, and how many bytes it sends. -/
def account : Call → String × UInt64
  | .execute command => (command.label, UInt64.ofNat command.size)
  | .readCursor _ _ => (pageLabel, 0)

/-- What a call measured, given the response if there was one. -/
def sampleOf (clock : Clock) (call : Call) (response : Option Response) : Sample where
  label := (account call).1
  query := call.command.query
  second := clock.second
  latency := clock.latency
  failed := response.isNone
  timedOut := (response.map Response.timedOut).getD false
  received := (response.map Response.received).getD 0
  sent := (account call).2

/-- One more sample. -/
def measure (playback : Playback) (sample : Sample) : Playback :=
  { playback with measured := playback.measured.add sample }

/-- Goes on with a response to a call. -/
def answered (playback : Playback) (clock : Clock) (call : Call) (response : Response) : Playback :=
  let playback := playback.measure (sampleOf clock call (some response))
  match response.next? with
  | some cursor => playback.issue (.readCursor call.command cursor)
  | none => playback.nextRow playback.rows

/-- Goes on behind a call that failed. -/
def failed (playback : Playback) (clock : Clock) (call : Call) (fault : Fault) : Playback :=
  let playback := playback.measure (sampleOf clock call none)
  if playback.lenient then playback.nextRow playback.rows
  else playback.finish (.error (callFault call.command fault))

/-- Makes one step. -/
def step {ω : Type} (target : Target ω) (clock : Clock) (playback : Playback)
    (surroundings : Surroundings ω) : Surroundings ω × Progress Playback :=
  match playback.stage with
  | .ended (.ok measured) => (surroundings, .done measured)
  | .ended (.error fault) => (surroundings, .failed fault)
  | .reserving call =>
    ({ surroundings with limit := (surroundings.limit.reserve 1 clock.now).1 },
      .going { playback with stage := .calling call })
  | .calling call =>
    let (world, outcome) := target.call playback.worker call surroundings.world
    ({ surroundings with world },
      match outcome with
      | .answered response => .going (playback.answered clock call response)
      | .failed fault => .going (playback.failed clock call fault)
      | .panicked => .panicked)

end Playback

/-- What a worker that plays rows keeps. -/
structure Seat where
  worker : Nat
  connected : Bool
  deriving DecidableEq, Repr

namespace Row

/-- A worker that cannot connect, as a fault. -/
def connectFault (post : Post) (fault : Fault) : Fault :=
  ⟨.setup, "worker " ++ Nat.repr post.worker ++ "/" ++ Nat.repr post.workers ++
    " cannot connect: " ++ fault.display⟩

/-- Plays batches of rows on a system under load. -/
def handler {ω : Type} (target : Target ω) (lenient : Bool) :
    Handler (List UInt8) Seat Playback ω where
  idle := ⟨0, false⟩
  prepare seat post world :=
    if post.loadEnabled then
      match target.connect post.worker world with
      | (world, some fault) =>
        (world, ⟨post.worker, seat.connected⟩, some (connectFault post fault))
      | (world, none) => (world, ⟨post.worker, true⟩, none)
    else (world, ⟨post.worker, seat.connected⟩, none)
  start seat batch loadEnabled limited :=
    Playback.start seat.worker seat.connected limited lenient
      (if loadEnabled then batch.items else [])
  step := Playback.step target
  finish seat world :=
    if seat.connected then (target.close seat.worker world, { seat with connected := false })
    else (world, seat)

end Row

end LoadBench
