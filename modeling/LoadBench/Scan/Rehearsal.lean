/-
  LoadBench.Scan.Rehearsal

  A scan whose workers follow a script.  The script is played while the scan
  waits for its next item: its cues are items, failures, and what the workers do
  in the meantime.  A script ends where the input ends, and a repeated scan plays
  one script for each pass.

  Before the workers could keep the scan waiting they are let loose: from then
  on they receive and acknowledge by themselves, and the script says nothing
  about them any more.  So a rehearsal never stands still, and what the scan does
  up to there depends on the script alone.
-/

import LoadBench.Dispatch

namespace LoadBench

/-! ## Scripts and what is noted -/

/-- One cue of a script. -/
inductive Cue (α : Type) where
  | item (item : α)
  /-- The next item cannot be read. -/
  | unreadable (message : String)
  /-- The scan is to stop. -/
  | cancel
  /-- The worker of a queue takes a batch. -/
  | receive (queue : Nat)
  /-- It acknowledges one of the batches it took. -/
  | acknowledge (queue : Nat)
  /-- It acknowledges without a batch. -/
  | stray (queue : Nat)
  /-- It is gone for good. -/
  | leave (queue : Nat)
  /-- The channels are looked at. -/
  | look
  deriving DecidableEq, Repr

/-- What came of a cue for an acknowledgment. -/
inductive AckOutcome where
  | sent
  /-- The worker is gone. -/
  | gone
  /-- The worker has acknowledged all it took. -/
  | nothing
  /-- No other acknowledgment has room. -/
  | full
  /-- It would leave open which acknowledgment the scan takes. -/
  | busy
  deriving DecidableEq, Repr

/-- What is noted about a cue. -/
inductive Entry (α : Type) where
  | cancelled
  | received (queue : Nat) (receipt : Channel.Receipt (Batch α))
  | acknowledged (queue : Nat) (outcome : AckOutcome)
  | stray (queue : Nat) (sent : Bool)
  | left (queue : Nat) (done : Bool)
  /-- How many batches and how many acknowledgments wait in each queue. -/
  | seen (queued acks : List Nat)
  /-- The cue came when the workers had been let loose. -/
  | loose
  deriving DecidableEq, Repr

/-- A pass over the input that is there to be had: its script, or why there is none. -/
abbrev Pass (α : Type) := Except Fault (List (Cue α))

/-- A worker of a rehearsal, the only one of its queue. -/
structure Player (α : Type) where
  /-- The batches it has taken, the last one first. -/
  taken : List (Batch α)
  /-- How many of them it has not acknowledged. -/
  unacknowledged : Nat
  deriving DecidableEq, Repr

/-! ## The state -/

/-- A rehearsal. -/
structure Rehearsal (α : Type) where
  dispatch : Dispatch α
  /-- What is left of the present script. -/
  script : List (Cue α)
  /-- The passes that are left. -/
  passes : List (Pass α)
  /-- Whether the scan is to stop. -/
  stopped : Bool
  /-- The worker of each queue. -/
  players : List (Player α)
  /-- How many batches have been handed over. -/
  handOvers : Nat
  /-- How many acknowledgments have been sent. -/
  acksSent : Nat
  /-- How many of them were for no batch. -/
  strays : Nat
  /-- Whether a worker has left. -/
  hasLeaver : Bool
  /-- Whether the workers have been let loose. -/
  isLoose : Bool
  /-- How often an item was asked for. -/
  itemCalls : Nat
  /-- What was noted, the last entry first. -/
  notes : List (Entry α)

namespace Rehearsal

variable {α : Type}

/-- A rehearsal at its start. -/
def start (plan : ScanPlan) (routing : Routing α) (script : List (Cue α)) (passes : List (Pass α))
    (stopped : Bool) : Rehearsal α where
  dispatch :=
    { scan := Scan.start plan routing
      depot := Depot.create plan.queues plan.slots 1 }
  script := script
  passes := passes
  stopped := stopped
  players := List.replicate plan.queues ⟨[], 0⟩
  handOvers := 0
  acksSent := 0
  strays := 0
  hasLeaver := false
  isLoose := false
  itemCalls := 0
  notes := []

/-- Notes an entry. -/
def note (rehearsal : Rehearsal α) (entry : Entry α) : Rehearsal α :=
  { rehearsal with notes := entry :: rehearsal.notes }

/-- Lets the workers loose. -/
def letLoose (rehearsal : Rehearsal α) : Rehearsal α := { rehearsal with isLoose := true }

/-- Lets the workers loose if something holds. -/
def letLooseIf (rehearsal : Rehearsal α) (condition : Bool) : Rehearsal α :=
  if condition then rehearsal.letLoose else rehearsal

/-- The rehearsal with a changed depot. -/
def withDepot (rehearsal : Rehearsal α) (depot : Depot α) : Rehearsal α :=
  { rehearsal with dispatch := { rehearsal.dispatch with depot } }

/-- Goes on with an answer. -/
def answer (rehearsal : Rehearsal α) (reply : Reply α) : Rehearsal α :=
  { rehearsal with dispatch := rehearsal.dispatch.answer reply }

/-- The worker of a queue. -/
def player (rehearsal : Rehearsal α) (queue : Nat) : Player α :=
  rehearsal.players.getD queue ⟨[], 0⟩

/-- Whether the worker of a queue is still there. -/
def isHere (rehearsal : Rehearsal α) (queue : Nat) : Bool :=
  (rehearsal.dispatch.depot.channels[queue]?.map Channel.isHeld).getD false

/-- How many acknowledgments wait in each queue. -/
def acks (rehearsal : Rehearsal α) : List Nat := rehearsal.dispatch.depot.channels.map Channel.acks

/-- Whether acknowledgments wait in any queue but one. -/
def acksElsewhere (rehearsal : Rehearsal α) (queue : Nat) : Bool :=
  (rehearsal.acks.set queue 0).any (0 < ·)

/-! ## What workers do -/

/-- The worker of a queue takes a batch. -/
def receive (rehearsal : Rehearsal α) (queue : Nat) :
    Rehearsal α × Channel.Receipt (Batch α) :=
  let (depot, receipt) := rehearsal.dispatch.depot.receive queue 0
  let rehearsal := rehearsal.withDepot depot
  match receipt with
  | .received batch =>
    ({ rehearsal with
        players := rehearsal.players.modify queue fun player =>
          ⟨batch :: player.taken, player.unacknowledged + 1⟩ }, receipt)
  | _ => (rehearsal, receipt)

/-- An acknowledgment is sent from a queue. -/
def sendAck (rehearsal : Rehearsal α) (queue : Nat) : Rehearsal α :=
  { rehearsal.withDepot (rehearsal.dispatch.depot.acknowledge queue 0).1 with
    acksSent := rehearsal.acksSent + 1 }

/-- The worker of a queue acknowledges one of its batches. -/
def acknowledge (rehearsal : Rehearsal α) (queue : Nat) : Rehearsal α :=
  { rehearsal.sendAck queue with
    players := rehearsal.players.modify queue fun player =>
      { player with unacknowledged := player.unacknowledged - 1 } }

/-- Whether the acknowledgments of a queue leave no room for another. -/
def isFullOfAcks (rehearsal : Rehearsal α) (queue : Nat) : Bool :=
  match rehearsal.dispatch.depot.channels[queue]? with
  | some channel => channel.capacity ≤ channel.acks
  | none => false

/-- What a cue for an acknowledgment comes to. -/
def ackOutcome (rehearsal : Rehearsal α) (queue : Nat) : AckOutcome :=
  if ¬rehearsal.isHere queue then .gone
  else if (rehearsal.player queue).unacknowledged = 0 then .nothing
  else if rehearsal.isFullOfAcks queue then .full
  else if rehearsal.acksElsewhere queue ∨ rehearsal.hasLeaver then .busy
  else .sent

/-- A worker acknowledges without a batch. -/
def sendStray (rehearsal : Rehearsal α) (queue : Nat) : Rehearsal α :=
  { rehearsal.sendAck queue with strays := rehearsal.strays + 1 }

/-- Whether a worker may acknowledge without a batch: every batch has been acknowledged, all
workers are there, and no acknowledgment waits. -/
def allowsStray (rehearsal : Rehearsal α) : Bool :=
  rehearsal.handOvers + rehearsal.strays ≤ rehearsal.acksSent && !rehearsal.hasLeaver &&
    rehearsal.acks.all (· = 0)

/-- Whether the worker of a queue may leave. -/
def allowsLeave (rehearsal : Rehearsal α) (queue : Nat) : Bool :=
  !rehearsal.hasLeaver && !rehearsal.acksElsewhere queue

/-- Plays a cue that gives no item. -/
def act (rehearsal : Rehearsal α) (cue : Cue α) : Rehearsal α :=
  if rehearsal.isLoose then rehearsal.note .loose
  else
    match cue with
    | .receive queue =>
      let (rehearsal, receipt) := rehearsal.receive queue
      rehearsal.note (.received queue receipt)
    | .acknowledge queue =>
      let outcome := rehearsal.ackOutcome queue
      (if outcome = .sent then rehearsal.acknowledge queue else rehearsal).note
        (.acknowledged queue outcome)
    | .stray queue =>
      let allowed := rehearsal.allowsStray
      (if allowed then rehearsal.sendStray queue else rehearsal).note (.stray queue allowed)
    | .leave queue =>
      let allowed := rehearsal.allowsLeave queue
      (if allowed then
        { rehearsal.withDepot (rehearsal.dispatch.depot.drop queue 0) with hasLeaver := true }
      else rehearsal).note (.left queue allowed)
    | .look =>
      rehearsal.note (.seen (rehearsal.dispatch.depot.channels.map Channel.queued) rehearsal.acks)
    | _ => rehearsal

/-- The worker of a queue, let loose, goes on as long as it can, for `fuel` steps at most. -/
def serveQueue : Nat → Nat → Rehearsal α → Rehearsal α
  | 0, _, rehearsal => rehearsal
  | fuel + 1, queue, rehearsal =>
    if ¬rehearsal.isHere queue then rehearsal
    else if 0 < (rehearsal.player queue).unacknowledged then
      if rehearsal.isFullOfAcks queue then rehearsal
      else serveQueue fuel queue (rehearsal.acknowledge queue)
    else
      match rehearsal.receive queue with
      | (rehearsal, .received _) => serveQueue fuel queue rehearsal
      | (rehearsal, _) => rehearsal

/-- All workers, let loose, go on as long as they can: a batch is received and acknowledged, so
two steps for each batch that was handed over are enough. -/
def serveQueues (rehearsal : Rehearsal α) : Rehearsal α :=
  (List.range rehearsal.players.length).foldl
    (fun rehearsal queue => serveQueue (2 * rehearsal.handOvers + 1) queue rehearsal) rehearsal

/-! ## What the scan needs -/

/-- Plays a script up to the next item. -/
def play (rehearsal : Rehearsal α) : List (Cue α) → Rehearsal α
  | [] =>
    let scan := rehearsal.dispatch.scan
    let isLast := !scan.plan.isRepeated || scan.passItems = 0
    { rehearsal.letLooseIf isLast with script := [] }.answer (.item none)
  | .item item :: rest =>
    let scan := rehearsal.dispatch.scan
    let isLast := 0 < scan.plan.limit && scan.itemsRead + 1 = scan.plan.limit
    { rehearsal.letLooseIf isLast with script := rest }.answer (.item (some item))
  | .unreadable message :: rest =>
    { rehearsal.letLoose with script := rest }.answer (.unreadable ⟨.decode, message⟩)
  | .cancel :: rest =>
    play ({ rehearsal with stopped := true }.letLoose.note .cancelled) rest
  | cue :: rest => play (rehearsal.act cue) rest

/-- Starts the next pass, if there is one. -/
def nextPass (rehearsal : Rehearsal α) : Rehearsal α :=
  match rehearsal.passes with
  | [] => rehearsal.letLoose.answer (.rewound false)
  | .error fault :: rest =>
    { rehearsal.letLoose with passes := rest }.answer (.unreadable fault)
  | .ok script :: rest =>
    { rehearsal with passes := rest, script := script }.answer (.rewound true)

/-- Counts a batch that is about to be handed over, before which the workers are let loose if the
scan could have to wait for them. -/
def handOver (rehearsal : Rehearsal α) : Rehearsal α :=
  { rehearsal with handOvers := rehearsal.handOvers + 1 }.letLooseIf
    (rehearsal.dispatch.scan.plan.creditLimit + rehearsal.acksSent ≤ rehearsal.handOvers + 1)

/-- Answers what the scan needs; nothing once it has returned. -/
def step? (rehearsal : Rehearsal α) : Option (Rehearsal α) :=
  let serve (rehearsal : Rehearsal α) : Rehearsal α :=
    match rehearsal.dispatch.serve? rehearsal.dispatch.depot.firstReady with
    | some dispatch => { rehearsal with dispatch }
    | none => rehearsal.letLoose
  match rehearsal.dispatch.scan.phase, rehearsal.dispatch.scan.request? with
  | _, none => none
  | _, some .stop => some (rehearsal.answer (.stop rehearsal.stopped))
  | _, some .item =>
    some ({ rehearsal with itemCalls := rehearsal.itemCalls + 1 }.play rehearsal.script)
  | _, some .rewind => some rehearsal.nextPass
  | .drawing _ _, some .emptyBatch => some (serve rehearsal.handOver)
  | _, some (.acknowledgment _) =>
    some (serve (if rehearsal.isLoose then rehearsal.serveQueues else rehearsal))
  | _, some _ => some (serve rehearsal)

/-- Answers what the scan needs until it returns, `fuel` times at most. -/
def runFor : Nat → Rehearsal α → Rehearsal α
  | 0, rehearsal => rehearsal
  | fuel + 1, rehearsal =>
    match rehearsal.step? with
    | some next => runFor fuel next
    | none => rehearsal

/-- How many cues there are in all scripts. -/
def cues (rehearsal : Rehearsal α) : Nat :=
  rehearsal.script.length +
    (rehearsal.passes.map fun pass => match pass with | .ok script => script.length | _ => 0).foldr (· + ·) 0

/-- Plays to the end. A round takes at most eight answers, an acknowledgment two, and there is a
round for each item and each end of a script, and an acknowledgment for each batch and each
cue. -/
def run (rehearsal : Rehearsal α) : Rehearsal α :=
  rehearsal.runFor
    (16 * (rehearsal.cues + rehearsal.passes.length + rehearsal.players.length + 8))

/-! ## The outcome -/

/-- What was noted, in order. -/
def log (rehearsal : Rehearsal α) : List (Entry α) := rehearsal.notes.reverse

/-- The batches a worker got in the end: what it took, and what waits unless it has left. -/
def Player.delivered (player : Player α) (channel : Channel (Batch α)) : List (Batch α) :=
  player.taken.reverse ++ if channel.isHeld then channel.queue else []

/-- Whether it is settled what the workers get. It is not where a fault of the dispatch itself met
workers let loose, for then it depends on how far they had come. -/
def isSettled (rehearsal : Rehearsal α) : Bool :=
  match rehearsal.dispatch.scan.result? with
  | some (.error fault) => fault.fault.kind != FaultKind.internal || !rehearsal.isLoose
  | _ => true

/-- The items the workers of each queue got in the end, batch by batch, if that is settled. -/
def delivered? (rehearsal : Rehearsal α) : Option (List (List (List α))) :=
  if rehearsal.isSettled then
    some (List.zipWith (fun player channel => (Player.delivered player channel).map Batch.items)
      rehearsal.players rehearsal.dispatch.depot.channels)
  else none

end Rehearsal

end LoadBench
