/-
  LoadBench.Scan

  Reading items and spreading them in batches over queues, under a credit.

  A batch is outstanding from the moment it is handed over until its
  acknowledgment comes back, and no more than `ScanPlan.creditLimit` batches are
  outstanding.  A batch that finds its queue full waits in line; the head of a line
  goes out when an acknowledgment of its queue comes back.  At the
  end of the items, and also when one cannot be read, the batches that are not
  full are handed over and all acknowledgments are waited for.

  The scan is a machine that stops at each point where it needs something from
  outside: `Scan.request?` says what it needs, and `Scan.resume` goes on with the
  answer to the next such point.  Who answers, and when, is left open, so one
  definition serves every interleaving with the workers.
-/

import LoadBench.Batch
import LoadBench.Channel
import LoadBench.Fault
import LoadBench.Routing
import LoadBench.Settings

namespace LoadBench

/-! ## Plans, summaries and faults -/

/-- How often a scan reads its input, and what may stop it. -/
inductive ScanMode where
  /-- Once, until its end. -/
  | once
  /-- Again and again while a limit or a deadline asks for more. The scan is asked before each
  item whether it is to stop. -/
  | timed (hasDeadline : Bool)
  deriving DecidableEq, Repr

/-- What a scan is to do. -/
structure ScanPlan where
  queues : Nat
  /-- How many batches wait in one queue at most. -/
  slots : Nat
  /-- How many items a full batch has. -/
  batchSize : Nat
  /-- How many items are read at most; zero for no limit. -/
  limit : Nat
  mode : ScanMode
  deriving DecidableEq, Repr

namespace ScanPlan

/-- Outstanding batches for each slot of a queue. -/
def creditFactor : Nat := 3

/-- How many batches are outstanding at most. -/
def creditLimit (plan : ScanPlan) : Nat := plan.queues * plan.slots * creditFactor

/-- Whether the input is read again at its end, as long as it gives items. -/
def isRepeated (plan : ScanPlan) : Bool :=
  match plan.mode with
  | .once => false
  | .timed hasDeadline => 0 < plan.limit || hasDeadline

end ScanPlan

/-- What a scan has done. -/
structure ScanTally where
  itemsRead : Nat
  /-- How many batches went into a queue. -/
  dispatched : Nat
  /-- The most batches that were outstanding at one time. -/
  peak : Nat
  creditLimit : Nat
  /-- How many batches were outstanding when the scan returned. -/
  outstanding : Nat
  /-- How often the input was read again. -/
  rewinds : Nat
  deriving DecidableEq, Repr

/-- Why a scan does not end well. -/
inductive ScanFault where
  | emptyBatches
  | noQueues
  /-- The routing chose a queue that does not exist. -/
  | noSuchQueue (chosen queues : Nat)
  | unsendable (fault : SendFault)
  /-- All workers of a queue are gone. -/
  | deserted (queue outstanding : Nat)
  /-- An acknowledgment came that no batch waited for. -/
  | stray
  /-- An item could not be read, or the input could not be read again. -/
  | unreadable (fault : Fault)
  deriving DecidableEq, Repr

/-- A scan that does not end well, as a fault. -/
def ScanFault.fault : ScanFault → Fault
  | .emptyBatches => SettingsFault.emptyBatches.fault
  | .noQueues => noQueuesFault
  | .noSuchQueue chosen queues =>
    ⟨.internal, "indexer picked partition " ++ Nat.repr chosen ++ " of " ++ Nat.repr queues⟩
  | .unsendable fault => fault.fault
  | .deserted queue outstanding =>
    ⟨.internal, "workers of queue " ++ Nat.repr queue ++ " exited with " ++
      Nat.repr outstanding ++ " batches outstanding"⟩
  | .stray => ⟨.internal, "acknowledgment without an outstanding batch"⟩
  | .unreadable fault => fault

/-! ## The state -/

/-- What an acknowledgment is taken for. -/
inductive Purpose (α : Type) where
  /-- For an item to be read next. The scan goes on without one as long as it has credit. -/
  | reading
  /-- For a batch to be handed over, at the end of the items or before. -/
  | room (queue : Nat) (batch : Batch α) (ending : Bool)
  /-- For the scan to end without any outstanding batch. -/
  | drain
  deriving DecidableEq, Repr

/-- Where a scan stands. -/
inductive Phase (α : Type) where
  /-- Drawing the first batch of each queue. -/
  | opening
  /-- About to ask whether to stop. -/
  | checking
  | awaiting (purpose : Purpose α)
  /-- An acknowledgment came: the head of the line of its queue goes out. -/
  | resending (queue : Nat) (batch : Batch α) (purpose : Purpose α)
  | fetching
  /-- Drawing an empty batch in place of one that is to be handed over. -/
  | drawing (queue : Nat) (ending : Bool)
  | sending (queue : Nat) (batch : Batch α) (ending : Bool)
  | rewinding
  | returned (result : Except ScanFault ScanTally)

/-- A scan at a point where it needs something. -/
structure Scan (α : Type) where
  plan : ScanPlan
  routing : Routing α
  /-- The batch being filled for each queue. -/
  filling : List (Batch α)
  /-- The line of each queue: batches handed over that found no slot. -/
  waiting : List (List (Batch α))
  outstanding : Nat
  peak : Nat
  itemsRead : Nat
  dispatched : Nat
  rewinds : Nat
  /-- How many items the present pass over the input has given. -/
  passItems : Nat
  /-- Why the reading ended early, if it did. -/
  readFault : Option Fault
  phase : Phase α

/-- What a scan needs. -/
inductive Request (α : Type) where
  /-- An empty batch. -/
  | emptyBatch
  /-- Whether it is to stop. -/
  | stop
  /-- An acknowledgment of any queue; whether it waits until there is one. -/
  | acknowledgment (wait : Bool)
  /-- The next item. -/
  | item
  /-- The input from its start. -/
  | rewind
  /-- A slot in a queue. -/
  | send (queue : Nat) (batch : Batch α)
  deriving DecidableEq, Repr

/-- What a scan is answered. -/
inductive Reply (α : Type) where
  | emptyBatch (batch : Batch α)
  | stop (now : Bool)
  | acknowledged (queue : Nat)
  /-- No acknowledgment is there. -/
  | unacknowledged
  /-- All workers of a queue are gone, and their acknowledgments have been taken. -/
  | deserted (queue : Nat)
  /-- The next item, none at the end of the input. -/
  | item (item : Option α)
  | unreadable (fault : Fault)
  /-- Whether the input is read again. -/
  | rewound (again : Bool)
  | offered (offer : Channel.Offer)

namespace Scan

variable {α : Type}

/-- What the scan has done so far. -/
def summary (scan : Scan α) : ScanTally where
  itemsRead := scan.itemsRead
  dispatched := scan.dispatched
  peak := scan.peak
  creditLimit := scan.plan.creditLimit
  outstanding := scan.outstanding
  rewinds := scan.rewinds

/-- Whether there is no credit for another batch. -/
def isExhausted (scan : Scan α) : Bool := scan.plan.creditLimit ≤ scan.outstanding

/-- The batch being filled for a queue. -/
def batchOf (scan : Scan α) (queue : Nat) : Batch α := scan.filling.getD queue (Batch.new 0)

/-- The line of a queue. -/
def waitingOf (scan : Scan α) (queue : Nat) : List (Batch α) := scan.waiting.getD queue []

/-! ## The end -/

/-- Ends without more ado. -/
def fail (scan : Scan α) (fault : ScanFault) : Scan α :=
  { scan with phase := .returned (.error fault) }

/-- What the scan returns once nothing is outstanding. -/
def verdict (scan : Scan α) : Except ScanFault ScanTally :=
  match scan.readFault with
  | some fault => .error (.unreadable fault)
  | none => .ok scan.summary

/-- Waits until nothing is outstanding, and returns. -/
def drain (scan : Scan α) : Scan α :=
  if 0 < scan.outstanding then { scan with phase := .awaiting .drain }
  else { scan with phase := .returned scan.verdict }

/-- The first queue from `queue` on whose batch is not empty, of the batches from there on. -/
def firstFilled? : Nat → List (Batch α) → Option Nat
  | _, [] => none
  | queue, batch :: rest => if batch.isEmpty then firstFilled? (queue + 1) rest else some queue

/-- Hands over what has been filled for the queues from `queue` on, and drains. -/
def flushFrom (scan : Scan α) (queue : Nat) : Scan α :=
  match firstFilled? queue (scan.filling.drop queue) with
  | some next => { scan with phase := .drawing next true }
  | none => scan.drain

/-- Ends the reading. -/
def finish (scan : Scan α) : Scan α := scan.flushFrom 0

/-! ## The rounds -/

/-- Reads another item, unless there is a limit and it is reached. -/
def readMore (scan : Scan α) : Scan α :=
  if 0 < scan.plan.limit ∧ scan.itemsRead = scan.plan.limit then scan.finish
  else { scan with phase := .awaiting .reading }

/-- Starts a round. -/
def proceed (scan : Scan α) : Scan α :=
  match scan.plan.mode with
  | .once => scan.readMore
  | .timed _ => { scan with phase := .checking }

/-- Goes on behind a batch that has been handed over. -/
def handedOver (scan : Scan α) (queue : Nat) (ending : Bool) : Scan α :=
  if ending then scan.flushFrom (queue + 1) else scan.proceed

/-- Puts a batch at the end of the line of its queue. -/
def lineUp (scan : Scan α) (queue : Nat) (batch : Batch α) : Scan α :=
  { scan with waiting := scan.waiting.set queue (scan.waitingOf queue ++ [batch]) }

/-- Takes the credit for a batch, which goes out at once if no other waits in its line. -/
def charge (scan : Scan α) (queue : Nat) (batch : Batch α) (ending : Bool) : Scan α :=
  let charged : Scan α :=
    { scan with
      outstanding := scan.outstanding + 1
      peak := Nat.max scan.peak (scan.outstanding + 1) }
  -- A batch must not overtake those that wait in line.
  if (charged.waitingOf queue).isEmpty then { charged with phase := .sending queue batch ending }
  else (charged.lineUp queue batch).handedOver queue ending

/-- Hands over a batch, as soon as there is credit for it. -/
def handOver (scan : Scan α) (queue : Nat) (batch : Batch α) (ending : Bool) : Scan α :=
  if scan.isExhausted then { scan with phase := .awaiting (.room queue batch ending) }
  else scan.charge queue batch ending

/-- Goes on with what an acknowledgment was taken for. -/
def settle (scan : Scan α) : Purpose α → Scan α
  | .reading => { scan with phase := .fetching }
  | .room queue batch ending => scan.charge queue batch ending
  | .drain => scan.drain

/-- Gives the credit of an acknowledgment back, and sends the head of the line of its queue. -/
def acknowledge (scan : Scan α) (queue : Nat) (purpose : Purpose α) : Scan α :=
  if scan.outstanding = 0 then scan.fail .stray
  else
    let credited : Scan α := { scan with outstanding := scan.outstanding - 1 }
    match credited.waitingOf queue with
    | [] => credited.settle purpose
    -- The worker has made room in this queue, so the head of its line goes out first.
    | batch :: rest =>
      { credited with
        waiting := credited.waiting.set queue rest
        phase := .resending queue batch purpose }

/-- Puts the head of a line back: its queue is still full. -/
def putBack (scan : Scan α) (queue : Nat) (batch : Batch α) : Scan α :=
  { scan with waiting := scan.waiting.set queue (batch :: scan.waitingOf queue) }

/-- Counts a batch that went into a queue. -/
def countSent (scan : Scan α) : Scan α := { scan with dispatched := scan.dispatched + 1 }

/-- Puts an item into the batch of its queue. -/
def push (scan : Scan α) (item : α) : Scan α :=
  let counted : Scan α :=
    { scan with itemsRead := scan.itemsRead + 1, passItems := scan.passItems + 1 }
  -- Positions count from one, over all passes.
  let queue := scan.routing counted.itemsRead item
  if scan.filling.length ≤ queue then counted.fail (.noSuchQueue queue scan.filling.length)
  else
    let batch := (scan.batchOf queue).append item
    let filled : Scan α := { counted with filling := scan.filling.set queue batch }
    -- A full batch stays in its place until an empty one has been drawn for it.
    if scan.plan.batchSize ≤ batch.size then { filled with phase := .drawing queue false }
    else filled.proceed

/-- The input has ended: it is read again if that is wanted and this pass gave an item. -/
def passEnded (scan : Scan α) : Scan α :=
  if scan.plan.isRepeated ∧ 0 < scan.passItems then { scan with phase := .rewinding }
  else scan.finish

/-- Starts a new pass over the input. -/
def passStarted (scan : Scan α) : Scan α :=
  { scan with passItems := 0, rewinds := scan.rewinds + 1 }.proceed

/-! ## Requests and replies -/

/-- A scan at its start. -/
def start (plan : ScanPlan) (routing : Routing α) : Scan α where
  plan := plan
  routing := routing
  filling := []
  waiting := List.replicate plan.queues []
  outstanding := 0
  peak := 0
  itemsRead := 0
  dispatched := 0
  rewinds := 0
  passItems := 0
  readFault := none
  phase :=
    if plan.batchSize < 1 then .returned (.error .emptyBatches)
    else if plan.queues = 0 then .returned (.error .noQueues)
    else .opening

/-- What the scan needs to go on; nothing once it has returned. -/
def request? (scan : Scan α) : Option (Request α) :=
  match scan.phase with
  | .opening => some .emptyBatch
  | .checking => some .stop
  | .awaiting .reading => some (.acknowledgment scan.isExhausted)
  | .awaiting _ => some (.acknowledgment true)
  | .resending queue batch _ => some (.send queue batch)
  | .fetching => some .item
  | .drawing _ _ => some .emptyBatch
  | .sending queue batch _ => some (.send queue batch)
  | .rewinding => some .rewind
  | .returned _ => none

/-- What the scan has returned. -/
def result? (scan : Scan α) : Option (Except ScanFault ScanTally) :=
  match scan.phase with
  | .returned result => some result
  | _ => none

/-- Goes on with an answer to what was needed; any other answer changes nothing. -/
def resume (scan : Scan α) (reply : Reply α) : Scan α :=
  match scan.phase, reply with
  -- Every queue has a batch to fill before the first item is asked for.
  | .opening, .emptyBatch batch =>
    let drawn : Scan α := { scan with filling := scan.filling ++ [batch] }
    if drawn.filling.length = scan.plan.queues then drawn.proceed else drawn
  | .checking, .stop now => if now then scan.finish else scan.readMore
  | .awaiting purpose, .acknowledged queue => scan.acknowledge queue purpose
  | .awaiting .reading, .unacknowledged => scan.settle .reading
  | .awaiting _, .deserted queue => scan.fail (.deserted queue scan.outstanding)
  | .resending _ _ purpose, .offered .accepted => scan.countSent.settle purpose
  -- Only an acknowledgment without a received batch leaves the queue as full as before.
  | .resending queue batch purpose, .offered .full => (scan.putBack queue batch).settle purpose
  | .resending _ _ _, .offered (.refused fault) => scan.fail (.unsendable fault)
  | .fetching, .item (some item) => scan.push item
  | .fetching, .item none => scan.passEnded
  -- What has been read is delivered all the same; the fault is returned behind it.
  | .fetching, .unreadable fault => { scan with readFault := some fault }.finish
  | .drawing queue ending, .emptyBatch batch =>
    { scan with filling := scan.filling.set queue batch }.handOver queue (scan.batchOf queue) ending
  | .sending queue _ ending, .offered .accepted => scan.countSent.handedOver queue ending
  | .sending queue batch ending, .offered .full => (scan.lineUp queue batch).handedOver queue ending
  | .sending _ _ _, .offered (.refused fault) => scan.fail (.unsendable fault)
  | .rewinding, .rewound true => scan.passStarted
  | .rewinding, .rewound false => scan.finish
  | .rewinding, .unreadable fault => { scan with readFault := some fault }.finish
  | _, _ => scan

end Scan

end LoadBench
