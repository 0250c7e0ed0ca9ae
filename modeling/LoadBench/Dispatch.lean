/-
  LoadBench.Dispatch

  A scan together with the depot it works with.

  `Dispatch.serve?` answers what the scan needs of channels and pool.  An
  acknowledgment may be taken of any queue that has one; which queue it is, is a
  choice from outside.  The other needs (the items, a rewind, whether to stop)
  are answered from outside by `Dispatch.answer`.
-/

import LoadBench.Depot
import LoadBench.Scan

namespace LoadBench

/-- A scan and its depot. -/
structure Dispatch (α : Type) where
  scan : Scan α
  depot : Depot α

namespace Dispatch

variable {α : Type}

/-- Goes on with an answer. -/
def answer (dispatch : Dispatch α) (reply : Reply α) : Dispatch α :=
  { dispatch with scan := dispatch.scan.resume reply }

/-- Draws an empty batch. -/
def draw (dispatch : Dispatch α) : Dispatch α :=
  let (depot, batch) := dispatch.depot.draw
  { dispatch with depot }.answer (.emptyBatch batch)

/-- Offers a batch to a queue. -/
def send? (dispatch : Dispatch α) (queue : Nat) (batch : Batch α) : Option (Dispatch α) :=
  (dispatch.depot.offer queue batch).map fun (depot, offer) =>
    { dispatch with depot }.answer (.offered offer)

/-- Takes an acknowledgment of a queue, if there is one or none will ever come. -/
def credit? (dispatch : Dispatch α) (queue : Nat) : Option (Dispatch α) :=
  match dispatch.depot.takeCredit queue with
  | some (depot, .taken) => some ({ dispatch with depot }.answer (.acknowledged queue))
  | some (depot, .lost) => some ({ dispatch with depot }.answer (.deserted queue))
  | _ => none

/-- Answers a need of the scan, with an acknowledgment of the queue `pick` if it needs one. None
if the scan has to wait, or needs what the depot does not have. -/
def serve? (dispatch : Dispatch α) (pick : Nat) : Option (Dispatch α) :=
  match dispatch.scan.request? with
  | some .emptyBatch => some dispatch.draw
  | some (.send queue batch) => dispatch.send? queue batch
  | some (.acknowledgment wait) =>
    -- As long as there is something to take, the scan takes it, whether it has to or not.
    if dispatch.depot.isReady then dispatch.credit? pick
    else if wait then none
    else some (dispatch.answer .unacknowledged)
  | _ => none

end Dispatch

end LoadBench
