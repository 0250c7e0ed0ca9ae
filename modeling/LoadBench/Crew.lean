/-
  LoadBench.Crew

  The workers of a run.  A worker receives a batch from its queue, runs its job
  unless the run is over, records what was measured, gives the batch back to the
  pool and acknowledges it.  A fault ends the run, but not the worker, which goes
  on to acknowledge what it receives until its queue is closed and empty.  A
  worker that panics acknowledges its batch too, and is gone.

  `Worker.step?` makes one step of one worker on the floor that all of them
  share; a worker that has to wait makes none.  Which worker makes the next step
  is left open.
-/

import LoadBench.Alarm
import LoadBench.Depot
import LoadBench.Handler
import LoadBench.Ledger
import LoadBench.Settings

namespace LoadBench

/-- What the workers share. -/
structure Floor (α ω : Type) where
  depot : Depot α
  alarm : Alarm
  ledger : Ledger
  surroundings : Surroundings ω

/-- Where a worker stands. -/
inductive WorkerStage (α τ : Type) where
  /-- About to be prepared. -/
  | starting
  | receiving
  /-- About to look whether the run is over. -/
  | holding (batch : Batch α)
  | working (batch : Batch α) (job : τ)
  /-- About to record what a batch measured. -/
  | recording (batch : Batch α) (measured : Measurements)
  /-- About to give a batch back to the pool. -/
  | releasing (batch : Batch α)
  /-- About to acknowledge a batch. -/
  | crediting
  /-- About to acknowledge the batch of a job that panicked. -/
  | unwinding
  /-- About to drop its endpoint, for its job panicked. -/
  | leaving
  /-- About to let go of what it has, for its queue is closed and empty. -/
  | closing
  | exited
  | panicked

/-- A worker. -/
structure Worker (α κ τ : Type) where
  post : Post
  /-- The queue that serves the worker. -/
  queue : Nat
  /-- Which endpoint of that queue is the worker's. -/
  endpoint : Nat
  /-- What its handler keeps for it. -/
  kept : κ
  stage : WorkerStage α τ

/-- A worker that panicked, as a fault. -/
def panicFault (worker : Nat) : Fault := ⟨.internal, "worker " ++ Nat.repr worker ++ " panicked"⟩

/-- Workers that panicked, as a fault. -/
def panicsFault (workers : Nat) : Fault := ⟨.internal, Nat.repr workers ++ " workers panicked"⟩

namespace Floor

variable {α ω : Type}

/-- Raises a fault. -/
def raise (floor : Floor α ω) (fault : Fault) : Floor α ω :=
  { floor with alarm := floor.alarm.raise fault }

/-- Raises a fault if there is one. -/
def raise? (floor : Floor α ω) (fault : Option Fault) : Floor α ω :=
  match fault with
  | some fault => floor.raise fault
  | none => floor

/-- The floor with a changed world. -/
def withWorld (floor : Floor α ω) (world : ω) : Floor α ω :=
  { floor with surroundings := { floor.surroundings with world } }

end Floor

namespace Worker

variable {α κ τ ω : Type}

/-- Whether a worker makes no more steps. -/
def isDone (worker : Worker α κ τ) : Bool :=
  match worker.stage with
  | .exited | .panicked => true
  | _ => false

/-- Whether a worker has panicked and is gone. -/
def hasPanicked (worker : Worker α κ τ) : Bool :=
  match worker.stage with
  | .panicked => true
  | _ => false

/-- The worker at another stage. -/
def goTo (worker : Worker α κ τ) (stage : WorkerStage α τ) : Worker α κ τ := { worker with stage }

/-- Acknowledges a batch and goes on to a stage; nothing if no acknowledgment has room. -/
def acknowledge? (worker : Worker α κ τ) (floor : Floor α ω) (next : WorkerStage α τ) :
    Option (Worker α κ τ × Floor α ω) :=
  match floor.depot.acknowledge worker.queue worker.endpoint with
  | (depot, .sent) => some (worker.goTo next, { floor with depot })
  | _ => none

/-- The floor without the worker's endpoint. -/
def dropEndpoint (worker : Worker α κ τ) (floor : Floor α ω) : Floor α ω :=
  { floor with depot := floor.depot.drop worker.queue worker.endpoint }

/-- The worker panics: it raises a fault, and has its batch still to acknowledge. -/
def panic (worker : Worker α κ τ) (floor : Floor α ω) : Worker α κ τ × Floor α ω :=
  (worker.goTo .unwinding, floor.raise (panicFault worker.post.worker))

/-- Makes one step of the job of a batch. -/
def work (handler : Handler α κ τ ω) (clock : Clock) (worker : Worker α κ τ)
    (batch : Batch α) (job : τ) (floor : Floor α ω) : Worker α κ τ × Floor α ω :=
  let (surroundings, progress) := handler.step clock job floor.surroundings
  let floor := { floor with surroundings }
  match progress with
  | .going job => (worker.goTo (.working batch job), floor)
  | .done measured => (worker.goTo (.recording batch measured), floor)
  | .failed fault => (worker.goTo (.releasing batch), floor.raise fault)
  | .panicked => worker.panic floor

/-- Makes one step; nothing if the worker has to wait or makes no more steps. -/
def step? (handler : Handler α κ τ ω) (clock : Clock) (worker : Worker α κ τ)
    (floor : Floor α ω) : Option (Worker α κ τ × Floor α ω) :=
  match worker.stage with
  | .starting =>
    let (world, kept, fault) := handler.prepare worker.kept worker.post floor.surroundings.world
    -- A worker that could not be prepared still empties its queue.
    some ({ worker with kept, stage := .receiving }, (floor.withWorld world).raise? fault)
  | .receiving =>
    match floor.depot.receive worker.queue worker.endpoint with
    | (depot, .received batch) => some (worker.goTo (.holding batch), { floor with depot })
    | (_, .exhausted) => some (worker.goTo .closing, floor)
    | _ => none
  | .holding batch =>
    if floor.alarm.isRaised then some (worker.goTo (.releasing batch), floor)
    else
      let job := handler.start worker.kept batch worker.post.loadEnabled
        floor.surroundings.limit.isLimited
      some (worker.goTo (.working batch job), floor)
  | .working batch job => some (worker.work handler clock batch job floor)
  | .recording batch measured =>
    match floor.ledger.record measured with
    | (ledger, true) => some (worker.goTo (.releasing batch), { floor with ledger })
    | (ledger, false) => some (worker.panic { floor with ledger })
  | .releasing batch =>
    -- The batch is in the pool before the scan can learn that it is free.
    some (worker.goTo .crediting, { floor with depot := floor.depot.release batch })
  | .crediting => worker.acknowledge? floor .receiving
  -- The batch of a panicked job is lost to the pool, but the scan does not wait for it.
  | .unwinding => worker.acknowledge? floor .leaving
  | .leaving => some (worker.goTo .panicked, worker.dropEndpoint floor)
  | .closing =>
    let (world, kept) := handler.finish worker.kept floor.surroundings.world
    some ({ worker with kept, stage := .exited }, worker.dropEndpoint (floor.withWorld world))
  | .exited => none
  | .panicked => none

end Worker

/-- All workers of a run and their floor. -/
structure Crew (α κ τ ω : Type) where
  workers : List (Worker α κ τ)
  floor : Floor α ω

namespace Crew

variable {α κ τ ω : Type}

/-- How many of the workers each queue serves, the workers being assigned in turn. -/
def endpoints (queues workers : Nat) : List Nat :=
  (List.range queues).map fun queue => ceilDiv (workers - queue) queues

/-- The workers at their start. -/
def hire (handler : Handler α κ τ ω) (queues workers : Nat) (loadEnabled : Bool) :
    List (Worker α κ τ) :=
  (List.range workers).map fun worker =>
    { post := ⟨worker, workers, loadEnabled⟩
      queue := worker % queues
      endpoint := worker / queues
      kept := handler.idle
      stage := .starting }

/-- A crew at its start, the queues of the floor being shared out among its workers. There is none
without a queue. -/
def start (handler : Handler α κ τ ω) (workers : Nat) (loadEnabled : Bool)
    (floor : Floor α ω) : Except Fault (Crew α κ τ ω) :=
  let queues := floor.depot.channels.length
  if queues = 0 then .error noQueuesFault
  else
    .ok
      { workers := hire handler queues workers loadEnabled
        floor := { floor with depot := floor.depot.assign (endpoints queues workers) } }

/-- How many workers there are. -/
def size (crew : Crew α κ τ ω) : Nat := crew.workers.length

/-- Whether no worker makes any more steps. -/
def isDone (crew : Crew α κ τ ω) : Bool := crew.workers.all Worker.isDone

/-- Whether all workers that have ended have ended well. -/
def joined (crew : Crew α κ τ ω) : Except Fault Unit :=
  match crew.workers.countP Worker.hasPanicked with
  | 0 => .ok ()
  | panicked => .error (panicsFault panicked)

/-- Makes one step of a worker. -/
def step? (handler : Handler α κ τ ω) (clock : Clock) (index : Nat) (crew : Crew α κ τ ω) :
    Option (Crew α κ τ ω) :=
  match crew.workers[index]? with
  | none => none
  | some worker =>
    (worker.step? handler clock crew.floor).map fun (worker, floor) =>
      ⟨crew.workers.set index worker, floor⟩

/-- Makes one step of the first worker that can make one. -/
def stepAny? (handler : Handler α κ τ ω) (clock : Clock) (crew : Crew α κ τ ω) :
    Option (Crew α κ τ ω) :=
  (List.range crew.size).findSome? fun index => crew.step? handler clock index

/-- Makes steps as long as any worker can make one, `fuel` steps at most. -/
def runFor (handler : Handler α κ τ ω) (clock : Clock) : Nat → Crew α κ τ ω → Crew α κ τ ω
  | 0, crew => crew
  | fuel + 1, crew =>
    match crew.stepAny? handler clock with
    | some next => runFor handler clock fuel next
    | none => crew

/-- How many steps a crew makes at most, given how many steps the jobs of all waiting batches take
together: seven around each job, and two for each worker. -/
def stepsFor (crew : Crew α κ τ ω) (jobSteps : Nat) : Nat :=
  let batches := (crew.floor.depot.channels.map fun channel => channel.queue.length).foldr (· + ·) 0
  jobSteps + 7 * batches + 3 * crew.size

end Crew

end LoadBench
