/-
  LoadBench.Proofs.Run.Stock

  Where the batches of a run are.  Each batch that was built is in one place: in
  the pool, with the scan, in a channel, with a worker that has not given it back,
  or lost with a job that panicked (`Run.batches`).  As long as the scan goes on
  none is missing.

  So a batch is built only where all others are in use.  Those with the scan, in
  the channels and with the workers are charged to the credit of the scan, apart
  from the ones being filled; hence the bound of `Stocked`, and the pool has room
  for whatever is given back.
-/

import LoadBench.Proofs.Crew.Ending
import LoadBench.Proofs.Exchange.Credit
import LoadBench.Proofs.Run.Start
import LoadBench.Proofs.Scan.Stock

namespace LoadBench

variable {α κ τ ω φ : Type}

/-! ## The pool -/

namespace BatchPool

variable {pool : BatchPool α}

/-- A batch that is drawn has waited, or none did and it is built. -/
theorem acquire_cases (pool : BatchPool α) : pool.acquire.1.capacity = pool.capacity ∧
    (pool.acquire.1.available + 1 = pool.available ∧ pool.acquire.1.created = pool.created ∨
      pool.available = 0 ∧ pool.acquire.1.available = 0 ∧
        pool.acquire.1.created = pool.created + 1) := by
  unfold acquire available
  split
  · next batch rest hfree =>
    rw [hfree]
    exact ⟨rfl, Or.inl ⟨rfl, rfl⟩⟩
  · next hfree =>
    rw [hfree]
    exact ⟨rfl, Or.inr ⟨rfl, rfl, rfl⟩⟩

/-- Where there is room, a batch that is given back waits behind the others, without its items. -/
theorem release_eq (hroom : pool.available < pool.capacity) (batch : Batch α) :
    pool.release batch = { pool with free := pool.free ++ [batch.clear] } :=
  if_pos hroom

end BatchPool

/-! ## The workers -/

/-- Whether a worker has a batch that it has not given back. -/
def WorkerStage.owns : WorkerStage α τ → Bool
  | .holding _ | .working _ _ | .recording _ _ | .releasing _ => true
  | _ => false

/-- Whether the batch of a worker is lost, for its job has panicked. -/
def WorkerStage.hasLost : WorkerStage α τ → Bool
  | .unwinding | .leaving | .panicked => true
  | _ => false

namespace Worker

variable {handler : Handler α κ τ ω} {clock : Clock} {worker worker' : Worker α κ τ}
  {floor floor' : Floor α ω}

/-- A worker that has a batch has it still to acknowledge. -/
theorem holdsBatch_of_owns (h : worker.stage.owns = true) : worker.holdsBatch = true := by
  rw [holdsBatch]
  cases hstage : worker.stage <;> simp [hstage, WorkerStage.owns] at h ⊢

theorem isDone_of_holdsBatch (h : worker.holdsBatch = true) : worker.isDone = false := by
  rw [holdsBatch] at h
  rw [isDone]
  cases hstage : worker.stage <;> simp [hstage] at h ⊢

/-- What becomes of the batches in a step of a worker: none is made, and one that is received, given
back or lost is elsewhere than before. -/
structure Balances (worker : Worker α κ τ) (depot : Depot α) (worker' : Worker α κ τ)
    (depot' : Depot α) : Prop where
  created_eq : depot'.pool.created = depot.pool.created
  capacity_eq : depot'.pool.capacity = depot.pool.capacity
  batches_eq : depot'.pool.available + depot'.waiting + worker'.stage.owns.toNat +
      worker'.stage.hasLost.toNat =
    depot.pool.available + depot.waiting + worker.stage.owns.toNat + worker.stage.hasLost.toNat
  lost_le : worker.stage.hasLost.toNat ≤ worker'.stage.hasLost.toNat

/-- A worker loses no batch but to a panic, where the pool has room for what it gives back. -/
theorem balances_of_step (h : Step handler clock worker floor worker' floor')
    (hroom : worker.stage.owns = true →
      floor.depot.pool.available < floor.depot.pool.capacity) :
    Balances worker floor.depot worker' floor'.depot := by
  have hwaiting := Crew.waiting_of_effect
    (show Effect worker (Crew.mk [worker] floor).floor.depot worker' floor'.depot from
      effect_of_step h)
  -- Most steps leave the batch of the worker, the channels and the pool as they are.
  have hstays : ∀ {stage : WorkerStage α τ}, worker.stage = stage →
      worker'.stage.owns = stage.owns → worker'.stage.hasLost = stage.hasLost →
        worker'.stage.rank ≠ 8 → floor'.depot.pool = floor.depot.pool →
          Balances worker floor.depot worker' floor'.depot := by
    rintro stage rfl howns hlost hrank hpool
    rcases hwaiting with ⟨-, hreceived, -⟩ | ⟨-, hsame⟩
    · exact absurd hreceived hrank
    · exact ⟨by rw [hpool], by rw [hpool], by rw [hpool, howns, hlost, hsame], by rw [hlost]⟩
  cases h with
  | receive hstage hchannel hholds hqueue =>
    rcases hwaiting with ⟨-, -, hless⟩ | ⟨hkept, -⟩
    · refine ⟨rfl, rfl, ?_, by rw [hstage]; exact Nat.zero_le _⟩
      rw [hstage]
      show floor.depot.pool.available + (floor.depot.setChannel worker.queue _).waiting + 1 + 0 =
        floor.depot.pool.available + floor.depot.waiting + 0 + 0
      dsimp only at hless
      omega
    · exact absurd ⟨hstage, _, rfl⟩ hkept
  | crash hstage | overflow hstage =>
    refine ⟨rfl, rfl, ?_, by rw [hstage]; exact Nat.zero_le _⟩
    rw [hstage]
    rfl
  | @release batch hstage =>
    have hback := BatchPool.release_eq (hroom (by rw [hstage]; rfl)) batch
    refine ⟨?_, ?_, ?_, by rw [hstage]; exact Nat.zero_le _⟩
    · show (floor.depot.pool.release batch).created = _
      rw [hback]
    · show (floor.depot.pool.release batch).capacity = _
      rw [hback]
    · show (floor.depot.pool.release batch).available + floor.depot.waiting + 0 + 0 = _
      rw [hback, hstage, BatchPool.available, List.length_append, List.length_singleton]
      show _ = floor.depot.pool.free.length + floor.depot.waiting + 1 + 0
      omega
  | prepare hstage => exact hstays hstage rfl rfl nofun (by rw [depot_raise?]; rfl)
  | acknowledge hstage =>
    rcases hstage with ⟨hstage, rfl⟩ | ⟨hstage, rfl⟩ <;> exact hstays hstage rfl rfl nofun rfl
  | exhaust hstage | skip hstage | start hstage | go hstage | finish hstage | fail hstage
  | record hstage | leave hstage | close hstage => exact hstays hstage rfl rfl nofun rfl

end Worker

namespace Crew

/-- How many workers have a batch that they have not given back. -/
def owned (crew : Crew α κ τ ω) : Nat := crew.workers.countP fun worker => worker.stage.owns

/-- How many batches are lost, each with a job that has panicked. -/
def lost (crew : Crew α κ τ ω) : Nat := crew.workers.countP fun worker => worker.stage.hasLost

variable {crew : Crew α κ τ ω}

/-- A batch that a worker has is one it has still to acknowledge, at a queue that there is. -/
theorem owned_le (h : crew.Staffed) {queues : Nat}
    (hwidth : crew.floor.depot.channels.length = queues) :
    crew.owned ≤ ∑ queue ∈ Finset.range queues, crew.heldOn queue := by
  refine countP_le_sum fun worker hworker howns => ?_
  have hholds := Worker.holdsBatch_of_owns howns
  have hheld := h.held worker hworker (Worker.isDone_of_holdsBatch hholds)
  refine ⟨hholds, ?_⟩
  by_contra hge
  rw [Depot.holds, List.getElem?_eq_none (by omega)] at hheld
  cases hheld

end Crew

namespace Run

variable {workload : Workload α κ τ ω φ} {clock : Clock} {run next : Run α κ τ ω φ}
  {plan : ScanPlan} {routing : Routing α}

/-- How many batches are somewhere in a run, or lost. -/
def batches (run : Run α κ τ ω φ) : Nat :=
  run.crew.floor.depot.pool.available + run.scan.batches + run.crew.floor.depot.waiting +
    run.crew.owned + run.crew.lost

/-- Where the batches of a run are, and how many there are. -/
structure Stocked (plan : ScanPlan) (run : Run α κ τ ω φ) : Prop where
  capacity_eq : run.crew.floor.depot.pool.capacity =
    plan.queues * plan.slots * (ScanPlan.creditFactor + 1) + plan.queues
  /-- No batch is in two places. -/
  counted : run.batches ≤ run.crew.floor.depot.pool.created
  /-- No batch is missing while the scan goes on. -/
  complete : run.stage = .scanning → run.scan.result? = none →
    run.batches = run.crew.floor.depot.pool.created
  bounded : run.crew.floor.depot.pool.created ≤
    plan.creditLimit + plan.queues + 1 + run.crew.lost

/-- The pool has room for every batch that a worker has. -/
theorem Stocked.room (h : run.Stocked plan) (hpos : 0 < plan.queues * plan.slots)
    {worker : Worker α κ τ} (hworker : worker ∈ run.crew.workers)
    (howns : worker.stage.owns = true) :
    run.crew.floor.depot.pool.available < run.crew.floor.depot.pool.capacity := by
  have howned : 0 < run.crew.owned := List.countP_pos_iff.mpr ⟨worker, hworker, howns⟩
  have hcounted := h.counted
  have hbounded := h.bounded
  rw [h.capacity_eq, ScanPlan.creditFactor]
  rw [ScanPlan.creditLimit, ScanPlan.creditFactor] at hbounded
  unfold batches at hcounted
  -- What is lost counts on both sides.
  omega

/-- Where the pool is empty, all batches are with the scan, in the channels, with the workers, or
lost: no more than the credit allows, with one that is being filled for each queue. -/
theorem Kept.batches_of_draw (h : run.Kept plan routing) (hstage : run.stage = .scanning)
    (hrequest : run.scan.request? = some .emptyBatch)
    (hnone : run.crew.floor.depot.pool.available = 0) :
    run.batches ≤ plan.creditLimit + plan.queues + run.crew.lost := by
  obtain ⟨exchange, hkept, hpicture⟩ := h.pictured (Or.inl hstage)
  have hwidth := hkept.linked.width
  rw [← hpicture.scan_eq] at hrequest
  have houtstanding := hkept.outstanding_eq (Scan.result?_of_request? hrequest)
  have hlimit := le_trans hkept.reached hkept.bounded
  have hscan := Scan.batches_of_draw (hkept.sound hrequest) hrequest
  have hwaiting : run.crew.floor.depot.waiting =
      ∑ queue ∈ Finset.range plan.queues, exchange.queuedOn queue := by
    rw [Depot.waiting, sum_map_eq_sum_range, ← hpicture.channels_eq, hwidth]
    rfl
  have howned : run.crew.owned ≤ ∑ queue ∈ Finset.range plan.queues, exchange.held queue := by
    rw [hpicture.channels_eq] at hwidth
    rw [Finset.sum_congr rfl fun queue _ => hpicture.held_eq queue]
    exact Crew.owned_le h.staffed hwidth
  simp only [Finset.sum_add_distrib] at houtstanding
  rw [batches, hnone, ← hpicture.scan_eq, hwaiting]
  omega

/-! ## Steps -/

/-- What an answer to the scan takes from the pool, and what it brings into the channels. -/
theorem Answers.stock {request : Request α} {reply : Reply α} {depot : Depot α} {input : φ}
    (h : Answers workload clock run request reply depot input) :
    depot.waiting = run.crew.floor.depot.waiting + reply.sent ∧
      depot.pool.capacity = run.crew.floor.depot.pool.capacity ∧
      (depot.pool.available + reply.drawn = run.crew.floor.depot.pool.available ∧
          depot.pool.created = run.crew.floor.depot.pool.created ∨
        request = .emptyBatch ∧ reply.drawn = 1 ∧ run.crew.floor.depot.pool.available = 0 ∧
          depot.pool.available = 0 ∧
          depot.pool.created = run.crew.floor.depot.pool.created + 1) := by
  -- A channel that changes without its batches leaves as many waiting.
  have hset : ∀ {queue : Nat} {channel : Channel (Batch α)},
      run.crew.floor.depot.channels[queue]? = some channel → ∀ other,
        (run.crew.floor.depot.setChannel queue other).waiting + channel.queue.length =
          run.crew.floor.depot.waiting + other.queue.length :=
    fun hchannel _ => Crew.waiting_set hchannel (by rfl)
  cases h with
  | draw =>
    obtain ⟨hcapacity, hdrawn | hbuilt⟩ :=
      BatchPool.acquire_cases run.crew.floor.depot.pool
    · exact ⟨rfl, hcapacity, Or.inl hdrawn⟩
    · exact ⟨rfl, hcapacity, Or.inr ⟨rfl, rfl, hbuilt⟩⟩
  | @send queue batch channel hchannel =>
    refine ⟨?_, rfl, Or.inl ⟨rfl, rfl⟩⟩
    have hwaiting := hset hchannel (channel.offer batch).1
    rcases channel.offer_cases batch with hoffer | ⟨offer, hoffer, hne, -⟩
    · rw [hoffer] at hwaiting ⊢
      rw [List.length_append, List.length_singleton] at hwaiting
      dsimp only [Reply.sent] at hwaiting ⊢
      omega
    · rw [hoffer] at hwaiting ⊢
      have hkept : (Reply.offered offer : Reply α).sent = 0 := by
        cases offer with
        | accepted => exact absurd rfl hne
        | full | refused => rfl
      dsimp only at hwaiting ⊢
      rw [hkept]
      omega
  | credit hchannel | desert hchannel =>
    exact ⟨Nat.add_right_cancel (hset hchannel _), rfl, Or.inl ⟨rfl, rfl⟩⟩
  | @rewind _ again => cases again <;> exact ⟨rfl, rfl, Or.inl ⟨rfl, rfl⟩⟩
  | stop | item | ended | unreadable | goOn => exact ⟨rfl, rfl, Or.inl ⟨rfl, rfl⟩⟩

/-- A scan that is answered keeps count of the batches. -/
theorem Stocked.turn (h : run.Stocked plan) (hkept : run.Kept plan routing)
    (hstage : run.stage = .scanning) {request : Request α} {reply : Reply α} {depot : Depot α}
    {input : φ} (hrequest : run.scan.request? = some request)
    (hanswers : Answers workload clock run request reply depot input) :
    (run.served reply depot input).Stocked plan := by
  obtain ⟨hadmits, -, -⟩ := hkept.turn hstage hrequest hanswers
  obtain ⟨exchange, hexchange, hpicture⟩ := hkept.pictured (Or.inl hstage)
  obtain ⟨hwaiting, hcapacity, hpool⟩ := hanswers.stock
  have hgoing := Scan.result?_of_request? hrequest
  have hcomplete := h.complete hstage hgoing
  have hcounted := h.counted
  have hbounded := h.bounded
  have hscan := hrequest
  rw [← hpicture.scan_eq] at hscan
  have hresume := Scan.batches_resume (hexchange.sound hscan) hscan hadmits
  rw [hpicture.scan_eq] at hresume
  have hserved : (run.served reply depot input).batches = depot.pool.available +
      (run.scan.resume reply).batches + depot.waiting + run.crew.owned + run.crew.lost := rfl
  -- A batch is built only where the pool has none, and then the others are counted.
  have hbuilt : depot.pool.created ≤ plan.creditLimit + plan.queues + 1 + run.crew.lost := by
    rcases hpool with ⟨-, hsame⟩ | ⟨rfl, -, hnone, -, hmore⟩
    · omega
    · have hdraw := hkept.batches_of_draw hstage hrequest hnone
      omega
  refine ⟨hcapacity.trans h.capacity_eq, ?_, ?_, hbuilt⟩
  · show _ ≤ depot.pool.created
    unfold batches at hcounted
    omega
  · intro _ hafter
    show _ = depot.pool.created
    have hall := hresume.resolve_right fun hcontra => hcontra.1 hafter
    unfold batches at hcomplete
    omega

/-- A run that goes on without its scan keeps count of the batches, if it loses none of them. -/
theorem Stocked.behind (h : run.Stocked plan) (hcrew : next.crew.workers = run.crew.workers)
    (hpool : next.crew.floor.depot.pool = run.crew.floor.depot.pool)
    (hwaiting : next.crew.floor.depot.waiting = run.crew.floor.depot.waiting)
    (hscan : next.scan = run.scan) (hstage : next.stage ≠ .scanning) : next.Stocked plan := by
  have hbatches : next.batches = run.batches := by
    rw [batches, batches, hpool, hwaiting, hscan, Crew.owned, Crew.owned, Crew.lost, Crew.lost,
      hcrew]
  refine ⟨?_, ?_, fun hscanning => absurd hscanning hstage, ?_⟩
  · rw [hpool]
    exact h.capacity_eq
  · rw [hbatches, hpool]
    exact h.counted
  · rw [hpool, Crew.lost, hcrew]
    exact h.bounded

/-- A worker that makes a step keeps count of the batches. -/
theorem Stocked.work (h : run.Stocked plan) (hpos : 0 < plan.queues * plan.slots) {index : Nat}
    {worker worker' : Worker α κ τ} {floor : Floor α ω}
    (hworker : run.crew.workers[index]? = some worker)
    (hstep : Worker.Step workload.handler clock worker run.crew.floor worker' floor) :
    Stocked plan { run with crew := ⟨run.crew.workers.set index worker', floor⟩ } := by
  obtain ⟨hcreated, hcapacity, hbatches, hlost⟩ :=
    Worker.balances_of_step hstep (h.room hpos (List.mem_of_getElem? hworker))
  have howned := countP_set_add hworker worker' fun worker => worker.stage.owns
  have hlosses := countP_set_add hworker worker' fun worker => worker.stage.hasLost
  have hsame : batches { run with crew := ⟨run.crew.workers.set index worker', floor⟩ } =
      run.batches := by
    unfold batches Crew.owned Crew.lost
    dsimp only
    omega
  refine ⟨hcapacity.trans h.capacity_eq, ?_, ?_, ?_⟩
  · rw [hsame]
    exact le_trans h.counted (le_of_eq hcreated.symm)
  · intro hstage hgoing
    rw [hsame]
    exact (h.complete hstage hgoing).trans hcreated.symm
  · have hbounded := h.bounded
    show floor.depot.pool.created ≤ _ + (run.crew.workers.set index worker').countP _
    unfold Crew.lost at hbounded
    omega

/-- A step keeps count of the batches. -/
theorem stocked_step (h : run.Stocked plan) (hkept : run.Kept plan routing)
    (hpos : 0 < plan.queues * plan.slots) {move : Move}
    (hstep : Step workload clock run move next) : next.Stocked plan := by
  cases hstep with
  | turn hstage hrequest hanswers => exact h.turn hkept hstage hrequest hanswers
  | lose => exact h.behind rfl rfl (Crew.waiting_dropSenders _) rfl nofun
  | close => exact h.behind rfl rfl (Crew.waiting_dropSenders _) rfl nofun
  | join => exact h.behind rfl rfl rfl rfl nofun
  | scanned =>
    obtain ⟨hstage, hscan, hworkers, hdepot⟩ := run.scanned_eq
    exact h.behind hworkers (by rw [hdepot]) (by rw [hdepot]) hscan (by rw [hstage]; exact nofun)
  | work hworker hstep => exact h.work hpos hworker hstep

/-! ## The start -/

/-- A scan starts without batches. -/
theorem batches_start (plan : ScanPlan) (routing : Routing α) :
    (Scan.start plan routing).batches = 0 := by
  have hphase : (Scan.start plan routing).phase.batches = 0 := by
    unfold Scan.start
    dsimp only
    split
    · rfl
    · split <;> rfl
  rw [Scan.batches, hphase]
  show 0 + ((List.replicate plan.queues []).map List.length).sum + 0 = 0
  rw [List.map_replicate, List.sum_replicate]
  rfl

/-- A run starts with an empty pool. -/
theorem pool_start {settings : Settings} {world : ω} {input : φ}
    (h : start workload settings world input = .ok run) :
    run.crew.floor.depot.pool = BatchPool.empty settings.poolCapacity := by
  unfold start at h
  split at h
  · cases h
  · next crew hcrew =>
    obtain rfl := Except.ok.inj h
    unfold Crew.start at hcrew
    dsimp only at hcrew
    split at hcrew
    · cases hcrew
    · obtain rfl := Except.ok.inj hcrew
      rfl

/-- A run starts without batches. -/
theorem stocked_start {settings : Settings} {world : ω} {input : φ}
    (h : start workload settings world input = .ok run) (hshared : 0 < settings.workersPerQueue) :
    run.Stocked settings.plan := by
  have hbegins := begins_start h
  have hpool := pool_start h
  obtain ⟨-, -, hhired, -, -⟩ := start_eq h
  have hwaiting : run.crew.floor.depot.waiting = 0 := by
    refine List.sum_eq_zero fun length hlength => ?_
    obtain ⟨channel, hchannel, rfl⟩ := List.mem_map.mp hlength
    rw [(hbegins.fresh channel hchannel).queue_eq]
    rfl
  have hnobody : ∀ p : WorkerStage α τ → Bool, p .starting = false →
      run.crew.workers.countP (fun worker => p worker.stage) = 0 := by
    intro p hp
    refine List.countP_eq_zero.mpr fun worker hworker => ?_
    rw [hhired] at hworker
    obtain ⟨number, -, rfl⟩ := List.mem_map.mp hworker
    exact Bool.eq_false_iff.mp hp
  have hbatches : run.batches = 0 := by
    rw [batches, hbegins.scan_eq, batches_start, hpool, hwaiting, Crew.owned, Crew.lost,
      hnobody WorkerStage.owns rfl, hnobody WorkerStage.hasLost rfl]
    rfl
  have hslots : settings.plan.slots = settings.workersPerQueue := Nat.max_eq_left hshared
  refine ⟨?_, ?_, ?_, ?_⟩
  · have hcapacity : 1 ≤ settings.poolCapacity :=
      le_trans hbegins.queues_pos (Nat.le_add_left _ _)
    rw [hpool, hslots]
    exact Nat.max_eq_left hcapacity
  · rw [hbatches]
    exact Nat.zero_le _
  · intro _ _
    rw [hbatches, hpool]
    rfl
  · rw [hpool]
    exact Nat.zero_le _

end Run

end LoadBench
