/-
  LoadBench.Proofs.Run.Layout

  How the workers of a run are spread over its queues.  The workers take the queues
  in turn, so a queue has one worker for each time that its turn has come
  (`Crew.served_hire`).  Settings that have been accepted have no more queues than
  workers: then every queue has a worker and a slot for each of its workers, no queue
  has two workers more than another, and no worker is left out (`Run.LaidOut`).
-/

import LoadBench.Proofs.Run.Frugal
import Mathlib.Data.Nat.ModEq

namespace LoadBench

variable {α κ τ ω φ : Type}

/-! ## Taking turns -/

/-- Once more a turn is reached exactly at the next number with the remainder of the queue. -/
theorem ceilDiv_succ_sub {queue queues : Nat} (hqueue : queue < queues) (workers : Nat) :
    ceilDiv (workers + 1 - queue) queues =
      ceilDiv (workers - queue) queues + if workers % queues = queue then 1 else 0 := by
  by_cases hbefore : workers < queue
  · -- The queue has not had its first turn.
    have hmod : workers % queues ≠ queue := by
      rw [Nat.mod_eq_of_lt (Nat.lt_trans hbefore hqueue)]
      exact Nat.ne_of_lt hbefore
    rw [if_neg hmod, Nat.sub_eq_zero_of_le (Nat.succ_le_of_lt hbefore),
      Nat.sub_eq_zero_of_le (Nat.le_of_lt hbefore)]
    rfl
  · have hle : queue ≤ workers := Nat.le_of_not_lt hbefore
    have hturn : queues ∣ workers - queue + queues ↔ workers % queues = queue := by
      rw [Nat.dvd_add_self_right, ← Nat.modEq_iff_dvd' hle, Nat.ModEq, Nat.mod_eq_of_lt hqueue]
      exact eq_comm
    have hnext : workers - queue + queues = workers - queue + queues - 1 + 1 := by omega
    have hsum : workers + 1 - queue + queues - 1 = workers - queue + queues - 1 + 1 := by omega
    rw [ceilDiv, ceilDiv, hsum, Nat.succ_div, ← hnext]
    simp only [hturn]

/-- Of numbers that are taken in turn, a queue gets as many as it has turns. -/
theorem countP_mod_eq {queue queues : Nat} (hqueue : queue < queues) (workers : Nat) :
    ((List.range workers).countP fun worker => worker % queues = queue) =
      ceilDiv (workers - queue) queues := by
  induction workers with
  | zero =>
    rw [Nat.zero_sub, ceilDiv, Nat.zero_add, Nat.div_eq_of_lt (by omega)]
    rfl
  | succ workers ih =>
    rw [List.range_succ, List.countP_append, List.countP_singleton, ih, ceilDiv_succ_sub hqueue]
    simp only [decide_eq_true_eq]

/-! ## Workers of queues -/

namespace Crew

/-- How many workers a queue serves. -/
def served (crew : Crew α κ τ ω) (queue : Nat) : Nat :=
  crew.workers.countP fun worker => worker.queue = queue

/-- A queue serves as many workers as it has endpoints. -/
theorem served_hire {crew : Crew α κ τ ω} {handler : Handler α κ τ ω} {queues workers : Nat}
    {loadEnabled : Bool} (hworkers : crew.workers = hire handler queues workers loadEnabled)
    {queue : Nat} (hqueue : queue < queues) :
    crew.served queue = ceilDiv (workers - queue) queues := by
  rw [served, hworkers, hire, List.countP_map]
  exact countP_mod_eq hqueue workers

/-- Every worker is served by one of the queues. -/
theorem sum_served {crew : Crew α κ τ ω} {queues : Nat}
    (h : ∀ worker ∈ crew.workers, worker.queue < queues) :
    ∑ queue ∈ Finset.range queues, crew.served queue = crew.workers.length :=
  sum_countP_eq h

end Crew

/-! ## The layout of a run -/

namespace Run

variable {workload : Workload α κ τ ω φ} {settings : Settings} {run first : Run α κ τ ω φ}

/-- How a run is laid out: its queues, and the workers that they serve. -/
structure LaidOut (settings : Settings) (run : Run α κ τ ω φ) : Prop where
  queues_pos : 1 ≤ settings.queueCount
  slots_pos : 1 ≤ settings.workersPerQueue
  capacities_eq : settings.channelCapacities =
    List.replicate settings.queueCount settings.workersPerQueue
  /-- Each queue has a channel with as many slots for batches, and for acknowledgments. -/
  channels_eq : run.crew.floor.depot.channels.map Channel.capacity = settings.channelCapacities
  /-- The workers take the queues in turn. -/
  places_eq : run.crew.workers.map Worker.queue =
    (List.range settings.workers).map settings.queueOf
  /-- Each worker that a queue serves reads it at an endpoint. -/
  endpoints_eq : ∀ queue channel, run.crew.floor.depot.channels[queue]? = some channel →
    channel.endpoints = List.replicate (run.crew.served queue) true
  served_pos : ∀ queue < settings.queueCount, 1 ≤ run.crew.served queue
  served_le : ∀ queue < settings.queueCount, run.crew.served queue ≤ settings.workersPerQueue
  /-- No queue serves two workers more than another. -/
  served_even : ∀ queue < settings.queueCount, ∀ other < settings.queueCount,
    run.crew.served queue ≤ run.crew.served other + 1
  sum_served : ∑ queue ∈ Finset.range settings.queueCount, run.crew.served queue =
    settings.workers

/-- The channel of a queue when a run starts. -/
theorem channel_start {world : ω} {input : φ}
    (h : start workload settings world input = .ok first) {queue : Nat}
    {channel : Channel (Batch α)}
    (hchannel : first.crew.floor.depot.channels[queue]? = some channel) :
    queue < settings.queueCount ∧
      channel = (Channel.create (Nat.max settings.workersPerQueue 1)).assign
        (ceilDiv (settings.workers - queue) settings.queueCount) := by
  have hwidth : first.crew.floor.depot.channels.length = settings.queueCount := (begins_start h).width
  obtain ⟨hlt, -⟩ := List.getElem?_eq_some_iff.mp hchannel
  rw [hwidth] at hlt
  refine ⟨hlt, ?_⟩
  unfold start at h
  split at h
  · cases h
  · next crew hcrew =>
    obtain rfl := Except.ok.inj h
    unfold Crew.start at hcrew
    dsimp only at hcrew
    split at hcrew
    · cases hcrew
    · obtain rfl := Except.ok.inj hcrew
      obtain ⟨created, workers, hcreated, hworkers, rfl⟩ :=
        List.getElem?_zipWith_eq_some.mp hchannel
      have hqueues : (floorOf (α := α) settings world).depot.channels.length =
        settings.queueCount := List.length_replicate
      rw [hqueues, Crew.getElem?_endpoints hlt] at hworkers
      rw [List.eq_of_mem_replicate (List.mem_of_getElem? hcreated), Option.some.inj hworkers]

/-- With settings that have been accepted a run starts, and every queue is served. -/
theorem laidOut_of_validate (workload : Workload α κ τ ω φ) (world : ω) (input : φ)
    (hvalid : settings.validate = .ok ()) :
    ∃ first, start workload settings world input = .ok first ∧ first.LaidOut settings := by
  obtain ⟨-, hqueues, hworkers⟩ := Settings.valid hvalid
  have hslots := workersPerQueue_pos hvalid
  obtain ⟨first, hstart⟩ := exists_start workload hqueues world input
  have hplaces := (chronicled_start hstart).places
  obtain ⟨-, -, hhired, -, -⟩ := start_eq hstart
  have hserved : ∀ queue < settings.queueCount,
      first.crew.served queue = ceilDiv (settings.workers - queue) settings.queueCount :=
    fun queue hqueue => Crew.served_hire hhired hqueue
  have hcapacities : settings.channelCapacities =
      List.replicate settings.queueCount settings.workersPerQueue := by
    have hmax : Nat.max settings.workersPerQueue 1 = settings.workersPerQueue :=
      Nat.max_eq_left hslots
    rw [Settings.channelCapacities, hmax]
  refine ⟨first, hstart,
    { queues_pos := hqueues
      slots_pos := hslots
      capacities_eq := hcapacities
      places_eq := hplaces
      channels_eq := ?_
      endpoints_eq := ?_
      served_pos := ?_
      served_le := ?_
      served_even := ?_
      sum_served := ?_ }⟩
  · rw [hcapacities, List.eq_replicate_iff, List.length_map]
    refine ⟨(begins_start hstart).width, List.forall_mem_map.mpr fun channel hchannel => ?_⟩
    obtain ⟨queue, hqueue⟩ := List.getElem?_of_mem hchannel
    obtain ⟨-, rfl⟩ := channel_start hstart hqueue
    -- A channel has one slot at least, and this one has as many as it was made for.
    exact (Nat.max_eq_left (Nat.le_max_right _ _)).trans (Nat.max_eq_left hslots)
  · intro queue channel hchannel
    obtain ⟨hqueue, rfl⟩ := channel_start hstart hchannel
    rw [hserved queue hqueue]
    rfl
  · intro queue hqueue
    -- There is a worker with the number of the queue.
    rw [hserved queue hqueue, Nat.succ_le_iff, lt_ceilDiv_iff hqueues]
    omega
  · intro queue hqueue
    have hmax : Nat.max settings.queueCount 1 = settings.queueCount := Nat.max_eq_left hqueues
    -- No queue has more turns than the first one.
    rw [hserved queue hqueue, Settings.workersPerQueue, hmax]
    exact ceilDiv_mono (Nat.sub_le _ _) _
  · intro queue hqueue other hother
    -- Two queues are less than one round apart.
    rw [hserved queue hqueue, hserved other hother, ← ceilDiv_add_self _ hqueues]
    exact ceilDiv_mono (by omega) _
  · rw [Crew.sum_served, ← List.length_map, hplaces, List.length_map, List.length_range]
    intro worker hworker
    have hmem : worker.queue ∈ first.crew.workers.map Worker.queue := List.mem_map_of_mem hworker
    rw [hplaces] at hmem
    obtain ⟨number, -, hnumber⟩ := List.mem_map.mp hmem
    exact hnumber ▸ Nat.mod_lt _ hqueues

/-- Eight workers, and three queues. -/
def threeQueues : Settings := { Settings.standard 8 with queues := .count 3 }

/-- Two queues serve three workers each, and the third the other two. -/
theorem laidOut_threeQueues : ∃ first,
    start selfRouted threeQueues [] (NumberInput.ofText []) = .ok first ∧
      [0, 1, 2].map first.crew.served = [3, 3, 2] ∧ first.LaidOut threeQueues := by
  obtain ⟨first, hfirst, hlaidOut⟩ := laidOut_of_validate selfRouted []
    (NumberInput.ofText []) (show threeQueues.validate = .ok () from rfl)
  obtain rfl := Except.ok.inj
    ((show start selfRouted threeQueues [] (NumberInput.ofText []) = .ok _ from rfl).symm.trans hfirst)
  exact ⟨_, rfl, rfl, hlaidOut⟩

end Run

end LoadBench
