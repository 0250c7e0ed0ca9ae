/-
  LoadBench.Proofs.Run.Frugal

  What a run makes of its batches, whatever its input and its schedule: it builds
  no more of them than can be under way at one time, it lets go of none that is
  given back, and each one it draws is empty (`Run.Frugal`).  So a batch that is
  used again brings none of its former items along.
-/

import LoadBench.Proofs.Run.Ending
import LoadBench.Proofs.Run.Shares
import LoadBench.Proofs.Run.Stock

namespace LoadBench

variable {α κ τ ω φ : Type}

namespace Run

variable {workload : Workload α κ τ ω φ} {settings : Settings} {run first : Run α κ τ ω φ}
  {occurrences : List Occurrence} {notes : List (Note α)} {routing : Routing α}

/-- What holds of the batches of a run at a moment, with all that is noted of it so far. -/
structure Frugal (settings : Settings) (notes : List (Note α)) (run : Run α κ τ ω φ) : Prop where
  /-- As many batches are built as can be outstanding, one for each queue that is being filled, and
  one that takes the place of another; and one more for each that is lost with a panicking job. -/
  built : run.crew.floor.depot.pool.created ≤
    3 * settings.queueCount * settings.workersPerQueue + settings.queueCount + 1 + run.crew.lost
  available : run.crew.floor.depot.pool.available ≤ run.crew.floor.depot.pool.created
  /-- The pool takes every batch that is given back. -/
  released : ∀ worker ∈ run.crew.workers, ∀ batch, worker.stage = .releasing batch →
    run.crew.floor.depot.pool.release batch =
      { run.crew.floor.depot.pool with free := run.crew.floor.depot.pool.free ++ [batch.clear] }
  /-- A batch that is drawn has no items. -/
  drawn : run.crew.floor.depot.pool.acquire.2.items = []
  /-- What the workers of a queue have received is what was read for it, in order and once. -/
  delivered : ∀ queue < settings.queueCount,
    (receivedFrom queue notes).flatMap Batch.items <+: readFor queue notes

/-- A queue has a worker. -/
theorem workersPerQueue_pos (hvalid : settings.validate = .ok ()) :
    0 < settings.workersPerQueue := by
  obtain ⟨-, hqueues, hworkers⟩ := Settings.valid hvalid
  have hmax : Nat.max settings.queueCount 1 = settings.queueCount := Nat.max_eq_left hqueues
  rw [Settings.workersPerQueue, hmax, ceilDiv]
  exact Nat.div_pos (by omega) hqueues

/-- Whatever occurs, a run keeps count of its batches. -/
theorem stocked_occur {plan : ScanPlan} (h : run.Stocked plan) (hkept : run.Kept plan routing)
    (hpos : 0 < plan.queues * plan.slots) {occurrence : Occurrence} {next : Run α κ τ ω φ}
    (hoccur : run.occur? workload occurrence = some next) : next.Stocked plan := by
  cases occurrence with
  | period timestamp took previous =>
    obtain rfl := Option.some.inj hoccur
    exact ⟨h.capacity_eq, h.counted, h.complete, h.bounded⟩
  | move clock move => exact stocked_step h hkept hpos (step?_sound hoccur)

theorem Chronicled.frugal (h : run.Chronicled settings routing notes)
    (hstocked : run.Stocked settings.plan) (hshared : run.Shared settings.plan routing notes)
    (hvalid : settings.validate = .ok ()) : run.Frugal settings notes := by
  have hworkers := workersPerQueue_pos hvalid
  have hslots : settings.plan.slots = settings.workersPerQueue := Nat.max_eq_left hworkers
  have hpos : 0 < settings.plan.queues * settings.plan.slots := by
    rw [hslots]
    exact Nat.mul_pos (Settings.valid hvalid).2.1 hworkers
  have hlimit : settings.plan.creditLimit =
      3 * settings.queueCount * settings.workersPerQueue := by
    rw [ScanPlan.creditLimit, hslots, ScanPlan.creditFactor, Nat.mul_comm, Nat.mul_assoc]
    rfl
  refine ⟨?_, ?_, ?_, BatchPool.items_acquire h.kept.clean, ?_⟩
  · rw [← hlimit]
    exact hstocked.bounded
  · have hcounted := hstocked.counted
    unfold batches at hcounted
    omega
  · intro worker hworker batch hstage
    have hroom := hstocked.room hpos hworker (by rw [hstage]; rfl)
    exact BatchPool.release_eq hroom batch
  · exact fun queue hqueue => hshared.received h.carried hqueue

/-- Whatever its input and its workers do, and whatever the schedule, a run is frugal. -/
theorem frugal_of_elapse (workload : Workload α κ τ ω φ) (world : ω) (input : φ)
    (hvalid : settings.validate = .ok ()) :
    ∃ first, start workload settings world input = .ok first ∧
      ∀ occurrences run, first.elapse? workload occurrences = some run →
        run.Frugal settings (first.chronicle workload occurrences) := by
  have hworkers := workersPerQueue_pos hvalid
  have hpos : 0 < settings.plan.queues * settings.plan.slots :=
    Nat.mul_pos (Settings.valid hvalid).2.1 (lt_of_lt_of_le hworkers (Nat.le_max_left _ _))
  obtain ⟨first, hstart⟩ := exists_start workload (Settings.valid hvalid).2.1 world input
  refine ⟨first, hstart, fun occurrences run helapse => ?_⟩
  have hnoted : run.Stocked settings.plan ∧
      run.Shared settings.plan (workload.routing settings.queueCount)
        ([] ++ first.chronicle workload occurrences) ∧
      run.Kept settings.plan (workload.routing settings.queueCount) := by
    refine follow?_noted
      (P := fun notes run => run.Stocked settings.plan ∧
        run.Shared settings.plan (workload.routing settings.queueCount) notes ∧
        run.Kept settings.plan (workload.routing settings.queueCount))
      (fun notes occurrence run next h hoccur => ?_) ?_ helapse
    · obtain ⟨hstocked, hshared, hkept⟩ := h
      exact ⟨stocked_occur hstocked hkept hpos hoccur, shared_occur hshared hkept hoccur,
        kept_occur hkept hoccur⟩
    · have hbegins := begins_start hstart
      exact ⟨stocked_start hstart hworkers, hbegins.shared, hbegins.kept⟩
  exact (chronicled_elapse hstart helapse).frugal hnoted.1 hnoted.2.1 hvalid

/-- Two workers with a queue each, and batches of two items. -/
def twoQueues : Settings :=
  { Settings.standard 2 with batchSize := 2, queues := .perWorker }

/-- Each number goes to the queue that it says. -/
def selfRouted : Workload Nat Unit NumberJob (List Post) NumberInput :=
  NumberRules.workload ⟨none, none, none⟩ fun _ _ number => number

/-- The credit is for six batches. Five are outstanding when the input ends, and the two that are
left are not full: the second of them is replaced before there is credit for it. -/
theorem frugal_twoQueues : ∃ first run,
    start selfRouted twoQueues [] (NumberInput.ofText "0 0 0 0 0 0 0 0 0 0 0 1".toList) =
        .ok first ∧
      first.elapse? selfRouted (inTurn (.main 0) 50) = some run ∧
      run.crew.floor.depot.pool.created = 3 * 2 * 1 + 2 + 1 ∧
      run.Frugal twoQueues (first.chronicle selfRouted (inTurn (.main 0) 50)) := by
  obtain ⟨first, hfirst, hfrugal⟩ := frugal_of_elapse selfRouted []
    (NumberInput.ofText "0 0 0 0 0 0 0 0 0 0 0 1".toList)
    (show twoQueues.validate = .ok () from rfl)
  obtain rfl := Except.ok.inj ((show start selfRouted twoQueues []
    (NumberInput.ofText "0 0 0 0 0 0 0 0 0 0 0 1".toList) = .ok _ from rfl).symm.trans hfirst)
  exact ⟨_, _, rfl, rfl, rfl, hfrugal (inTurn (.main 0) 50) _ rfl⟩

end Run

end LoadBench
