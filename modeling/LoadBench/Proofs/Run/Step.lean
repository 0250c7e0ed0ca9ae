/-
  LoadBench.Proofs.Run.Step

  The steps of a run.  `Run.Step` lists what one step can do: the scan takes an
  answer, or its reader is gone; the run goes on behind the scan; or a worker
  makes a step.  `Run.Answers` lists the answers, from outside or from the depot.
  `step?_sound` says that there are no other steps.
-/

import LoadBench.Proofs.Crew.Staff
import LoadBench.Proofs.Trace
import LoadBench.Run

namespace LoadBench

variable {α κ τ ω φ : Type}

namespace Run

/-- The run whose scan has been answered, with what is left of its depot and its input. -/
def served (run : Run α κ τ ω φ) (reply : Reply α) (depot : Depot α) (input : φ) : Run α κ τ ω φ :=
  { run.withFloor { run.crew.floor with depot } with scan := run.scan.resume reply, input }

/-- What the scan of a run is answered, and what is then left of the depot and the input. -/
inductive Answers (workload : Workload α κ τ ω φ) (clock : Clock) (run : Run α κ τ ω φ) :
    Request α → Reply α → Depot α → φ → Prop where
  | stop : Answers workload clock run .stop (.stop (run.isStopped clock)) run.crew.floor.depot
      run.input
  | item {input : φ} {item : α} (hnext : workload.next run.input = (input, .item item)) :
      Answers workload clock run .item (.item (some item)) run.crew.floor.depot input
  | ended {input : φ} (hnext : workload.next run.input = (input, .ended)) :
      Answers workload clock run .item (.item none) run.crew.floor.depot input
  | unreadable {input : φ} {fault : Fault}
      (hnext : workload.next run.input = (input, .unreadable fault)) :
      Answers workload clock run .item (.unreadable fault) run.crew.floor.depot input
  | rewind {input : φ} {again : Except Fault Bool}
      (hagain : workload.again run.input = (input, again)) :
      Answers workload clock run .rewind (rewindReply again) run.crew.floor.depot input
  | draw : Answers workload clock run .emptyBatch
      (.emptyBatch run.crew.floor.depot.pool.acquire.2)
      { run.crew.floor.depot with pool := run.crew.floor.depot.pool.acquire.1 } run.input
  | send {queue : Nat} {batch : Batch α} {channel : Channel (Batch α)}
      (hchannel : run.crew.floor.depot.channels[queue]? = some channel) :
      Answers workload clock run (.send queue batch) (.offered (channel.offer batch).2)
        (run.crew.floor.depot.setChannel queue (channel.offer batch).1) run.input
  | credit {wait : Bool} {queue : Nat} {channel : Channel (Batch α)}
      (hchannel : run.crew.floor.depot.channels[queue]? = some channel) (hacks : 0 < channel.acks) :
      Answers workload clock run (.acknowledgment wait) (.acknowledged queue)
        (run.crew.floor.depot.setChannel queue { channel with acks := channel.acks - 1 }) run.input
  | desert {wait : Bool} {queue : Nat} {channel : Channel (Batch α)}
      (hchannel : run.crew.floor.depot.channels[queue]? = some channel)
      (hlost : channel.isHeld = false) :
      Answers workload clock run (.acknowledgment wait) (.deserted queue)
        (run.crew.floor.depot.setChannel queue channel) run.input
  | goOn : Answers workload clock run (.acknowledgment false) .unacknowledged run.crew.floor.depot
      run.input

/-- What a step may do, and whose move it is. -/
inductive Step (workload : Workload α κ τ ω φ) (clock : Clock) (run : Run α κ τ ω φ) :
    Move → Run α κ τ ω φ → Prop where
  | turn {pick : Nat} {request : Request α} {reply : Reply α} {depot : Depot α} {input : φ}
      (hstage : run.stage = .scanning) (hrequest : run.scan.request? = some request)
      (hanswers : Answers workload clock run request reply depot input) :
      Step workload clock run (.main pick) (run.served reply depot input)
  | lose {pick : Nat} {input : φ} (hstage : run.stage = .scanning)
      (hrequest : run.scan.request? = some .item)
      (hnext : workload.next run.input = (input, .panicked)) :
      Step workload clock run (.main pick) (letGo { run with input } .panicked)
  | scanned {pick : Nat} (hstage : run.stage = .scanning) (hrequest : run.scan.request? = none) :
      Step workload clock run (.main pick) run.scanned
  | close {pick : Nat} (hstage : run.stage = .closing) :
      Step workload clock run (.main pick) (run.letGo .joining)
  | join {pick : Nat} (hstage : run.stage = .joining) (hdone : run.crew.isDone = true) :
      Step workload clock run (.main pick) { run with stage := .over run.verdict }
  | work {index : Nat} {worker worker' : Worker α κ τ} {floor : Floor α ω}
      (hworker : run.crew.workers[index]? = some worker)
      (hstep : Worker.Step workload.handler clock worker run.crew.floor worker' floor) :
      Step workload clock run (.worker index)
        { run with crew := ⟨run.crew.workers.set index worker', floor⟩ }

variable {workload : Workload α κ τ ω φ} {clock : Clock} {run next : Run α κ τ ω φ}

/-- What the depot of a run gives the scan. -/
theorem serve?_sound {pick : Nat} {dispatch : Dispatch α} (hstage : run.stage = .scanning)
    (h : run.dispatch.serve? pick = some dispatch) :
    Step workload clock run (.main pick) (run.withDispatch dispatch) := by
  unfold Dispatch.serve? at h
  split at h
  · next hrequest =>
    obtain rfl := Option.some.inj h
    exact .turn hstage hrequest .draw
  · next queue batch hrequest =>
    unfold Dispatch.send? Depot.offer at h
    rw [Option.map_map] at h
    obtain ⟨channel, hchannel, rfl⟩ := Option.map_eq_some_iff.mp h
    exact .turn hstage hrequest (.send hchannel)
  · next wait hrequest =>
    by_cases hready : run.dispatch.depot.isReady = true
    · rw [if_pos hready] at h
      unfold Dispatch.credit? Depot.takeCredit at h
      cases hchannel : run.dispatch.depot.channels[pick]? with
      | none => simp [hchannel] at h
      | some channel =>
        simp only [hchannel, Option.map_some, Channel.takeCredit] at h
        by_cases hacks : 0 < channel.acks
        · simp only [hacks, if_true, Option.some.injEq] at h
          subst h
          exact .turn hstage hrequest (.credit hchannel hacks)
        · by_cases hheld : channel.isHeld = true
          · simp [hacks, hheld] at h
          · simp only [hacks, hheld, if_false, Bool.false_eq_true, Option.some.injEq] at h
            subst h
            exact .turn hstage hrequest (.desert hchannel (Bool.eq_false_iff.mpr hheld))
    · rw [if_neg hready] at h
      cases wait with
      | true => simp at h
      | false =>
        simp only [Bool.false_eq_true, if_false, Option.some.injEq] at h
        subst h
        exact .turn hstage hrequest .goOn
  · cases h

/-- What reading an item comes to. -/
theorem reading_sound {pick : Nat} (hstage : run.stage = .scanning)
    (hrequest : run.scan.request? = some .item) :
    Step workload clock run (.main pick)
      ({ run with input := (workload.next run.input).1 }.takeReading
        (workload.next run.input).2) := by
  cases hnext : workload.next run.input with
  | mk input reading =>
    cases reading with
    | item item => exact .turn hstage hrequest (.item hnext)
    | ended => exact .turn hstage hrequest (.ended hnext)
    | unreadable fault => exact .turn hstage hrequest (.unreadable hnext)
    | panicked => exact .lose hstage hrequest hnext

/-- A run makes no other steps. -/
theorem step?_sound {move : Move} (h : run.step? workload clock move = some next) :
    Step workload clock run move next := by
  cases move with
  | main pick =>
    simp only [step?, mainStep?] at h
    split at h
    · next hstage =>
      split at h
      · next hrequest =>
        obtain rfl := Option.some.inj h
        exact .scanned hstage hrequest
      · next hrequest =>
        obtain rfl := Option.some.inj h
        exact .turn hstage hrequest .stop
      · next hrequest =>
        obtain rfl := Option.some.inj h
        exact reading_sound hstage hrequest
      · next hrequest =>
        obtain rfl := Option.some.inj h
        exact .turn hstage hrequest (.rewind rfl)
      · obtain ⟨dispatch, hdispatch, rfl⟩ := Option.map_eq_some_iff.mp h
        exact serve?_sound hstage hdispatch
    · next hstage =>
      obtain rfl := Option.some.inj h
      exact .close hstage
    · next hstage =>
      by_cases hdone : run.crew.isDone = true
      · rw [if_pos hdone] at h
        obtain rfl := Option.some.inj h
        exact .join hstage hdone
      · rw [if_neg hdone] at h
        cases h
    · cases h
    · cases h
  | worker index =>
    simp only [step?, Crew.step?] at h
    obtain ⟨crew, hcrew, rfl⟩ := Option.map_eq_some_iff.mp h
    split at hcrew
    · cases hcrew
    · next worker hworker =>
      obtain ⟨⟨worker', floor⟩, hstep, rfl⟩ := Option.map_eq_some_iff.mp hcrew
      exact .work hworker (Worker.step?_sound hstep)

end Run

end LoadBench
