/-
  LoadBench.Proofs.Run.Progress

  No run comes to a standstill.  A scan that waits for an acknowledgment has
  batches outstanding.  They are not all in line, for a queue with a line has its
  slots' worth of batches under way; so a batch waits in a channel, or a worker
  has one, and then a worker of that queue can go on.

  Behind the scan every worker can go on by itself, and all of them come to an
  end if their jobs do.
-/

import LoadBench.Numbers
import LoadBench.Proofs.Crew.Ending
import LoadBench.Proofs.Exchange.Credit
import LoadBench.Proofs.Run.Start

namespace LoadBench

variable {α κ τ ω φ : Type}

/-! ## Workers that can go on -/

/-- A worker that is not done can go on, unless nothing waits for it, or its acknowledgment has no
room. -/
theorem Worker.isSome_step? {handler : Handler α κ τ ω} (clock : Clock) {worker : Worker α κ τ}
    {floor : Floor α ω} {channel : Channel (Batch α)} (hdone : worker.isDone = false)
    (hchannel : floor.depot.channels[worker.queue]? = some channel)
    (hholds : channel.holds worker.endpoint = true)
    (hreceive : worker.holdsBatch = false → channel.queue ≠ [] ∨ channel.isOpen = false)
    (hcredit : worker.holdsBatch = true →
      channel.isRead = false ∨ channel.acks < channel.capacity) :
    (worker.step? handler clock floor).isSome = true := by
  -- An acknowledgment is sent if there is room for it, or nobody takes acknowledgments any more.
  have hacknowledge : ∀ next, worker.holdsBatch = true →
      (worker.acknowledge? floor next).isSome = true := by
    intro next hbatch
    have hsent : ∃ acknowledged, channel.acknowledge worker.endpoint = (acknowledged, .sent) := by
      unfold Channel.acknowledge
      rw [if_neg (not_not_intro hholds)]
      by_cases hread : channel.isRead = true
      · have hroom := (hcredit hbatch).resolve_left fun hunread => by simp [hread] at hunread
        rw [if_neg (not_not_intro hread), if_neg (Nat.not_le_of_lt hroom)]
        exact ⟨_, rfl⟩
      · rw [if_pos hread]
        exact ⟨_, rfl⟩
    obtain ⟨acknowledged, hsent⟩ := hsent
    unfold acknowledge? Depot.acknowledge
    simp only [hchannel, hsent]
    rfl
  -- Only a worker that receives or acknowledges can be kept waiting.
  cases hstage : worker.stage with
  | receiving =>
    have hidle : worker.holdsBatch = false := by rw [holdsBatch, hstage]
    unfold step? Depot.receive Channel.receive
    simp only [hstage, hchannel]
    rw [if_neg (not_not_intro hholds)]
    cases hqueue : channel.queue with
    | nil =>
      have hclosed : channel.isOpen = false := (hreceive hidle).resolve_left (not_not_intro hqueue)
      simp [hclosed]
    | cons batch rest => rfl
  | crediting =>
    have hbatch : worker.holdsBatch = true := by rw [holdsBatch, hstage]
    unfold step?
    simp only [hstage]
    exact hacknowledge _ hbatch
  | unwinding =>
    have hbatch : worker.holdsBatch = true := by rw [holdsBatch, hstage]
    unfold step?
    simp only [hstage]
    exact hacknowledge _ hbatch
  | holding batch =>
    unfold step?
    simp only [hstage]
    split <;> rfl
  | recording batch measured =>
    unfold step?
    simp only [hstage]
    cases hrecord : floor.ledger.record measured with
    | mk ledger complete => cases complete <;> rfl
  | exited => simp [isDone, hstage] at hdone
  | panicked => simp [isDone, hstage] at hdone
  | _ =>
    unfold step?
    simp only [hstage]
    rfl

/-! ## Jobs that measure numbers -/

/-- Numbers are measured in one step. -/
theorem NumberRules.measure_ne_going (rules : NumberRules) (label : String)
    (measured : Measurements) (numbers : List Nat) (job : NumberJob) :
    rules.measure label measured numbers ≠ .going job := by
  induction numbers generalizing measured with
  | nil => exact nofun
  | cons number rest ih =>
    rw [measure]
    split
    · exact nofun
    · split
      · exact nofun
      · exact ih _

theorem NumberRules.handler_ends (rules : NumberRules) : rules.handler.Ends := by
  refine ⟨fun job => ⟨job, ?_⟩⟩
  rintro next ⟨clock, before, after, hstep⟩
  exact absurd (Prod.mk.inj hstep).2 (rules.measure_ne_going _ _ _ _)

/-! ## Queues that are ready -/

/-- Where a queue is ready, the first one that is ready is. -/
theorem Depot.exists_firstReady {depot : Depot α} (h : depot.isReady = true) :
    ∃ channel, depot.channels[depot.firstReady]? = some channel ∧ channel.isReady = true := by
  obtain ⟨channel, hmem, hready⟩ := List.any_eq_true.mp h
  have hlt : depot.firstReady < depot.channels.length :=
    List.findIdx_lt_length_of_exists ⟨channel, hmem, hready⟩
  exact ⟨_, List.getElem?_eq_getElem hlt, List.findIdx_getElem⟩

/-- So the scan can be answered with that one. -/
theorem Dispatch.isSome_credit? {dispatch : Dispatch α} (h : dispatch.depot.isReady = true) :
    (dispatch.credit? dispatch.depot.firstReady).isSome = true := by
  obtain ⟨channel, hchannel, hready⟩ := Depot.exists_firstReady h
  simp only [credit?, Depot.takeCredit, hchannel, Option.map_some, Channel.takeCredit]
  by_cases hacks : 0 < channel.acks
  · simp [hacks]
  · have hlost : channel.isHeld = false := by simpa [Channel.isReady, hacks] using hready
    simp [hacks, hlost]

/-! ## A run that goes on -/

/-- How many steps a run has to make behind its workers. -/
def RunStage.rank : RunStage → Nat
  | .scanning => 3
  | .closing => 2
  | .joining => 1
  | .over _ => 0
  | .panicked => 0

namespace Run

variable {workload : Workload α κ τ ω φ} {run : Run α κ τ ω φ} {plan : ScanPlan}
  {routing : Routing α}

/-- The channel of a queue, as the exchange shows it. -/
theorem Pictured.underWay_eq {exchange : Exchange α} (h : run.Pictured exchange) {queue : Nat}
    {channel : Channel (Batch α)}
    (hchannel : run.crew.floor.depot.channels[queue]? = some channel) :
    exchange.underWay queue = channel.queue.length + run.crew.heldOn queue + channel.acks := by
  rw [← h.channels_eq] at hchannel
  rw [Exchange.underWay_of_channel hchannel, h.held_eq]

/-- A channel of which nothing can be taken has no acknowledgment, and somebody listens to it. -/
theorem quiet_of_not_ready {depot : Depot α} (h : depot.isReady = false) {queue : Nat}
    {channel : Channel (Batch α)} (hchannel : depot.channels[queue]? = some channel) :
    channel.acks = 0 ∧ channel.isHeld = true := by
  -- If this channel were ready, the depot would be.
  have hquiet : channel.isReady = false := by
    by_contra hready
    have hany : depot.isReady = true :=
      List.any_eq_true.mpr ⟨channel, List.mem_of_getElem? hchannel, by simpa using hready⟩
    rw [h] at hany
    cases hany
  rw [Channel.isReady, Bool.or_eq_false_iff, decide_eq_false_iff_not, Nat.not_lt,
    Nat.le_zero, Bool.not_eq_false'] at hquiet
  exact hquiet

/-- A queue that somebody listens to has a worker that is not done. -/
theorem Kept.worker_of_held (h : run.Kept plan routing) {queue : Nat} {channel : Channel (Batch α)}
    (hchannel : run.crew.floor.depot.channels[queue]? = some channel)
    (hheld : channel.isHeld = true) :
    ∃ worker ∈ run.crew.workers, worker.queue = queue ∧ worker.isDone = false := by
  obtain ⟨flag, hflag, hset⟩ := List.any_eq_true.mp hheld
  obtain ⟨endpoint, hendpoint⟩ := List.getElem?_of_mem hflag
  have hholds : run.crew.floor.depot.holds queue endpoint = true := by
    rw [Depot.holds_of_channel hchannel, Channel.holds, List.getD_eq_getElem?_getD, hendpoint]
    exact hset
  obtain ⟨worker, hworker, hplace, hdone⟩ := h.staffed.staffed queue endpoint hholds
  exact ⟨worker, hworker, (Prod.mk.inj hplace).1, hdone⟩

/-- What a scan that waits is waiting for: an acknowledgment or the end of a queue is there, or a
worker has a batch and room to acknowledge it, or a batch waits for a worker without one. -/
def Awaits (run : Run α κ τ ω φ) : Prop :=
  run.crew.floor.depot.isReady = true ∨
    (∃ worker ∈ run.crew.workers, worker.isDone = false ∧ worker.holdsBatch = true ∧
      ∃ channel, run.crew.floor.depot.channels[worker.queue]? = some channel ∧
        channel.acks < channel.capacity) ∨
    ∃ worker ∈ run.crew.workers, worker.isDone = false ∧ worker.holdsBatch = false ∧
      ∃ channel, run.crew.floor.depot.channels[worker.queue]? = some channel ∧ channel.queue ≠ []

/-- A worker that has a batch is not done. -/
theorem not_done_of_holdsBatch {worker : Worker α κ τ} (h : worker.holdsBatch = true) :
    worker.isDone = false := by
  unfold Worker.holdsBatch at h
  unfold Worker.isDone
  split at h <;> simp_all

theorem Kept.awaits (h : run.Kept plan routing) (hqueues : 0 < plan.queues)
    (hslots : 0 < plan.slots) (hstage : run.stage = .scanning)
    (hrequest : run.scan.request? = some (.acknowledgment true)) : run.Awaits := by
  by_cases hready : run.crew.floor.depot.isReady = true
  · exact Or.inl hready
  right
  obtain ⟨exchange, hkept, hpicture⟩ := h.pictured (Or.inl hstage)
  rw [← hpicture.scan_eq] at hrequest
  obtain ⟨queue, hqueue, hway⟩ := hkept.underWay_of_wait hqueues hslots hrequest
  have hlt : queue < run.crew.floor.depot.channels.length := by
    rw [← hpicture.channels_eq, hkept.linked.width]
    exact hqueue
  obtain ⟨channel, hchannel⟩ : ∃ channel, run.crew.floor.depot.channels[queue]? = some channel :=
    ⟨_, List.getElem?_eq_getElem hlt⟩
  have hcapacity : channel.capacity = plan.slots :=
    (hkept.linked.link queue channel (by rw [hpicture.channels_eq]; exact hchannel)).capacity_eq
  obtain ⟨hacks, hheld⟩ := quiet_of_not_ready (Bool.eq_false_iff.mpr hready) hchannel
  rw [hpicture.underWay_eq hchannel, hacks] at hway
  by_cases hbatch : 0 < run.crew.heldOn queue
  · -- A worker of the queue has a batch, and no acknowledgment waits.
    left
    obtain ⟨worker, hworker, hcounted⟩ := List.countP_pos_iff.mp hbatch
    rw [Bool.and_eq_true, decide_eq_true_iff] at hcounted
    obtain ⟨rfl, hholds⟩ := hcounted
    refine ⟨worker, hworker, not_done_of_holdsBatch hholds, hholds, _, hchannel, ?_⟩
    rw [hacks, hcapacity]
    exact hslots
  · -- The batch waits in the channel, and a worker that listens to it has none.
    right
    obtain ⟨worker, hworker, rfl, hdone⟩ := h.worker_of_held hchannel hheld
    refine ⟨worker, hworker, hdone, ?_, _, hchannel, ?_⟩
    · by_contra hholds
      refine hbatch (List.countP_pos_iff.mpr ⟨worker, hworker, ?_⟩)
      rw [Bool.and_eq_true, decide_eq_true_iff]
      exact ⟨rfl, by simpa using hholds⟩
    · intro hnil
      rw [hnil, List.length_nil] at hway
      omega

/-! ### Somebody can go on -/

/-- A worker of a run that can go on is a move of the run. -/
theorem exists_move_of_worker {clock : Clock} {worker : Worker α κ τ}
    (hworker : worker ∈ run.crew.workers)
    (hstep : (worker.step? workload.handler clock run.crew.floor).isSome = true) :
    ∃ move, (run.step? workload clock move).isSome = true := by
  obtain ⟨index, hindex⟩ := List.getElem?_of_mem hworker
  refine ⟨.worker index, ?_⟩
  rw [step?, Crew.step?, hindex]
  simpa using hstep

/-- The endpoint of a worker that is not done, seen at its channel. -/
theorem Kept.channel_of_worker (h : run.Kept plan routing) {worker : Worker α κ τ}
    (hworker : worker ∈ run.crew.workers) (hdone : worker.isDone = false) :
    ∃ channel, run.crew.floor.depot.channels[worker.queue]? = some channel ∧
      channel.holds worker.endpoint = true := by
  have hheld := h.staffed.held worker hworker hdone
  cases hchannel : run.crew.floor.depot.channels[worker.queue]? with
  | none => simp [Depot.holds, hchannel] at hheld
  | some channel => exact ⟨channel, rfl, by rwa [Depot.holds_of_channel hchannel] at hheld⟩

/-- A scan goes on unless it waits for an acknowledgment and there is none. -/
theorem Kept.exists_mainStep? (h : run.Kept plan routing) (clock : Clock)
    (hstage : run.stage = .scanning)
    (hwait : run.scan.request? ≠ some (.acknowledgment true) ∨
      run.crew.floor.depot.isReady = true) :
    ∃ pick, (run.mainStep? workload clock pick).isSome = true := by
  obtain ⟨exchange, hkept, hpicture⟩ := h.pictured (Or.inl hstage)
  unfold mainStep?
  simp only [hstage]
  cases hrequest : run.scan.request? with
  | none => exact ⟨0, rfl⟩
  | some request =>
    cases request with
    | stop => exact ⟨0, rfl⟩
    | item => exact ⟨0, rfl⟩
    | rewind => exact ⟨0, rfl⟩
    | emptyBatch =>
      refine ⟨0, ?_⟩
      simp [Dispatch.serve?, dispatch, hrequest]
    | send queue batch =>
      refine ⟨0, ?_⟩
      have hsound := hkept.sound (by rw [hpicture.scan_eq]; exact hrequest)
      have hqueue : queue < run.crew.floor.depot.channels.length := by
        rw [← hpicture.channels_eq, hkept.linked.width]
        exact hsound.queue_lt (by rw [hpicture.scan_eq]; exact hrequest)
      simp [Dispatch.serve?, Dispatch.send?, Depot.offer, dispatch, hrequest,
        List.getElem?_eq_getElem hqueue]
    | acknowledgment wait =>
      by_cases hready : run.crew.floor.depot.isReady = true
      · -- The first queue that is ready can be picked.
        refine ⟨run.crew.floor.depot.firstReady, ?_⟩
        have hcredit := Dispatch.isSome_credit? (show run.dispatch.depot.isReady = true from hready)
        simpa [Dispatch.serve?, dispatch, hrequest, hready] using hcredit
      · have hgoing : wait = false := by
          cases wait with
          | false => rfl
          | true => exact absurd hrequest (hwait.resolve_right hready)
        refine ⟨0, ?_⟩
        simp [Dispatch.serve?, dispatch, hrequest, hready, hgoing]

/-- Whether a run has come to its end. -/
def IsOver (run : Run α κ τ ω φ) : Prop :=
  run.stage = .panicked ∨ ∃ result, run.stage = .over result

/-- Where the channels are let go of, every worker that is not done can go on. -/
theorem Kept.isSome_step?_of_dropped (h : run.Kept plan routing) (clock : Clock)
    (hstage : run.stage = .joining ∨ run.stage = .panicked) {worker : Worker α κ τ}
    (hworker : worker ∈ run.crew.workers) (hdone : worker.isDone = false) :
    (worker.step? workload.handler clock run.crew.floor).isSome = true := by
  obtain ⟨channel, hchannel, hholds⟩ := h.channel_of_worker hworker hdone
  obtain ⟨hopen, hread⟩ := h.dropped hstage channel (List.mem_of_getElem? hchannel)
  exact Worker.isSome_step? clock hdone hchannel hholds (fun _ => Or.inr hopen)
    fun _ => Or.inl hread

/-- Behind the scan every worker that is not done can go on. -/
theorem Kept.isSome_step?_of_joining (h : run.Kept plan routing) (clock : Clock)
    (hstage : run.stage = .joining) {worker : Worker α κ τ} (hworker : worker ∈ run.crew.workers)
    (hdone : worker.isDone = false) :
    (worker.step? workload.handler clock run.crew.floor).isSome = true :=
  h.isSome_step?_of_dropped clock (Or.inl hstage) hworker hdone

/-- A run that is not over can go on. -/
theorem Kept.exists_move (h : run.Kept plan routing) (hqueues : 0 < plan.queues)
    (hslots : 0 < plan.slots) (clock : Clock) (hgoing : ¬run.IsOver) :
    ∃ move, (run.step? workload clock move).isSome = true := by
  cases hstage : run.stage with
  | scanning =>
    by_cases hwait : run.scan.request? ≠ some (.acknowledgment true) ∨
        run.crew.floor.depot.isReady = true
    · obtain ⟨pick, hpick⟩ := h.exists_mainStep? clock hstage hwait
      exact ⟨.main pick, hpick⟩
    · rw [not_or, not_not] at hwait
      -- Nothing can be taken, so a worker of some queue goes on.
      rcases h.awaits hqueues hslots hstage hwait.1 with hready | hholder | hidle
      · exact absurd hready hwait.2
      · obtain ⟨worker, hworker, hdone, hbatch, channel, hchannel, hroom⟩ := hholder
        obtain ⟨found, hfound, hholds⟩ := h.channel_of_worker hworker hdone
        obtain rfl : channel = found := Option.some.inj (hchannel.symm.trans hfound)
        refine exists_move_of_worker hworker (Worker.isSome_step? clock hdone hchannel hholds ?_ ?_)
        · intro hcontra
          rw [hbatch] at hcontra
          cases hcontra
        · exact fun _ => Or.inr hroom
      · obtain ⟨worker, hworker, hdone, hbatch, channel, hchannel, hqueue⟩ := hidle
        obtain ⟨found, hfound, hholds⟩ := h.channel_of_worker hworker hdone
        obtain rfl : channel = found := Option.some.inj (hchannel.symm.trans hfound)
        refine exists_move_of_worker hworker (Worker.isSome_step? clock hdone hchannel hholds ?_ ?_)
        · exact fun _ => Or.inl hqueue
        · intro hcontra
          rw [hbatch] at hcontra
          cases hcontra
  | closing => exact ⟨.main 0, by simp [step?, mainStep?, hstage]⟩
  | joining =>
    by_cases hall : run.crew.isDone = true
    · exact ⟨.main 0, by simp [step?, mainStep?, hstage, hall]⟩
    · rw [Crew.isDone, List.all_eq_true] at hall
      push Not at hall
      obtain ⟨worker, hworker, hdone⟩ := hall
      exact exists_move_of_worker hworker
        (h.isSome_step?_of_joining clock hstage hworker (Bool.eq_false_iff.mpr hdone))
  | panicked => exact absurd (Or.inl hstage) hgoing
  | _ => exact absurd (Or.inr ⟨_, hstage⟩) hgoing

/-! ## The end of a run -/

/-- Whether a run comes from another by one step. -/
def Later (workload : Workload α κ τ ω φ) (later earlier : Run α κ τ ω φ) : Prop :=
  ∃ clock move, earlier.step? workload clock move = some later

/-- What a run has still to do behind its scan. -/
def remaining (run : Run α κ τ ω φ) : Nat × Multiset τ :=
  (run.stage.rank + run.crew.load, run.crew.jobs)

/-- A step of a worker leaves less to do, or its job goes on. -/
theorem remaining_work {clock : Clock} {goesOn : τ → τ → Prop} {index : Nat}
    {worker worker' : Worker α κ τ} {floor : Floor α ω}
    (hworker : run.crew.workers[index]? = some worker)
    (hgoesOn : ∀ job next, worker.job? = some job → workload.handler.Continues next job →
      goesOn next job)
    (hstep : Worker.Step workload.handler clock worker run.crew.floor worker' floor) :
    Crew.Less goesOn
      (remaining { run with crew := ⟨run.crew.workers.set index worker', floor⟩ })
      run.remaining := by
  rcases Crew.load_step hworker hgoesOn hstep with hless | ⟨hsame, hjobs⟩
  · exact Prod.Lex.left _ _ (Nat.add_lt_add_left hless _)
  · refine Prod.lex_iff.mpr (Or.inr ⟨?_, hjobs⟩)
    exact congrArg (run.stage.rank + ·) hsame

/-- Behind the scan a step leaves less to do. -/
theorem remaining_step {clock : Clock} {next : Run α κ τ ω φ} {goesOn : τ → τ → Prop}
    (hstage : run.stage ≠ .scanning)
    (hgoesOn : ∀ worker ∈ run.crew.workers, ∀ job next, worker.job? = some job →
      workload.handler.Continues next job → goesOn next job)
    {move : Move} (hstep : Step workload clock run move next) :
    next.stage ≠ .scanning ∧ Crew.Less goesOn next.remaining run.remaining := by
  -- The stages go down, and in between the workers have less to do.
  cases hstep with
  | turn hscanning | lose hscanning | scanned hscanning =>
    exact absurd hscanning hstage
  | close hclosing =>
    have hload : (run.letGo .joining).crew.load = run.crew.load := by
      show 7 * run.crew.floor.depot.dropSenders.waiting + _ = _
      rw [Crew.waiting_dropSenders]
      rfl
    refine ⟨nofun, Prod.Lex.left _ _ ?_⟩
    rw [hload, hclosing]
    exact Nat.add_lt_add_right (Nat.lt_succ_self 1) _
  | join hjoining hdone =>
    refine ⟨nofun, Prod.Lex.left _ _ ?_⟩
    rw [hjoining]
    exact Nat.add_lt_add_right (Nat.lt_succ_self 0) _
  | work hworker hstep =>
    exact ⟨hstage, remaining_work hworker (hgoesOn _ (List.mem_of_getElem? hworker)) hstep⟩

/-- Behind the scan no run goes on for ever, if jobs end. -/
theorem acc_of_scanned (hends : workload.handler.Ends) (hstage : run.stage ≠ .scanning) :
    Acc (Later workload) run := by
  -- By induction on what is left to do, whoever makes the next step.
  induction hrest : run.remaining using (Crew.less_wellFounded hends).induction
    generalizing run with
  | _ rest ih =>
    refine ⟨run, fun later hlater => ?_⟩
    obtain ⟨clock, move, hmove⟩ := hlater
    obtain ⟨hlaterStage, hless⟩ :=
      remaining_step hstage (fun _ _ _ _ _ hgoing => hgoing) (step?_sound hmove)
    exact ih _ (hrest ▸ hless) hlaterStage rfl

/-! ## Progress -/

/-- What holds of a run at any moment: it does not come to a standstill. -/
structure Lively (workload : Workload α κ τ ω φ) (run : Run α κ τ ω φ) : Prop where
  /-- Whatever the time, somebody can go on until the run is over. -/
  goesOn : ∀ clock, ¬run.IsOver → ∃ move, (run.step? workload clock move).isSome = true
  /-- A scan waits only for what is there or can come. -/
  awaits : run.stage = .scanning → run.scan.request? = some (.acknowledgment true) → run.Awaits
  /-- A queue with a line has its slots' worth of batches in its channel, with its workers, or
  acknowledged; one of them may be the acknowledgment for which the head of the line goes out. -/
  crowded : run.stage = .scanning → run.scan.result? = none →
    ∀ queue channel, run.crew.floor.depot.channels[queue]? = some channel →
      run.scan.waitingOf queue ≠ [] →
        channel.capacity ≤ channel.queue.length + run.crew.heldOn queue + channel.acks +
          run.scan.resends queue
  /-- Behind the scan every worker can go on by itself. -/
  free : run.stage = .joining → ∀ clock, ∀ worker ∈ run.crew.workers, worker.isDone = false →
    (worker.step? workload.handler clock run.crew.floor).isSome = true
  /-- Behind the scan the run comes to its end, if jobs do. -/
  ends : run.stage ≠ .scanning → workload.handler.Ends → Acc (Later workload) run

/-- Whatever its workers and its input do, a run does not come to a standstill. -/
theorem lively_of_follow {first : Run α κ τ ω φ} {moves : List (Clock × Move)}
    (hbegins : first.Begins plan routing) (hmoves : first.follow? workload moves = some run) :
    run.Lively workload := by
  have hkept := kept_follow hbegins.kept hmoves
  refine
    { goesOn := fun clock => hkept.exists_move hbegins.queues_pos hbegins.slots_pos clock
      awaits := hkept.awaits hbegins.queues_pos hbegins.slots_pos
      crowded := ?_
      free := fun hstage clock worker => hkept.isSome_step?_of_joining clock hstage
      ends := fun hstage hends => acc_of_scanned hends hstage }
  intro hstage hgoing queue channel hchannel hline
  obtain ⟨exchange, hexchange, hpicture⟩ := hkept.pictured (Or.inl hstage)
  have hfound : exchange.channels[queue]? = some channel := by
    rw [hpicture.channels_eq]
    exact hchannel
  have hcrowded := hexchange.crowded (by rw [hpicture.scan_eq]; exact hgoing) queue
    (hexchange.linked.lt hfound) (by rw [hpicture.scan_eq]; exact hline)
  rw [hpicture.underWay_eq hchannel, hpicture.scan_eq] at hcrowded
  rw [(hexchange.linked.link queue channel hfound).capacity_eq]
  exact hcrowded

/-- Two numbers, each a batch of its own, for a worker that has not made a step. -/
def twoNumbers : Except Fault (Run Nat Unit NumberJob (List Post) NumberInput) :=
  start (NumberRules.workload ⟨none, none, none⟩ fun _ => Routing.first)
    { Settings.standard 1 with batchSize := 1 } [] (NumberInput.ofText ['7', ' ', '8'])

/-- The moves of the scan until it waits for an acknowledgment. -/
def untilItWaits : List (Clock × Move) := List.replicate 14 (⟨0, 0, 0⟩, .main 0)

theorem lively_twoNumbers : ∃ first run, twoNumbers = .ok first ∧
    first.follow? (NumberRules.workload ⟨none, none, none⟩ fun _ => Routing.first)
      untilItWaits = some run ∧
    run.scan.request? = some (.acknowledgment true) ∧
    run.scan.waitingOf 0 = [⟨2, [8]⟩] ∧ run.crew.floor.depot.isReady = false ∧
    run.Lively (NumberRules.workload ⟨none, none, none⟩ fun _ => Routing.first) ∧
    (NumberRules.handler ⟨none, none, none⟩).Ends := by
  refine ⟨_, _, rfl, rfl, rfl, rfl, rfl, ?_, NumberRules.handler_ends _⟩
  exact lively_of_follow (begins_start (show twoNumbers = _ from rfl))
    (show follow? _ untilItWaits _ = _ from rfl)

end Run

end LoadBench
