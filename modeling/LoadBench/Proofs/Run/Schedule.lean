/-
  LoadBench.Proofs.Run.Schedule

  Runs whose end does not depend on the schedule.  A schedule says who makes the
  next step, what the clocks show, and when reporting periods end.  A run leads to
  something (`Run.Leads`) if every schedule comes to an end, and comes to it.

  A run that starts with valid settings, and with a workload that suits, leads to
  a run that has recorded what it was to record (`leads_start`).
-/

import LoadBench.Proofs.Run.Course

namespace LoadBench

variable {α κ τ ω φ : Type}

namespace Run

/-! ## Schedules -/

/-- The run with another ledger. -/
def withLedger (run : Run α κ τ ω φ) (ledger : Ledger) : Run α κ τ ω φ :=
  run.withFloor { run.crew.floor with ledger }

/-- Whether a run is another one in which some reporting periods have ended. -/
inductive Reported (run : Run α κ τ ω φ) : Run α κ τ ω φ → Prop where
  | now : Reported run run
  | period {reported : Run α κ τ ω φ} (h : Reported run reported) (timestamp : UInt64)
      (took : TimeSpan) (previous : Counts) :
      Reported run
        (reported.withLedger (reported.crew.floor.ledger.endPeriod timestamp took previous).1)

/-- Whether a run comes to its end and then is as it should be, whatever the schedule. Between two
steps any number of reporting periods may end, and so they may behind the last one. -/
inductive Leads (workload : Workload α κ τ ω φ) (good : Run α κ τ ω φ → Prop) :
    Run α κ τ ω φ → Prop where
  | halts {run : Run α κ τ ω φ} (hstuck : ∀ clock move, run.step? workload clock move = none)
      (hgood : ∀ reported, run.Reported reported → good reported) : Leads workload good run
  | goesOn {run : Run α κ τ ω φ}
      (hmoves : ∀ clock, ∃ move, (run.step? workload clock move).isSome = true)
      (hnext : ∀ reported clock move next, run.Reported reported →
        reported.step? workload clock move = some next → Leads workload good next) :
      Leads workload good run

variable {workload : Workload α κ τ ω φ} {good : Run α κ τ ω φ → Prop} {run next : Run α κ τ ω φ}

/-- Every part of a schedule leads there. -/
theorem Leads.follow {moves : List (Clock × Move)} (h : run.Leads workload good)
    (hmoves : run.follow? workload moves = some next) : next.Leads workload good := by
  refine follow?_preserves (fun move state after hstate hstep => ?_) h hmoves
  cases hstate with
  | halts hstuck _ =>
    rw [hstuck] at hstep
    cases hstep
  | goesOn _ hnext => exact hnext state move.1 move.2 after .now hstep

/-- Where a schedule cannot go on, the run is as it should be. -/
theorem Leads.good_of_stuck (h : run.Leads workload good) (clock : Clock)
    (hstuck : ∀ move, run.step? workload clock move = none) : good run := by
  cases h with
  | halts _ hgood => exact hgood run .now
  | goesOn hmoves _ =>
    obtain ⟨move, hmove⟩ := hmoves clock
    rw [hstuck move] at hmove
    cases hmove

/-! ## Runs on course -/

variable {task : Assignment α κ τ φ} {rest : List α}

/-- The invariant says nothing about the ledger. -/
theorem Kept.withLedger {plan : ScanPlan} {routing : Routing α} (h : run.Kept plan routing)
    (ledger : Ledger) : (run.withLedger ledger).Kept plan routing where
  staffed := h.staffed.withFloor fun _ _ => rfl
  clean := h.clean
  pictured := by
    intro hstage
    obtain ⟨exchange, hkept, hpicture⟩ := h.pictured hstage
    exact ⟨exchange, hkept, hpicture.scan_eq, hpicture.channels_eq, hpicture.held_eq⟩
  dropped := h.dropped

/-- A reporting period changes nothing for a run that is on course. -/
theorem OnCourse.withLedger (h : run.OnCourse task rest) {ledger : Ledger}
    (hledger : ∀ samples, run.crew.floor.ledger.Holds samples → ledger.Holds samples) :
    (run.withLedger ledger).OnCourse task rest := by
  -- A period changes the ledger only, and that has recorded what it had.
  have hbalanced : ∀ {received : Multiset α}, run.crew.Balanced task.contract received →
      (run.withLedger ledger).crew.Balanced task.contract received := by
    rintro received ⟨hquiet, recorded, owed, hrecorded, howes, hsum⟩
    exact ⟨hquiet, recorded, owed, hledger recorded hrecorded, howes, hsum⟩
  refine ⟨h.kept.withLedger ledger, h.timeless, h.served, ?_⟩
  rcases h.stands with hscanning | hscanned | hfinished
  · obtain ⟨exchange, hcalm, hpicture, hreads, hreceived⟩ := hscanning.shown
    exact Or.inl ⟨hscanning.stage_eq, hscanning.left, hscanning.listening, exchange, hcalm,
      ⟨hpicture.scan_eq, hpicture.channels_eq, hpicture.held_eq⟩, hreads, hbalanced hreceived⟩
  · exact Or.inr (Or.inl ⟨hscanned.stage_eq, hscanned.returned, hscanned.empty,
      hbalanced hscanned.balanced⟩)
  · exact Or.inr (Or.inr ⟨hfinished.stage_eq, hfinished.isDone, hledger _ hfinished.recorded⟩)

theorem OnCourse.reported {reported : Run α κ τ ω φ} (h : run.OnCourse task rest)
    (hreported : run.Reported reported) :
    reported.OnCourse task rest ∧ reported.distance rest = run.distance rest ∧
      reported.stage = run.stage := by
  induction hreported with
  | now => exact ⟨h, rfl, rfl⟩
  | period _ timestamp took previous ih =>
    obtain ⟨hcourse, hdistance, hstage⟩ := ih
    exact ⟨hcourse.withLedger fun samples hholds => hholds.endPeriod timestamp took previous,
      hdistance, hstage⟩

/-- Nobody makes a step when a run is over. -/
theorem Finished.step?_eq_none (h : run.Finished task) (clock : Clock) (move : Move) :
    run.step? workload clock move = none := by
  obtain ⟨tally, hstage⟩ := h.stage_eq
  cases move with
  | main pick => rw [step?, mainStep?, hstage]
  | worker index =>
    rw [step?, Crew.step?]
    cases hworker : run.crew.workers[index]? with
    | none => rfl
    | some worker =>
      have hdone := List.all_eq_true.mp h.isDone worker (List.mem_of_getElem? hworker)
      cases hstep : worker.step? workload.handler clock run.crew.floor with
      | none => simp [hstep]
      | some after =>
        have heffect := Worker.effect_of_step (Worker.step?_sound hstep)
        rw [heffect.isDone] at hdone
        cases hdone

/-- A run on course that is over has gone well. -/
theorem OnCourse.finished (h : run.OnCourse task rest) (hover : run.IsOver) :
    run.Finished task := by
  rcases h.stands with hscanning | hscanned | hfinished
  · rw [IsOver, hscanning.stage_eq] at hover
    rcases hover with hcontra | ⟨result, hcontra⟩ <;> cases hcontra
  · rw [IsOver] at hover
    rcases hscanned.stage_eq with hstage | hstage <;> rw [hstage] at hover <;>
      rcases hover with hcontra | ⟨result, hcontra⟩ <;> cases hcontra
  · exact hfinished

/-- Whatever the schedule, a run on course comes to its end and has recorded all it was to. -/
theorem OnCourse.leads (hsuits : workload.Suits task) (hqueues : 0 < task.plan.queues)
    (hslots : 0 < task.plan.slots) (h : run.OnCourse task rest)
    (hgood : ∀ last : Run α κ τ ω φ, last.Finished task → good last) : run.Leads workload good := by
  -- By induction on the distance: a step makes it smaller, and periods that end between two steps
  -- leave it.
  induction hdistance : run.distance rest using (nearer_wellFounded workload.handler).induction
    generalizing run rest with
  | _ distance ih =>
  by_cases hover : run.IsOver
  · refine .halts (fun clock move => (h.finished hover).step?_eq_none clock move) ?_
    intro reported hreported
    obtain ⟨hcourse, -, hstage⟩ := h.reported hreported
    refine hgood reported (hcourse.finished ?_)
    rw [IsOver, hstage]
    exact hover
  · refine .goesOn (fun clock => h.kept.exists_move hqueues hslots clock hover) ?_
    intro reported clock move next hreported hmove
    obtain ⟨hcourse, hsame, -⟩ := h.reported hreported
    obtain ⟨rest', hnext, hnearer⟩ := hcourse.step hsuits (step?_sound hmove)
    rw [hsame, hdistance] at hnearer
    exact ih _ hnearer hnext rfl

end Run

/-! ## The start -/

/-- Settings that have been accepted. -/
theorem Settings.valid {settings : Settings} (h : settings.validate = .ok ()) :
    0 < settings.batchSize ∧ 0 < settings.queueCount ∧
      settings.queueCount ≤ settings.workers := by
  have hnone : settings.fault? = none := by
    unfold validate at h
    split at h
    · cases h
    · assumption
  unfold fault? at hnone
  split at hnone
  · cases hnone
  · next hworkers =>
    split at hnone
    · cases hnone
    · next hbatches =>
      have hpositive : 0 < settings.workers ∧ 0 < settings.batchSize := by omega
      refine ⟨hpositive.2, ?_⟩
      unfold queueFault? at hnone
      unfold queueCount
      cases hqueues : settings.queues with
      | perWorker => exact ⟨hpositive.1, Nat.le_refl _⟩
      | shared => exact ⟨Nat.one_pos, hpositive.1⟩
      | count queues =>
        simp only [hqueues] at hnone
        by_cases hzero : queues = 0
        · simp [hzero] at hnone
        · by_cases hidle : settings.workers < queues
          · simp [hzero, hidle] at hnone
          · exact ⟨Nat.pos_of_ne_zero hzero, Nat.le_of_not_lt hidle⟩

namespace Run

variable {workload : Workload α κ τ ω φ} {good : Run α κ τ ω φ → Prop} {task : Assignment α κ τ φ}
  {settings : Settings}

/-- A run with a queue starts. -/
theorem exists_start (workload : Workload α κ τ ω φ) (hqueues : 0 < settings.queueCount) (world : ω)
    (input : φ) : ∃ first, start workload settings world input = .ok first := by
  have hchannels : (floorOf (α := α) settings world).depot.channels.length ≠ 0 := by
    show (List.replicate settings.queueCount _).length ≠ 0
    rw [List.length_replicate]
    exact Nat.ne_of_gt hqueues
  unfold start Crew.start
  dsimp only
  rw [if_neg hchannels]
  exact ⟨_, rfl⟩

/-- A run starts on course, if it is to issue commands and to measure all of them. -/
theorem onCourse_start (hvalid : settings.validate = .ok ()) (hload : settings.loadEnabled = true)
    (hburnIn : settings.burnIn = 0) (hduration : settings.duration = none)
    (hplan : task.plan = settings.plan)
    (hrouting : task.routing = workload.routing settings.queueCount) {world : ω} {input : φ}
    (hleft : task.left input task.items) {first : Run α κ τ ω φ}
    (hstart : start workload settings world input = .ok first) :
    first.OnCourse task task.items := by
  obtain ⟨hbatch, hqueues, hworkers⟩ := Settings.valid hvalid
  have hbegins := begins_start hstart
  rw [← hplan, ← hrouting] at hbegins
  obtain ⟨-, -, hworkers', -, -⟩ := start_eq hstart
  unfold start at hstart
  split at hstart
  · cases hstart
  · next crew hcrew =>
    rw [hload] at hcrew
    obtain rfl := Except.ok.inj hstart
    have hbalanced : crew.Balanced task.contract 0 := by
      refine Crew.balanced_start hcrew rfl ?_
      show Ledger.create settings.burnIn = _
      rw [hburnIn]
    have hcrewWorkers : crew.workers =
        Crew.hire workload.handler settings.queueCount settings.workers true := by
      rw [← hload]
      exact hworkers'
    -- Nothing has been read, received or recorded, and every queue has its first worker.
    have hcalm := Exchange.calm_start task.routing hbegins.width hbegins.fresh
      (by rw [hplan]; exact hbatch) hbegins.queues_pos
    refine ⟨hbegins.kept, hduration, ?_, Or.inl ⟨rfl, hleft, ?_, _, hcalm, hbegins.pictured,
      ⟨rfl, List.nil_prefix⟩, ?_⟩⟩
    · intro queue hqueue
      rw [hplan] at hqueue
      have hqueueCount : queue < settings.queueCount := hqueue
      dsimp only
      rw [hcrewWorkers]
      refine ⟨_, List.mem_map.mpr ⟨queue, List.mem_range.mpr ?_, rfl⟩, Nat.mod_eq_of_lt hqueueCount⟩
      exact Nat.lt_of_lt_of_le hqueueCount hworkers
    · intro worker hmem
      dsimp only at hmem
      rw [hcrewWorkers] at hmem
      obtain ⟨number, -, rfl⟩ := List.mem_map.mp hmem
      exact ⟨rfl, nofun⟩
    · have hnothing :
          (Exchange.start task.plan task.routing crew.floor.depot.channels).receivedItems
            task.plan.queues = 0 := Finset.sum_eq_zero fun _ _ => rfl
      rw [hnothing]
      exact hbalanced

/-- Whatever the schedule, a run that starts with valid settings, and with a workload that suits,
comes to its end and has recorded all it was to. -/
theorem leads_start (hvalid : settings.validate = .ok ()) (hload : settings.loadEnabled = true)
    (hburnIn : settings.burnIn = 0) (hduration : settings.duration = none)
    (hplan : task.plan = settings.plan)
    (hrouting : task.routing = workload.routing settings.queueCount)
    (hsuits : workload.Suits task) (world : ω) {input : φ} (hleft : task.left input task.items)
    (hgood : ∀ last : Run α κ τ ω φ, last.Finished task → good last) :
    ∃ first, start workload settings world input = .ok first ∧ first.Leads workload good := by
  obtain ⟨first, hfirst⟩ := exists_start workload (Settings.valid hvalid).2.1 world input
  have hbegins := begins_start hfirst
  rw [← hplan] at hbegins
  have hcourse := onCourse_start hvalid hload hburnIn hduration hplan hrouting hleft hfirst
  exact ⟨first, hfirst, hcourse.leads hsuits hbegins.queues_pos hbegins.slots_pos hgood⟩

end Run

end LoadBench
