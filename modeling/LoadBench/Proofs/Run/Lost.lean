/-
  LoadBench.Proofs.Run.Lost

  Runs whose reader panics at its first item.  Until then the scan has read nothing
  and nothing is outstanding (`Scan.Unread`), so it cannot have come to its end.
  Then the run is gone, unless a fault has been raised before; such a run is doomed
  (`Run.Doomed`), and never ends well.
-/

import LoadBench.Proofs.Run.Start

namespace LoadBench

variable {α κ τ ω φ : Type}

/-! ## Scans that have read nothing -/

namespace Scan

/-- Whether a scan that can be stopped has read nothing, and has not come to its end without a
fault. -/
structure Unread (scan : Scan α) : Prop where
  timed : ∃ hasDeadline, scan.plan.mode = .timed hasDeadline
  itemsRead_eq : scan.itemsRead = 0
  outstanding_eq : scan.outstanding = 0
  phase_eq : scan.phase = .opening ∨ scan.phase = .checking ∨ scan.phase = .awaiting .reading ∨
    scan.phase = .fetching ∨ ∃ fault, scan.phase = .returned (.error fault)

variable {scan : Scan α}

theorem Unread.fail (h : scan.Unread) (fault : ScanFault) : (scan.fail fault).Unread :=
  ⟨h.timed, h.itemsRead_eq, h.outstanding_eq, Or.inr (Or.inr (Or.inr (Or.inr ⟨fault, rfl⟩)))⟩

theorem Unread.proceed (h : scan.Unread) : scan.proceed.Unread := by
  obtain ⟨hasDeadline, hmode⟩ := h.timed
  unfold Scan.proceed
  rw [hmode]
  exact ⟨⟨hasDeadline, hmode⟩, h.itemsRead_eq, h.outstanding_eq, Or.inr (Or.inl rfl)⟩

/-- No limit is reached before the first item. -/
theorem Unread.readMore (h : scan.Unread) : scan.readMore.Unread := by
  have hbelow : ¬(0 < scan.plan.limit ∧ scan.itemsRead = scan.plan.limit) := by
    rw [h.itemsRead_eq]
    omega
  unfold Scan.readMore
  rw [if_neg hbelow]
  exact ⟨h.timed, h.itemsRead_eq, h.outstanding_eq, Or.inr (Or.inr (Or.inl rfl))⟩

/-- A scan that has read nothing starts so, if it starts. -/
theorem unread_start {plan : ScanPlan} {routing : Routing α} {hasDeadline : Bool}
    (hmode : plan.mode = .timed hasDeadline) (hbatches : 0 < plan.batchSize)
    (hqueues : 0 < plan.queues) : (start plan routing).Unread := by
  refine ⟨⟨hasDeadline, hmode⟩, rfl, rfl, Or.inl ?_⟩
  show (if plan.batchSize < 1 then _ else if plan.queues = 0 then _ else _) = _
  rw [if_neg (Nat.not_lt.mpr hbatches), if_neg (Nat.ne_of_gt hqueues)]

end Scan

namespace Run

variable {workload : Workload α κ τ ω φ} {clock : Clock} {run next : Run α κ τ ω φ}

/-- An answer that is no item, and does not stop the scan, leaves it without any item. -/
theorem unread_served (h : run.scan.Unread) (hquiet : run.crew.floor.alarm = Alarm.quiet)
    (htimeless : run.duration = none) (hpanics : (workload.next run.input).2 = .panicked)
    {request : Request α} {reply : Reply α} {depot : Depot α} {input : φ}
    (hrequest : run.scan.request? = some request)
    (hanswers : Answers workload clock run request reply depot input) :
    (run.scan.resume reply).Unread ∧ input = run.input := by
  -- Phase by phase: none of the requests that come before the first item gets it one.
  rcases h.phase_eq with hphase | hphase | hphase | hphase | ⟨fault, hphase⟩ <;>
    simp only [Scan.request?, hphase, Option.some.injEq, reduceCtorEq] at hrequest
  · subst hrequest
    cases hanswers
    have hdrawn : Scan.Unread
        { run.scan with filling := run.scan.filling ++ [run.crew.floor.depot.pool.acquire.2] } :=
      ⟨h.timed, h.itemsRead_eq, h.outstanding_eq, h.phase_eq⟩
    refine ⟨?_, rfl⟩
    simp only [Scan.resume, hphase]
    split
    · exact hdrawn.proceed
    · rw [← hphase]
      exact hdrawn
  · subst hrequest
    cases hanswers
    have hgoes : run.isStopped clock = false := by
      rw [isStopped, hquiet, htimeless]
      rfl
    refine ⟨?_, rfl⟩
    simp only [Scan.resume, hphase, hgoes]
    exact h.readMore
  · generalize run.scan.isExhausted = wait at hrequest
    subst hrequest
    cases hanswers with
    | credit hchannel hacks =>
      -- An acknowledgment would be stray.
      refine ⟨?_, rfl⟩
      simp only [Scan.resume, hphase]
      rw [Scan.acknowledge, if_pos h.outstanding_eq]
      exact h.fail .stray
    | desert hchannel hlost =>
      refine ⟨?_, rfl⟩
      simp only [Scan.resume, hphase]
      exact h.fail _
    | goOn =>
      refine ⟨?_, rfl⟩
      simp only [Scan.resume, hphase]
      exact ⟨h.timed, h.itemsRead_eq, h.outstanding_eq, Or.inr (Or.inr (Or.inr (Or.inl rfl)))⟩
  · subst hrequest
    cases hanswers with
    | item hnext | ended hnext | unreadable hnext =>
      rw [hnext] at hpanics
      cases hpanics

/-! ## Runs that are doomed -/

end Run

/-- A step of a worker leaves the alarm, or raises it. -/
theorem Worker.alarm_step {handler : Handler α κ τ ω} {clock : Clock}
    {worker worker' : Worker α κ τ} {floor floor' : Floor α ω}
    (h : Worker.Step handler clock worker floor worker' floor') :
    floor'.alarm = floor.alarm ∨ floor'.alarm.first.isSome = true := by
  cases h with
  | @prepare world kept fault hstage hprepare =>
    cases fault with
    | none => exact Or.inl rfl
    | some fault => exact Or.inr rfl
  | fail | crash | overflow => exact Or.inr rfl
  | _ => exact Or.inl rfl

namespace Run

variable {workload : Workload α κ τ ω φ} {clock : Clock} {run next : Run α κ τ ω φ}

/-- Whether a run cannot end well any more: its reader is gone, a fault has been raised, or its
reader will be gone at the first item. -/
inductive Doomed (workload : Workload α κ τ ω φ) (run : Run α κ τ ω φ) : Prop where
  | gone (hstage : run.stage = .panicked)
  | faulty (hraised : run.crew.floor.alarm.first.isSome = true)
      (hstage : ∀ tally, run.stage ≠ .over (.ok tally))
  | unread (hstage : run.stage = .scanning) (htimeless : run.duration = none)
      (hquiet : run.crew.floor.alarm = Alarm.quiet) (hscan : run.scan.Unread)
      (hpanics : (workload.next run.input).2 = .panicked)

theorem Doomed.not_over_ok (h : run.Doomed workload) (tally : ScanTally) :
    run.stage ≠ .over (.ok tally) := by
  cases h with
  | gone hstage | unread hstage =>
    rw [hstage]
    exact nofun
  | faulty _ hstage => exact hstage tally

theorem doomed_of_raised (hraised : run.crew.floor.alarm.first.isSome = true)
    (hover : ∀ tally, run.stage ≠ .over (.ok tally)) {move : Move}
    (hstep : Step workload clock run move next) :
    next.Doomed workload := by
  cases hstep with
  | turn => exact .faulty hraised hover
  | lose => exact .gone rfl
  | scanned hstage hrequest =>
    unfold scanned
    dsimp only
    split
    · exact .faulty rfl nofun
    · exact .faulty hraised nofun
  | close => exact .faulty hraised nofun
  | join hstage hdone =>
    obtain ⟨fault, hfault⟩ := Option.isSome_iff_exists.mp hraised
    refine .faulty hraised fun tally hok => ?_
    -- The first fault that was raised is the verdict.
    have hverdict : run.verdict = .error fault := by
      unfold verdict
      rw [hfault]
    have hended : run.verdict = .ok tally := RunStage.over.inj hok
    rw [hverdict] at hended
    cases hended
  | work hworker hstep =>
    refine .faulty ?_ hover
    rcases Worker.alarm_step hstep with hsame | hfirst
    · exact hsame ▸ hraised
    · exact hfirst

/-- Whatever a doomed run does, it stays doomed. -/
theorem Doomed.step (h : run.Doomed workload) {move : Move}
    (hstep : Step workload clock run move next) : next.Doomed workload := by
  cases h with
  | gone hstage =>
    cases hstep with
    | turn hscanning | lose hscanning | scanned hscanning =>
      rw [hstage] at hscanning
      cases hscanning
    | close hclosing =>
      rw [hstage] at hclosing
      cases hclosing
    | join hjoining =>
      rw [hstage] at hjoining
      cases hjoining
    | work => exact .gone hstage
  | faulty hraised hover => exact doomed_of_raised hraised hover hstep
  | unread hstage htimeless hquiet hscan hpanics =>
    cases hstep with
    | turn _ hrequest hanswers =>
      obtain ⟨hserved, rfl⟩ := unread_served hscan hquiet htimeless hpanics hrequest hanswers
      exact .unread hstage htimeless hquiet hserved hpanics
    | lose => exact .gone rfl
    | scanned _ hrequest =>
      -- A scan that has read nothing returns a fault only, and that is raised.
      rcases hscan.phase_eq with hphase | hphase | hphase | hphase | ⟨fault, hphase⟩ <;>
        simp only [Scan.request?, hphase, reduceCtorEq] at hrequest
      simp only [scanned, Scan.result?, hphase]
      refine .faulty rfl fun tally hcontra => ?_
      cases hcontra
    | close hclosing =>
      rw [hstage] at hclosing
      cases hclosing
    | join hjoining =>
      rw [hstage] at hjoining
      cases hjoining
    | work hworker hstep =>
      rcases Worker.alarm_step hstep with hsame | hfirst
      · exact .unread hstage htimeless (hsame.trans hquiet) hscan hpanics
      · refine .faulty hfirst fun tally hcontra => ?_
        have hsame : run.stage = .over (.ok tally) := hcontra
        rw [hstage] at hsame
        cases hsame

/-- A run whose reader panics at the first item never ends well, whatever the schedule. -/
theorem not_over_ok_of_panics {settings : Settings} {world : ω} {input : φ}
    {first last : Run α κ τ ω φ} {moves : List (Clock × Move)} (hbatches : 0 < settings.batchSize)
    (hqueues : 0 < settings.queueCount) (hduration : settings.duration = none)
    (hpanics : (workload.next input).2 = .panicked)
    (hstart : start workload settings world input = .ok first)
    (hmoves : first.follow? workload moves = some last) (tally : ScanTally) :
    last.stage ≠ .over (.ok tally) := by
  have hfirst : first.Doomed workload := by
    have hbegins := begins_start hstart
    obtain ⟨hsame, hinput, -, hquiet, -⟩ := start_eq hstart
    refine .unread hbegins.stage_eq (hsame.trans hduration) hquiet ?_ (hinput ▸ hpanics)
    rw [hbegins.scan_eq]
    exact Scan.unread_start rfl hbatches hqueues
  have hlast : last.Doomed workload :=
    follow?_preserves (fun _ _ _ hdoomed hstep => hdoomed.step (step?_sound hstep)) hfirst hmoves
  exact hlast.not_over_ok tally

end Run

end LoadBench
