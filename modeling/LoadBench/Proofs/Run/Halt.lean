/-
  LoadBench.Proofs.Run.Halt

  A run in which something has failed comes to its end, whatever the schedule.  Its
  scan does not ask any more whether it is to stop, or is told so; what it has
  before it then goes down with each answer, and between two answers the workers
  have less and less to do.
-/

import LoadBench.Proofs.Crew.Journal
import LoadBench.Proofs.Run.Schedule
import LoadBench.Proofs.Scan.Halt

namespace LoadBench

variable {α κ τ ω φ : Type}

/-- An alarm that is raised stays so. -/
theorem Worker.isRaised_step {handler : Handler α κ τ ω} {clock : Clock}
    {worker worker' : Worker α κ τ} {floor floor' : Floor α ω}
    (h : floor.alarm.isRaised = true)
    (hstep : Step handler clock worker floor worker' floor') : floor'.alarm.isRaised = true := by
  rw [(floor_of_step hstep).1]
  cases (worker.deed? handler clock floor).bind (Deed.fault? worker.post.worker) with
  | none => exact h
  | some fault => rfl

namespace Run

variable {workload : Workload α κ τ ω φ} {clock : Clock} {run next : Run α κ τ ω φ}
  {plan : ScanPlan} {routing : Routing α} {hasDeadline : Bool}

/-- What spoils the scan of a run, and leaves it spoiled. -/
theorem Kept.spoiled_turn (h : run.Kept plan routing) (hstage : run.stage = .scanning)
    {request : Request α} {reply : Reply α} {depot : Depot α} {input : φ}
    (hrequest : run.scan.request? = some request)
    (hanswers : Answers workload clock run request reply depot input)
    (hspoils : run.scan.Spoiled ∨ run.scan.BreaksOff reply ∨ ∃ fault, reply = .unreadable fault) :
    (run.scan.resume reply).Spoiled := by
  obtain ⟨hadmits, -, hstands⟩ := h.turn hstage hrequest hanswers
  refine Scan.spoiled_resume hrequest hadmits ?_ hspoils
  intro hphase
  rw [hphase] at hstands
  exact hstands

/-- Whether a run comes from another by one step, before which some reporting periods have ended. -/
def Comes (workload : Workload α κ τ ω φ) (later earlier : Run α κ τ ω φ) : Prop :=
  ∃ reported clock move, earlier.Reported reported ∧
    reported.step? workload clock move = some later

theorem Reported.exists_ledger {reported : Run α κ τ ω φ} (h : run.Reported reported) :
    ∃ ledger, reported = run.withLedger ledger := by
  induction h with
  | now => exact ⟨run.crew.floor.ledger, rfl⟩
  | period _ timestamp took previous ih =>
    obtain ⟨ledger, rfl⟩ := ih
    exact ⟨_, rfl⟩

/-- Whether the scan of a run has returned, is told to stop whenever it asks, or does not ask. -/
def IsStopping (run : Run α κ τ ω φ) : Prop :=
  run.stage = .scanning → run.crew.floor.alarm.isRaised = true ∨ run.scan.Spoiled

/-- What a run that stops has still to do: its scan first, and then its workers. -/
def leftover (run : Run α κ τ ω φ) : Nat × (Nat × Multiset τ) :=
  (match run.stage with
    | .scanning => run.scan.burden + 1
    | _ => 0, run.remaining)

theorem leftover_of_eq (hstage : run.stage = .scanning) :
    run.leftover = (run.scan.burden + 1, run.remaining) := by
  rw [leftover, hstage]

theorem leftover_of_ne (hstage : run.stage ≠ .scanning) : run.leftover = (0, run.remaining) := by
  unfold leftover
  split
  · next hcontra => exact absurd hcontra hstage
  · rfl

/-- A scan that is answered when the run stops has less before it. -/
theorem Kept.burden_resume (h : run.Kept plan routing) (hmode : plan.mode = .timed hasDeadline)
    (hstage : run.stage = .scanning) (hstops : run.IsStopping) {request : Request α}
    {reply : Reply α} {depot : Depot α} {input : φ} (hrequest : run.scan.request? = some request)
    (hanswers : Answers workload clock run request reply depot input) :
    (run.scan.resume reply).burden < run.scan.burden := by
  obtain ⟨hadmits, hplan, hstands⟩ := h.turn hstage hrequest hanswers
  refine Scan.burden_resume (by rw [hplan]; exact hmode) ?_ hrequest hadmits ?_
  · intro hphase
    rw [hphase] at hstands
    exact hstands
  · intro hreply
    cases hanswers with
    | stop =>
      rcases hstops hstage with hraised | hspoiled
      · rw [isStopped, hraised] at hreply
        cases hreply
      · exact hspoiled.request_ne_stop hrequest
    | @rewind _ again hagain => cases again <;> cases hreply
    | _ => cases hreply

/-- Each step of a run that stops leaves less to do, whoever makes it. -/
theorem leftover_step (h : run.Kept plan routing) (hmode : plan.mode = .timed hasDeadline)
    (hstops : run.IsStopping) {move : Move} (hstep : Step workload clock run move next) :
    next.IsStopping ∧
      Prod.Lex (· < ·) (Crew.Less workload.handler.Continues) next.leftover run.leftover := by
  by_cases hstage : run.stage = .scanning
  · rw [leftover_of_eq hstage]
    cases hstep with
    | turn _ hrequest hanswers =>
      have hless := h.burden_resume hmode hstage hstops hrequest hanswers
      refine ⟨fun _ => (hstops hstage).imp_right fun hspoiled => ?_, ?_⟩
      · exact h.spoiled_turn hstage hrequest hanswers (Or.inl hspoiled)
      rw [leftover_of_eq (by exact hstage)]
      exact Prod.Lex.left _ _ (Nat.add_lt_add_right hless 1)
    | @lose _ input =>
      have hgone : (letGo { run with input } .panicked).stage ≠ .scanning := nofun
      refine ⟨fun hcontra => absurd hcontra hgone, ?_⟩
      rw [leftover_of_ne hgone]
      exact Prod.Lex.left _ _ (Nat.succ_pos _)
    | scanned =>
      have hclosing : run.scanned.stage ≠ .scanning := by
        rw [run.scanned_eq.1]
        exact nofun
      refine ⟨fun hcontra => absurd hcontra hclosing, ?_⟩
      rw [leftover_of_ne hclosing]
      exact Prod.Lex.left _ _ (Nat.succ_pos _)
    | close hclosing => exact absurd (hclosing.symm.trans hstage) nofun
    | join hjoining => exact absurd (hjoining.symm.trans hstage) nofun
    | work hworker hstep =>
      refine ⟨fun _ => (hstops hstage).imp_left fun hraised => ?_, ?_⟩
      · exact Worker.isRaised_step hraised hstep
      rw [leftover_of_eq (by exact hstage)]
      exact Prod.Lex.right _ (remaining_work hworker (fun _ _ _ hgoing => hgoing) hstep)
  · obtain ⟨hnext, hless⟩ := remaining_step hstage (fun _ _ _ _ _ hgoing => hgoing) hstep
    refine ⟨fun hcontra => absurd hcontra hnext, ?_⟩
    rw [leftover_of_ne hstage, leftover_of_ne hnext]
    exact Prod.Lex.right _ hless

/-- A run that stops does not go on for ever, if jobs end. -/
theorem acc_of_stopping (hends : workload.handler.Ends) (hmode : plan.mode = .timed hasDeadline)
    (h : run.Kept plan routing) (hstops : run.IsStopping) : Acc (Comes workload) run := by
  -- By induction on what is left to do, whoever makes the next step.
  have hwell : WellFounded (Prod.Lex (· < ·) (Crew.Less workload.handler.Continues)) :=
    WellFounded.prod_lex Nat.lt_wfRel.wf (Crew.less_wellFounded hends)
  induction hrest : run.leftover using hwell.induction generalizing run with
  | _ rest ih =>
    refine ⟨run, fun later hlater => ?_⟩
    obtain ⟨reported, clock, move, hreported, hmove⟩ := hlater
    obtain ⟨ledger, rfl⟩ := hreported.exists_ledger
    have hkept := h.withLedger ledger
    have hstep := step?_sound hmove
    obtain ⟨hstopping, hless⟩ := leftover_step hkept hmode hstops hstep
    exact ih _ (hrest ▸ hless) (kept_step hkept hstep) hstopping rfl

end Run

end LoadBench
