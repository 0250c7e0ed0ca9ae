/-
  LoadBench.Proofs.Run.Drive

  The schedule that a run takes by itself.  The driver of a run makes a step of the
  scan if it can make one, and otherwise of the first worker that can
  (`Run.stepAny?`).  It finds a step wherever there is one (`stepAny?_eq_none_iff`),
  so what it makes of a run is one of the schedules that all results about runs are
  about (`exists_schedule_driveFor`), and a run that leads to something comes to it
  if the driver may make enough steps (`Leads.driveFor`).

  What a user gets (`Workload.run`) is the outcome of a run that was driven, if the
  settings are valid and there is room for what a run starts with
  (`Settings.canStart`); without that room no run starts (`run_cases`).  What is said
  of a run at its start (`Run.LaidOut`) and of its schedules (`Run.Heeds`,
  `Run.Frugal`) needs no room: it holds of every run that would start.
-/

import LoadBench.Proofs.Run.Chronicle
import LoadBench.Proofs.Run.Schedule
import LoadBench.Run.Outcome

namespace LoadBench

variable {α κ τ ω φ : Type}

namespace Dispatch

variable {dispatch : Dispatch α}

/-- What the depot can answer at all, it can answer with the first queue that is ready. -/
theorem isSome_serve?_firstReady {pick : Nat} (h : (dispatch.serve? pick).isSome = true) :
    (dispatch.serve? dispatch.depot.firstReady).isSome = true := by
  unfold serve? at h ⊢
  cases hrequest : dispatch.scan.request? with
  | none =>
    simp only [hrequest] at h
    cases h
  | some request =>
    simp only [hrequest] at h
    cases request with
    | emptyBatch => rfl
    | send queue batch => exact h
    | acknowledgment wait =>
      dsimp only at h ⊢
      by_cases hready : dispatch.depot.isReady = true
      · rw [if_pos hready]
        exact isSome_credit? hready
      · rw [if_neg hready] at h ⊢
        exact h
    | stop | item | rewind => cases h

end Dispatch

namespace Run

variable {workload : Workload α κ τ ω φ} {clock : Clock} {run next : Run α κ τ ω φ}

/-! ## One step -/

theorem isSome_mainStep?_firstReady {pick : Nat}
    (h : (run.mainStep? workload clock pick).isSome = true) :
    (run.mainStep? workload clock run.crew.floor.depot.firstReady).isSome = true := by
  unfold mainStep? at h ⊢
  cases hstage : run.stage with
  | scanning =>
    simp only [hstage] at h
    cases hrequest : run.scan.request? with
    | none => rfl
    | some request =>
      simp only [hrequest] at h
      cases request with
      | stop | item | rewind => rfl
      | emptyBatch | send | acknowledgment =>
        dsimp only at h ⊢
        rw [Option.isSome_map] at h ⊢
        exact Dispatch.isSome_serve?_firstReady h
  | _ =>
    simp only [hstage] at h
    exact h

/-- The driver stops only where nobody can go on. -/
theorem stepAny?_eq_none_iff :
    run.stepAny? workload clock = none ↔ ∀ move, run.step? workload clock move = none := by
  rw [stepAny?, Option.or_eq_none_iff, List.findSome?_eq_none_iff]
  refine ⟨fun ⟨hmain, hworkers⟩ move => ?_, fun h => ⟨h _, fun index _ => h _⟩⟩
  cases move with
  | main pick =>
    by_contra hgoes
    have hfirst := isSome_mainStep?_firstReady (Option.isSome_iff_ne_none.mpr hgoes)
    rw [step?] at hmain
    rw [hmain] at hfirst
    cases hfirst
  | worker index =>
    by_cases hindex : index < run.crew.size
    · exact hworkers index (List.mem_range.mpr hindex)
    · rw [step?, Crew.step?, List.getElem?_eq_none (Nat.le_of_not_lt hindex)]
      rfl

/-- What the driver does next is a step of the run. -/
theorem exists_move_of_stepAny? (h : run.stepAny? workload clock = some next) :
    ∃ move, run.step? workload clock move = some next := by
  rw [stepAny?, Option.or_eq_some_iff] at h
  rcases h with hmain | ⟨-, hworker⟩
  · exact ⟨_, hmain⟩
  · obtain ⟨index, -, hstep⟩ := List.exists_of_findSome?_eq_some hworker
    exact ⟨_, hstep⟩

/-! ## The schedule of the driver -/

/-- The driver makes moves of the run, as many as it may at most. -/
theorem exists_moves_driveFor (workload : Workload α κ τ ω φ) (clock : Clock) (fuel : Nat)
    (run : Run α κ τ ω φ) : ∃ moves : List Move, moves.length ≤ fuel ∧
      LoadBench.follow? (fun move run => run.step? workload clock move) moves run =
        some (run.driveFor workload clock fuel) := by
  induction fuel generalizing run with
  | zero => exact ⟨[], Nat.le_refl 0, rfl⟩
  | succ fuel ih =>
    rw [driveFor]
    split
    · next next hnext =>
      obtain ⟨move, hmove⟩ := exists_move_of_stepAny? hnext
      obtain ⟨moves, hlength, hmoves⟩ := ih next
      refine ⟨move :: moves, Nat.succ_le_succ hlength, ?_⟩
      rw [follow?_cons, hmove]
      exact hmoves
    · exact ⟨[], Nat.zero_le _, rfl⟩

/-- What the driver makes of a run is one of its schedules, in which no reporting period ends. -/
theorem exists_schedule_driveFor (workload : Workload α κ τ ω φ) (clock : Clock) (fuel : Nat)
    (run : Run α κ τ ω φ) : ∃ moves : List Move, moves.length ≤ fuel ∧
      run.follow? workload (moves.map (Prod.mk clock)) = some (run.driveFor workload clock fuel) ∧
      run.elapse? workload (moves.map (.move clock)) =
        some (run.driveFor workload clock fuel) := by
  obtain ⟨moves, hlength, hmoves⟩ := exists_moves_driveFor workload clock fuel run
  refine ⟨moves, hlength, ?_, ?_⟩
  · rw [follow?, follow?_map]
    exact hmoves
  · rw [elapse?, follow?_map]
    exact hmoves

/-! ## Enough steps -/

theorem driveFor_of_none (h : run.stepAny? workload clock = none) (fuel : Nat) :
    run.driveFor workload clock fuel = run := by
  cases fuel with
  | zero => rfl
  | succ fuel => rw [driveFor, h]

theorem driveFor_of_some (h : run.stepAny? workload clock = some next) (fuel : Nat) :
    run.driveFor workload clock (fuel + 1) = next.driveFor workload clock fuel := by
  rw [driveFor, h]

variable {good : Run α κ τ ω φ → Prop}

/-- Where every schedule comes to an end, so does that of the driver. -/
theorem Leads.exists_fuel (h : run.Leads workload good) (clock : Clock) :
    ∃ fuel, ∀ more,
      (run.driveFor workload clock (fuel + more)).stepAny? workload clock = none := by
  induction h with
  | halts hstuck _ =>
    have hnone := stepAny?_eq_none_iff.mpr (hstuck clock)
    refine ⟨0, fun more => ?_⟩
    rw [driveFor_of_none hnone]
    exact hnone
  | @goesOn run hmoves _ ih =>
    cases hnext : run.stepAny? workload clock with
    | none =>
      obtain ⟨move, hmove⟩ := hmoves clock
      rw [stepAny?_eq_none_iff.mp hnext move] at hmove
      cases hmove
    | some next =>
      obtain ⟨move, hmove⟩ := exists_move_of_stepAny? hnext
      obtain ⟨fuel, hfuel⟩ := ih run clock move next .now hmove
      refine ⟨fuel + 1, fun more => ?_⟩
      rw [Nat.add_right_comm, driveFor_of_some hnext]
      exact hfuel more

/-- The driver comes to what a run leads to, if it may make enough steps. -/
theorem Leads.driveFor (h : run.Leads workload good) (clock : Clock) :
    ∃ fuel, ∀ more, good (run.driveFor workload clock (fuel + more)) := by
  obtain ⟨fuel, hfuel⟩ := h.exists_fuel clock
  refine ⟨fuel, fun more => ?_⟩
  obtain ⟨moves, -, hmoves, -⟩ := exists_schedule_driveFor workload clock (fuel + more) run
  exact (h.follow hmoves).good_of_stuck clock (stepAny?_eq_none_iff.mp (hfuel more))

end Run

/-! ## What a user gets -/

namespace Workload

variable {workload : Workload α κ τ ω φ} {settings : Settings} {world : ω} {input : φ}

/-- With valid settings and enough room, a user gets the outcome of a run that was driven. -/
theorem run_eq_outcome (hvalid : settings.validate = .ok ())
    (hroom : settings.canStart workload.room (workload.buffer input) = true)
    {first : Run α κ τ ω φ} (hstart : Run.start workload settings world input = .ok first)
    (clock : Clock) (took : TimeSpan) (fuel : Nat) :
    workload.run settings clock took fuel (.ok input) world =
      (first.driveFor workload clock fuel).outcome settings workload.configuration took := by
  simp only [run, hvalid, hroom, hstart, if_true]

/-- Whatever a user gets is the outcome of one of the schedules of a run, unless no run starts: the
settings or the input are refused, or there is no room. -/
theorem run_cases (workload : Workload α κ τ ω φ) (settings : Settings) (clock : Clock)
    (took : TimeSpan) (fuel : Nat) (given : Except Fault φ) (world : ω) :
    (∃ fault, (settings.validate = .error fault ∨ given = .error fault) ∧
      workload.run settings clock took fuel given world = Outcome.refused fault world) ∨
    (∃ input, given = .ok input ∧
      settings.canStart workload.room (workload.buffer input) = false ∧
      workload.run settings clock took fuel given world = Outcome.panicked world) ∨
    ∃ (input : φ) (first last : Run α κ τ ω φ) (moves : List Move), given = .ok input ∧
      Run.start workload settings world input = .ok first ∧
      first.follow? workload (moves.map (Prod.mk clock)) = some last ∧
      first.elapse? workload (moves.map (.move clock)) = some last ∧
      workload.run settings clock took fuel given world =
        last.outcome settings workload.configuration took := by
  cases hvalid : settings.validate with
  | error fault => exact Or.inl ⟨fault, Or.inl rfl, by simp only [run, hvalid]⟩
  | ok valid =>
    cases given with
    | error fault => exact Or.inl ⟨fault, Or.inr rfl, by simp only [run, hvalid]⟩
    | ok input =>
      cases hroom : settings.canStart workload.room (workload.buffer input) with
      | false =>
        refine Or.inr (Or.inl ⟨input, rfl, hroom, ?_⟩)
        simp only [run, hvalid, hroom, Bool.false_eq_true, if_false]
      | true =>
        obtain ⟨first, hstart⟩ := Run.exists_start workload (Settings.valid hvalid).2.1 world input
        obtain ⟨moves, -, hmoves, helapse⟩ :=
          Run.exists_schedule_driveFor workload clock fuel first
        exact Or.inr (Or.inr ⟨input, first, _, moves, rfl, hstart, hmoves, helapse,
          run_eq_outcome hvalid hroom hstart clock took fuel⟩)

/-- A user gets what the run leads to, if enough steps are made. -/
theorem exists_fuel_run (hvalid : settings.validate = .ok ())
    (hroom : settings.canStart workload.room (workload.buffer input) = true)
    {first : Run α κ τ ω φ} (hstart : Run.start workload settings world input = .ok first)
    {took : TimeSpan} (good : Outcome ω → Prop)
    (hleads : first.Leads workload fun last =>
      good (last.outcome settings workload.configuration took)) (clock : Clock) :
    ∃ fuel, ∀ more, good (workload.run settings clock took (fuel + more) (.ok input) world) := by
  obtain ⟨fuel, hfuel⟩ := hleads.driveFor clock
  refine ⟨fuel, fun more => ?_⟩
  rw [run_eq_outcome hvalid hroom hstart]
  exact hfuel more

end Workload

end LoadBench
