/-
  LoadBench.Proofs.Scan.Untimed

  A scan that can be stopped and can read its input again, but is told to do
  neither.  It does what the scan does that reads its input once (`Scan.plain`),
  except that it asks whether to stop before each item, and asks for the input
  from its start behind the last one.  `untimed_resume` says so for each reply,
  and `untimed_checked` and `untimed_unrewound` for the replies to what only one
  of the two scans asks.
-/

import LoadBench.Proofs.Scan.Turn

namespace LoadBench

variable {α : Type}

namespace Scan

/-- Whether a scan asks for something that a scan which reads its input once never asks for. -/
def Controlled (scan : Scan α) : Prop := scan.phase = .checking ∨ scan.phase = .rewinding

/-- The scan that reads its input once. What another scan asks for besides, it takes to be answered so
that the reading goes on as planned. -/
def plain (scan : Scan α) : Scan α :=
  let once : Scan α := { scan with plan := { scan.plan with mode := .once } }
  match scan.phase with
  | .checking => once.readMore
  | .rewinding => once.finish
  | _ => once

variable {plan : ScanPlan} {timed once : Scan α}

/-- Whether two scans have a plan and differ in how often they read their input, and in their phases
at most. -/
structure Alike (plan : ScanPlan) (timed once : Scan α) : Prop where
  plan_eq : timed.plan = plan
  once_eq : ∃ phase, once = { timed with plan := { plan with mode := .once }, phase }

/-- Whether a scan has a plan without a deadline, and another scan is the one that reads its input
once.  Without a limit the input is not read again. -/
structure Untimed (plan : ScanPlan) (timed once : Scan α) : Prop where
  plan_eq : timed.plan = plan
  once_eq : once = timed.plain
  forward : plan.limit = 0 → timed.phase ≠ .rewinding

/-! ## What the scans need -/

theorem plain_of_not_controlled (h : ¬timed.Controlled) :
    timed.plain = { timed with plan := { timed.plan with mode := .once } } := by
  unfold plain
  split
  · next hphase => exact absurd (Or.inl hphase) h
  · next hphase => exact absurd (Or.inr hphase) h
  · rfl

theorem Untimed.request?_eq (h : Untimed plan timed once) (hplain : ¬timed.Controlled) :
    once.request? = timed.request? := by
  rw [h.once_eq, plain_of_not_controlled hplain]
  rfl

theorem Untimed.result?_eq (h : Untimed plan timed once) (hplain : ¬timed.Controlled) :
    once.result? = timed.result? := by
  rw [h.once_eq, plain_of_not_controlled hplain]
  rfl

theorem request?_eq_stop {scan : Scan α} :
    scan.request? = some .stop ↔ scan.phase = .checking := by
  unfold request?
  cases scan.phase with
  | awaiting purpose => cases purpose <;> simp
  | _ => simp

theorem request?_eq_rewind {scan : Scan α} :
    scan.request? = some .rewind ↔ scan.phase = .rewinding := by
  unfold request?
  cases scan.phase with
  | awaiting purpose => cases purpose <;> simp
  | _ => simp

/-! ## What a phase does not matter for -/

theorem drain_phase (scan : Scan α) (phase : Phase α) : drain { scan with phase } = scan.drain := by
  unfold drain
  dsimp only
  split <;> rfl

theorem flushFrom_phase (scan : Scan α) (phase : Phase α) (queue : Nat) :
    flushFrom { scan with phase } queue = scan.flushFrom queue := by
  unfold flushFrom
  dsimp only
  split
  · rfl
  · exact drain_phase scan phase

theorem readMore_phase (scan : Scan α) (phase : Phase α) :
    readMore { scan with phase } = scan.readMore := by
  unfold readMore
  dsimp only
  split
  · exact flushFrom_phase scan phase 0
  · rfl

/-! ## What the scans make of replies -/

section

variable (hmode : plan.mode = .timed false)

/-- Scans in one phase, in which both ask for the same. -/
theorem Alike.untimed (h : Alike plan timed once) (hphase : once.phase = timed.phase)
    (hchecking : timed.phase ≠ .checking) (hrewinding : timed.phase ≠ .rewinding) :
    Untimed plan timed once := by
  obtain ⟨rfl, phase, rfl⟩ := h
  obtain rfl : phase = timed.phase := hphase
  exact ⟨rfl, (plain_of_not_controlled (not_or.mpr ⟨hchecking, hrewinding⟩)).symm,
    fun _ => hrewinding⟩

theorem Alike.fail (h : Alike plan timed once) (fault : ScanFault) :
    Untimed plan (timed.fail fault) (once.fail fault) := by
  obtain ⟨rfl, phase, rfl⟩ := h
  exact Alike.untimed ⟨rfl, _, rfl⟩ rfl nofun nofun

theorem Alike.drain (h : Alike plan timed once) : Untimed plan timed.drain once.drain := by
  obtain ⟨rfl, phase, rfl⟩ := h
  unfold Scan.drain
  dsimp only
  split
  · exact Alike.untimed ⟨rfl, _, rfl⟩ rfl nofun nofun
  · exact Alike.untimed ⟨rfl, _, rfl⟩ rfl nofun nofun

theorem Alike.flushFrom (h : Alike plan timed once) (queue : Nat) :
    Untimed plan (timed.flushFrom queue) (once.flushFrom queue) := by
  obtain ⟨rfl, phase, rfl⟩ := h
  unfold Scan.flushFrom
  dsimp only
  split
  · exact Alike.untimed ⟨rfl, _, rfl⟩ rfl nofun nofun
  · exact Alike.drain ⟨rfl, _, rfl⟩

theorem Alike.readMore (h : Alike plan timed once) :
    Untimed plan timed.readMore once.readMore := by
  obtain ⟨rfl, phase, rfl⟩ := h
  unfold Scan.readMore
  dsimp only
  split
  · exact Alike.flushFrom ⟨rfl, _, rfl⟩ 0
  · exact Alike.untimed ⟨rfl, _, rfl⟩ rfl nofun nofun

include hmode

theorem Alike.proceed (h : Alike plan timed once) : Untimed plan timed.proceed once.proceed := by
  obtain ⟨rfl, phase, rfl⟩ := h
  unfold Scan.proceed
  rw [hmode]
  dsimp only
  -- The scan that can be stopped asks first, and the other goes on as if it had been told to.
  refine ⟨rfl, ?_, fun _ => nofun⟩
  have hsame := readMore_phase { timed with plan := { timed.plan with mode := .once } }
  exact (hsame phase).trans (hsame .checking).symm

theorem Alike.handedOver (h : Alike plan timed once) (queue : Nat) (ending : Bool) :
    Untimed plan (timed.handedOver queue ending) (once.handedOver queue ending) := by
  unfold Scan.handedOver
  split
  · exact h.flushFrom (queue + 1)
  · exact h.proceed hmode

theorem Alike.charge (h : Alike plan timed once) (queue : Nat) (batch : Batch α) (ending : Bool) :
    Untimed plan (timed.charge queue batch ending) (once.charge queue batch ending) := by
  obtain ⟨rfl, phase, rfl⟩ := h
  unfold Scan.charge
  dsimp only
  by_cases hline : (timed.waitingOf queue).isEmpty = true
  · rw [if_pos (by exact hline), if_pos (by exact hline)]
    exact Alike.untimed ⟨rfl, _, rfl⟩ rfl nofun nofun
  · rw [if_neg (by exact hline), if_neg (by exact hline)]
    exact Alike.handedOver hmode (by exact ⟨rfl, _, rfl⟩) queue ending

theorem Alike.handOver (h : Alike plan timed once) (queue : Nat) (batch : Batch α)
    (ending : Bool) :
    Untimed plan (timed.handOver queue batch ending) (once.handOver queue batch ending) := by
  obtain ⟨rfl, phase, rfl⟩ := h
  unfold Scan.handOver
  by_cases hexhausted : timed.isExhausted = true
  · rw [if_pos hexhausted, if_pos (by exact hexhausted)]
    exact Alike.untimed ⟨rfl, _, rfl⟩ rfl nofun nofun
  · rw [if_neg hexhausted, if_neg (by exact hexhausted)]
    exact Alike.charge hmode (by exact ⟨rfl, _, rfl⟩) queue batch ending

theorem Alike.settle (h : Alike plan timed once) (purpose : Purpose α) :
    Untimed plan (timed.settle purpose) (once.settle purpose) := by
  cases purpose with
  | reading =>
    obtain ⟨rfl, phase, rfl⟩ := h
    exact Alike.untimed ⟨rfl, _, rfl⟩ rfl nofun nofun
  | room queue batch ending => exact h.charge hmode queue batch ending
  | drain => exact h.drain

theorem Alike.acknowledge (h : Alike plan timed once) (queue : Nat) (purpose : Purpose α) :
    Untimed plan (timed.acknowledge queue purpose) (once.acknowledge queue purpose) := by
  obtain ⟨rfl, phase, rfl⟩ := h
  unfold Scan.acknowledge
  dsimp only [waitingOf]
  split
  · exact Alike.fail (by exact ⟨rfl, _, rfl⟩) .stray
  · cases timed.waiting.getD queue [] with
    | nil => exact Alike.settle hmode (by exact ⟨rfl, _, rfl⟩) purpose
    | cons batch rest => exact Alike.untimed ⟨rfl, _, rfl⟩ rfl nofun nofun

theorem Alike.push (h : Alike plan timed once) (item : α) :
    Untimed plan (timed.push item) (once.push item) := by
  obtain ⟨rfl, phase, rfl⟩ := h
  unfold Scan.push
  dsimp only [batchOf]
  split
  · exact Alike.fail (by exact ⟨rfl, _, rfl⟩) _
  · split
    · exact Alike.untimed ⟨rfl, _, rfl⟩ rfl nofun nofun
    · exact Alike.proceed hmode (by exact ⟨rfl, _, rfl⟩)

/-- Behind the last item a scan with a limit may ask for the input from its start. -/
theorem Alike.passEnded (h : Alike plan timed once) :
    Untimed plan timed.passEnded once.passEnded := by
  have honce : once.passEnded = once.finish := by
    obtain ⟨-, _, rfl⟩ := h
    exact if_neg fun hagain => Bool.false_ne_true hagain.1
  rw [honce]
  unfold Scan.passEnded
  split
  · next hagain =>
    obtain ⟨rfl, phase, rfl⟩ := h
    refine ⟨rfl, ?_, fun hlimit => ?_⟩
    · have hsame := flushFrom_phase { timed with plan := { timed.plan with mode := .once } }
      exact (hsame phase 0).trans (hsame .rewinding 0).symm
    · have hrepeated := hagain.1
      rw [ScanPlan.isRepeated, hmode, hlimit] at hrepeated
      cases hrepeated
  · exact h.flushFrom 0

/-- Whatever both scans ask for, they make the same of what they are answered. -/
theorem untimed_resume (h : Untimed plan timed once) (hplain : ¬timed.Controlled)
    (reply : Reply α) : Untimed plan (timed.resume reply) (once.resume reply) := by
  have honce : once = { timed with plan := { plan with mode := .once } } := by
    obtain ⟨rfl, rfl, -⟩ := h
    exact plain_of_not_controlled hplain
  have halike : Alike plan timed once := ⟨h.plan_eq, timed.phase, honce⟩
  have hphase : once.phase = timed.phase := by rw [honce]
  obtain ⟨hchecking, hrewinding⟩ := not_or.mp hplain
  unfold resume
  rw [hphase]
  split
  · next batch hopening =>
    subst honce
    dsimp only
    rw [h.plan_eq]
    split
    · exact Alike.proceed hmode (by exact ⟨rfl, _, rfl⟩)
    · exact Alike.untimed (by exact ⟨rfl, _, rfl⟩) rfl (by exact hchecking) (by exact hrewinding)
  · next hcontra => exact absurd hcontra hchecking
  · exact halike.acknowledge hmode _ _
  · exact halike.settle hmode _
  · have houtstanding : once.outstanding = timed.outstanding := by rw [honce]
    rw [houtstanding]
    exact halike.fail _
  · subst honce
    exact Alike.settle hmode (by exact ⟨h.plan_eq, _, rfl⟩) _
  · subst honce
    exact Alike.settle hmode (by exact ⟨h.plan_eq, _, rfl⟩) _
  · exact halike.fail _
  · exact halike.push hmode _
  · exact halike.passEnded hmode
  · subst honce
    exact Alike.flushFrom (by exact ⟨h.plan_eq, _, rfl⟩) 0
  · subst honce
    exact Alike.handOver hmode (by exact ⟨h.plan_eq, _, rfl⟩) _ _ _
  · subst honce
    exact Alike.handedOver hmode (by exact ⟨h.plan_eq, _, rfl⟩) _ _
  · subst honce
    exact Alike.handedOver hmode (by exact ⟨h.plan_eq, _, rfl⟩) _ _
  · exact halike.fail _
  · next hcontra => exact absurd hcontra hrewinding
  · next hcontra => exact absurd hcontra hrewinding
  · next hcontra => exact absurd hcontra hrewinding
  · exact h

end

/-- A scan that is told not to stop goes on as the scan that does not ask. -/
theorem untimed_checked (h : Untimed plan timed once) (hphase : timed.phase = .checking) :
    Untimed plan (timed.resume (.stop false)) once := by
  obtain ⟨rfl, rfl, -⟩ := h
  have hplain : timed.plain =
      readMore { timed with plan := { timed.plan with mode := .once } } := by rw [plain, hphase]
  have hresume : timed.resume (.stop false) = timed.readMore := by
    simp only [resume, hphase, Bool.false_eq_true, if_false]
  rw [hplain, hresume]
  exact Alike.readMore ⟨rfl, _, rfl⟩

/-- A scan whose input is not read again ends the reading as the scan that does not ask for it. -/
theorem untimed_unrewound (h : Untimed plan timed once) (hphase : timed.phase = .rewinding) :
    Untimed plan (timed.resume (.rewound false)) once := by
  obtain ⟨rfl, rfl, -⟩ := h
  have hplain : timed.plain =
      finish { timed with plan := { timed.plan with mode := .once } } := by rw [plain, hphase]
  have hresume : timed.resume (.rewound false) = timed.finish := by simp only [resume, hphase]
  rw [hplain, hresume]
  exact Alike.flushFrom ⟨rfl, _, rfl⟩ 0

theorem not_controlled_flushFrom (scan : Scan α) (queue : Nat) :
    ¬(scan.flushFrom queue).Controlled := by
  unfold flushFrom
  split
  · exact not_or.mpr ⟨nofun, nofun⟩
  · unfold drain
    split <;> exact not_or.mpr ⟨nofun, nofun⟩

theorem not_controlled_readMore (scan : Scan α) : ¬scan.readMore.Controlled := by
  unfold readMore
  split
  · exact not_controlled_flushFrom scan 0
  · exact not_or.mpr ⟨nofun, nofun⟩

/-- A scan that reads its input once asks for nothing that the other scan is not asked for. -/
theorem not_controlled_plain (scan : Scan α) : ¬scan.plain.Controlled := by
  by_cases hcontrolled : scan.Controlled
  · unfold plain
    rcases hcontrolled with hphase | hphase
    · rw [hphase]
      exact not_controlled_readMore _
    · rw [hphase]
      exact not_controlled_flushFrom _ 0
  · rw [plain_of_not_controlled hcontrolled]
    exact hcontrolled

/-- Both scans start alike, also if they cannot start. -/
theorem untimed_start (plan : ScanPlan) (routing : Routing α) :
    Untimed plan (start plan routing) (start { plan with mode := .once } routing) := by
  refine Alike.untimed ⟨rfl, _, rfl⟩ rfl ?_ ?_
  all_goals
    unfold start
    dsimp only
    split
    · exact nofun
    · split <;> exact nofun

end Scan

end LoadBench
