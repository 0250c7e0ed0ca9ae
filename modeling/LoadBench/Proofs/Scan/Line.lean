/-
  LoadBench.Proofs.Scan.Line

  When a line starts.  A batch that is handed over goes behind a line that is
  there already; a queue without a line gets one only when it is offered a batch
  and has no slot for it (`waitingOf_resume`).  An acknowledgment of a queue with
  a line puts the head of the line on offer (`resends_acknowledged`).
-/

import LoadBench.Proofs.Scan.Reading

namespace LoadBench

variable {α : Type}

namespace Scan

/-- How many batches of a queue are on offer that were the head of its line. -/
def resends (scan : Scan α) (queue : Nat) : Nat :=
  match scan.phase with
  | .resending chosen _ _ => if chosen = queue then 1 else 0
  | _ => 0

variable {scan : Scan α} {queue : Nat}

theorem waitingOf_moved {moved : Scan α} (hmoved : Moved scan moved) (queue : Nat) :
    moved.waitingOf queue = scan.waitingOf queue := by
  obtain ⟨phase, rfl⟩ := hmoved
  rfl

theorem waitingOf_set_ne {other : Nat} (hne : other ≠ queue) (line : List (Batch α)) :
    (scan.waiting.set other line).getD queue [] = scan.waitingOf queue := by
  rw [List.getD_eq_getElem?_getD, List.getElem?_set_ne hne, waitingOf, List.getD_eq_getElem?_getD]

theorem waitingOf_charge (h : scan.waitingOf queue = []) (other : Nat) (batch : Batch α)
    (ending : Bool) : (scan.charge other batch ending).waitingOf queue = [] := by
  unfold charge
  dsimp only
  split
  · exact h
  · next hline =>
    -- A batch goes behind a line that is there already, so its queue is another one.
    have hne : other ≠ queue := by
      rintro rfl
      exact hline (List.isEmpty_iff.mpr h)
    rw [waitingOf_moved (moved_handedOver _ _ _)]
    exact (waitingOf_set_ne hne _).trans h

theorem waitingOf_settle (h : scan.waitingOf queue = []) (purpose : Purpose α) :
    (scan.settle purpose).waitingOf queue = [] := by
  cases purpose with
  | reading => exact h
  | room other batch ending => exact waitingOf_charge h other batch ending
  | drain => exact (waitingOf_moved (moved_drain scan) queue).trans h

theorem waitingOf_acknowledge (h : scan.waitingOf queue = []) (other : Nat) (purpose : Purpose α) :
    (scan.acknowledge other purpose).waitingOf queue = [] := by
  unfold acknowledge
  split
  · exact h
  · dsimp only
    split
    · exact waitingOf_settle (by exact h) purpose
    · next batch rest hline =>
      have hne : other ≠ queue := by
        rintro rfl
        have hnil : scan.waitingOf other = batch :: rest := hline
        rw [h] at hnil
        cases hnil
      exact (waitingOf_set_ne hne rest).trans h

theorem waitingOf_push (scan : Scan α) (item : α) (queue : Nat) :
    (scan.push item).waitingOf queue = scan.waitingOf queue := by
  unfold push
  dsimp only
  split
  · rfl
  · split
    · rfl
    · exact waitingOf_moved (moved_proceed _) queue

theorem waitingOf_handOver (h : scan.waitingOf queue = []) (other : Nat) (batch : Batch α)
    (ending : Bool) : (scan.handOver other batch ending).waitingOf queue = [] := by
  unfold handOver
  split
  · exact h
  · exact waitingOf_charge h other batch ending

/-- A line starts only where a queue has no slot for the batch it is offered. -/
theorem waitingOf_resume (h : scan.waitingOf queue = []) (reply : Reply α)
    (hslot : ∀ batch, scan.request? = some (.send queue batch) → reply ≠ .offered .full) :
    (scan.resume reply).waitingOf queue = [] := by
  -- A queue that has no slot is another one.
  have hsend : ∀ {other} batch, scan.request? = some (.send other batch) →
      reply = .offered .full → other ≠ queue := by
    rintro other batch hrequest hfull rfl
    exact hslot batch hrequest hfull
  unfold resume
  split
  · dsimp only
    split
    · exact (waitingOf_moved (moved_proceed _) queue).trans h
    · exact h
  · split
    · exact (waitingOf_moved (moved_flushFrom scan 0) queue).trans h
    · exact (waitingOf_moved (moved_readMore scan) queue).trans h
  · exact waitingOf_acknowledge h _ _
  · exact h
  · exact h
  · exact waitingOf_settle (by exact h) _
  · next other batch purpose hphase =>
    have hne : other ≠ queue := hsend batch (by rw [request?, hphase]) rfl
    exact waitingOf_settle (by exact (waitingOf_set_ne hne _).trans h) _
  · exact h
  · exact (waitingOf_push scan _ queue).trans h
  · exact (waitingOf_moved (moved_passEnded scan) queue).trans h
  · exact (waitingOf_moved (moved_flushFrom _ 0) queue).trans h
  · exact waitingOf_handOver (by exact h) _ _ _
  · exact (waitingOf_moved (moved_handedOver _ _ _) queue).trans h
  · next other batch ending hphase =>
    have hne : other ≠ queue := hsend batch (by rw [request?, hphase]) rfl
    exact (waitingOf_moved (moved_handedOver _ _ _) queue).trans ((waitingOf_set_ne hne _).trans h)
  · exact h
  · exact (waitingOf_moved (moved_proceed _) queue).trans h
  · exact (waitingOf_moved (moved_flushFrom scan 0) queue).trans h
  · exact (waitingOf_moved (moved_flushFrom _ 0) queue).trans h
  · exact h

/-- The head of a line is on offer once an acknowledgment of its queue has come. -/
theorem resends_acknowledged {wait : Bool} (hrequest : scan.request? = some (.acknowledgment wait))
    (hpos : 0 < scan.outstanding) (hline : scan.waitingOf queue ≠ []) :
    (scan.resume (.acknowledged queue)).resends queue = 1 := by
  have hphase : ∃ purpose, scan.phase = .awaiting purpose := by
    unfold request? at hrequest
    split at hrequest <;> first | exact ⟨_, by assumption⟩ | cases hrequest
  obtain ⟨purpose, hphase⟩ := hphase
  unfold resume
  simp only [hphase]
  -- The line is not empty, so its head goes out for the acknowledgment.
  unfold acknowledge
  rw [if_neg (Nat.pos_iff_ne_zero.mp hpos)]
  dsimp only
  split
  · next hnil => exact absurd hnil hline
  · exact if_pos rfl

/-- A scan that offers nothing resends nothing. -/
theorem resends_eq_zero (hsend : ∀ batch, scan.request? ≠ some (.send queue batch)) :
    scan.resends queue = 0 := by
  unfold resends
  split
  · next chosen batch purpose hphase =>
    refine if_neg ?_
    rintro rfl
    exact hsend batch (by rw [request?, hphase])
  · rfl

theorem resends_le_one (scan : Scan α) (queue : Nat) : scan.resends queue ≤ 1 := by
  unfold resends
  split
  · split <;> omega
  · exact Nat.zero_le _

end Scan

end LoadBench
