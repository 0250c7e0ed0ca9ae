/-
  LoadBench.Proofs.Scan.Blame

  What a fault of the input changes about a scan that has ended the reading.  The
  blamed scan (`Scan.blaming`) bears the fault and returns it in the place of its
  summary; it asks for the same things as the other, and what it makes of a reply
  is what the other makes of it, blamed (`resume_blaming`).

  A scan bears a fault only once it has ended the reading (`Scan.Blameless`), so
  an input that cannot be read and one that ends leave twins behind
  (`finish_blaming`).
-/

import LoadBench.Proofs.Scan.Halt

namespace LoadBench

variable {α : Type}

/-! ## Blamed scans -/

/-- The same phase, with a fault in the place of a summary. -/
def Phase.blaming (fault : Fault) : Phase α → Phase α
  | .returned (.ok _) => .returned (.error (.unreadable fault))
  | phase => phase

namespace Scan

/-- The same scan, if it was a fault that ended the reading. -/
def blaming (fault : Fault) (scan : Scan α) : Scan α :=
  { scan with readFault := some fault, phase := scan.phase.blaming fault }

variable {scan : Scan α} {fault : Fault}

/-- A blamed scan needs what the scan needs. -/
@[simp] theorem request?_blaming (fault : Fault) (scan : Scan α) :
    (scan.blaming fault).request? = scan.request? := by
  cases hphase : scan.phase with
  | returned result => cases result <;> simp [request?, blaming, Phase.blaming, hphase]
  | awaiting purpose => cases purpose <;> simp [request?, blaming, Phase.blaming, hphase,
      isExhausted]
  | _ => simp [request?, blaming, Phase.blaming, hphase]

/-- A blamed scan returns the fault when the scan returns its summary. -/
theorem result?_blaming (fault : Fault) (scan : Scan α) :
    (scan.blaming fault).result? = scan.result?.map fun
      | .ok _ => .error (.unreadable fault)
      | .error other => .error other := by
  cases hphase : scan.phase with
  | returned result => cases result <;> simp [result?, blaming, Phase.blaming, hphase]
  | _ => simp [result?, blaming, Phase.blaming, hphase]

theorem hasEnded_blaming (h : scan.HasEnded) (fault : Fault) : (scan.blaming fault).HasEnded := by
  unfold HasEnded blaming at *
  dsimp only
  cases hphase : scan.phase with
  | returned result => cases result <;> rfl
  | _ =>
    rw [hphase] at h
    exact h

/-! ## Replies to a blamed scan -/

/-- Whether a scan differs from another in the fault that it bears, and in its phase at most. -/
def Bears (fault : Fault) (scan bearing : Scan α) : Prop :=
  ∃ phase, bearing = { scan with readFault := some fault, phase }

variable {bearing : Scan α}

theorem bears_blaming (fault : Fault) (scan : Scan α) : Bears fault scan (scan.blaming fault) :=
  ⟨_, rfl⟩

theorem Bears.drain (h : Bears fault scan bearing) (hnone : scan.readFault = none) :
    bearing.drain = scan.drain.blaming fault := by
  obtain ⟨phase, rfl⟩ := h
  unfold Scan.drain
  by_cases hpos : 0 < scan.outstanding
  · rw [if_pos hpos, if_pos hpos]
    rfl
  · rw [if_neg hpos, if_neg hpos]
    -- The verdict is a summary, which the fault takes the place of.
    have hverdict : scan.verdict = .ok scan.summary := by rw [verdict, hnone]
    rw [hverdict]
    rfl

theorem Bears.flushFrom (h : Bears fault scan bearing) (hnone : scan.readFault = none)
    (queue : Nat) : bearing.flushFrom queue = (scan.flushFrom queue).blaming fault := by
  have hfilling : bearing.filling = scan.filling := by
    obtain ⟨phase, rfl⟩ := h
    rfl
  unfold Scan.flushFrom
  rw [hfilling]
  cases firstFilled? queue (scan.filling.drop queue) with
  | some next =>
    obtain ⟨phase, rfl⟩ := h
    rfl
  | none => exact h.drain hnone

theorem Bears.handedOver (h : Bears fault scan bearing) (hnone : scan.readFault = none)
    (queue : Nat) : bearing.handedOver queue true = (scan.handedOver queue true).blaming fault :=
  h.flushFrom hnone (queue + 1)

theorem Bears.charge (h : Bears fault scan bearing) (hnone : scan.readFault = none) (queue : Nat)
    (batch : Batch α) :
    bearing.charge queue batch true = (scan.charge queue batch true).blaming fault := by
  obtain ⟨phase, rfl⟩ := h
  unfold Scan.charge
  dsimp only
  by_cases hline : (scan.waitingOf queue).isEmpty = true
  · rw [if_pos (by exact hline), if_pos (by exact hline)]
    rfl
  · rw [if_neg (by exact hline), if_neg (by exact hline)]
    exact Bears.handedOver (by exact ⟨_, rfl⟩) (by exact hnone) queue

theorem Bears.handOver (h : Bears fault scan bearing) (hnone : scan.readFault = none) (queue : Nat)
    (batch : Batch α) :
    bearing.handOver queue batch true = (scan.handOver queue batch true).blaming fault := by
  have hexhausted : bearing.isExhausted = scan.isExhausted := by
    obtain ⟨phase, rfl⟩ := h
    rfl
  unfold Scan.handOver
  rw [hexhausted]
  split
  · obtain ⟨phase, rfl⟩ := h
    rfl
  · exact h.charge hnone queue batch

theorem Bears.settle (h : Bears fault scan bearing) (hnone : scan.readFault = none)
    {purpose : Purpose α} (hended : purpose.hand.ending = true) :
    bearing.settle purpose = (scan.settle purpose).blaming fault := by
  cases purpose with
  | reading => cases hended
  | room queue batch ending =>
    obtain rfl : ending = true := hended
    exact h.charge hnone queue batch
  | drain => exact h.drain hnone

theorem Bears.acknowledge (h : Bears fault scan bearing) (hnone : scan.readFault = none)
    (queue : Nat) {purpose : Purpose α} (hended : purpose.hand.ending = true) :
    bearing.acknowledge queue purpose = (scan.acknowledge queue purpose).blaming fault := by
  obtain ⟨phase, rfl⟩ := h
  unfold Scan.acknowledge
  by_cases hzero : scan.outstanding = 0
  · rw [if_pos hzero, if_pos hzero]
    rfl
  · rw [if_neg hzero, if_neg hzero]
    dsimp only [waitingOf]
    cases scan.waiting.getD queue [] with
    | nil => exact Bears.settle (by exact ⟨_, rfl⟩) (by exact hnone) hended
    | cons batch rest => rfl

/-- An input that cannot be read ends the reading as one that ends does. -/
theorem finish_blaming (h : scan.readFault = none) (fault : Fault) :
    finish { scan with readFault := some fault } = scan.finish.blaming fault :=
  Bears.flushFrom ⟨_, rfl⟩ h 0

/-- A scan that ends the reading without a fault does not return one at once. -/
theorem finish_ne_fault (h : scan.readFault = none) (other : ScanFault) :
    scan.finish.phase ≠ .returned (.error other) := by
  unfold finish Scan.flushFrom
  split
  · exact nofun
  · unfold Scan.drain
    split
    · exact nofun
    · simp [verdict, h]

/-- A blamed scan makes of a reply what the scan makes of it. -/
theorem resume_blaming (fault : Fault) (h : scan.readFault = none) (hended : scan.HasEnded)
    (reply : Reply α) :
    (scan.blaming fault).resume reply = (scan.resume reply).blaming fault := by
  rw [HasEnded] at hended
  have hphase' : ∀ {phase}, scan.phase = phase → (scan.blaming fault).phase = phase.blaming fault :=
    fun hphase => congrArg (Phase.blaming fault) hphase
  cases hphase : scan.phase with
  | opening | checking | fetching | rewinding =>
    -- These scans are still reading.
    rw [hphase] at hended
    cases hended
  | awaiting purpose =>
    rw [hphase] at hended
    cases reply with
    | acknowledged queue =>
      simp only [resume, hphase, hphase' hphase, Phase.blaming]
      exact (bears_blaming fault scan).acknowledge h queue hended
    | deserted queue =>
      simp only [resume, hphase, hphase' hphase, Phase.blaming]
      rfl
    | _ =>
      cases purpose with
      | reading => cases hended
      | room | drain => simp only [resume, hphase, hphase' hphase, Phase.blaming]
  | resending queue batch purpose =>
    rw [hphase] at hended
    cases reply with
    | offered offer =>
      cases offer <;> simp only [resume, hphase, hphase' hphase, Phase.blaming]
      · exact Bears.settle (by exact ⟨_, rfl⟩) (by exact h) hended
      · exact Bears.settle (by exact ⟨_, rfl⟩) (by exact h) hended
      · rfl
    | _ => simp only [resume, hphase, hphase' hphase, Phase.blaming]
  | drawing queue ending =>
    rw [hphase] at hended
    obtain rfl : ending = true := hended
    cases reply with
    | emptyBatch batch =>
      simp only [resume, hphase, hphase' hphase, Phase.blaming]
      exact Bears.handOver (by exact ⟨_, rfl⟩) (by exact h) queue _
    | _ => simp only [resume, hphase, hphase' hphase, Phase.blaming]
  | sending queue batch ending =>
    rw [hphase] at hended
    obtain rfl : ending = true := hended
    cases reply with
    | offered offer =>
      cases offer <;> simp only [resume, hphase, hphase' hphase, Phase.blaming]
      · exact Bears.handedOver (by exact ⟨_, rfl⟩) (by exact h) queue
      · exact Bears.handedOver (by exact ⟨_, rfl⟩) (by exact h) queue
      · rfl
    | _ => simp only [resume, hphase, hphase' hphase, Phase.blaming]
  | returned result =>
    cases result <;> simp only [resume, hphase, hphase' hphase, Phase.blaming]

/-! ## Scans that bear no fault -/

/-- Whether a scan bears no fault, as long as it has not ended the reading. -/
def Blameless (scan : Scan α) : Prop := scan.readFault = none ∨ scan.HasEnded

theorem blameless_resume {queues : Nat} {request : Request α} {reply : Reply α}
    (hrequest : scan.request? = some request) (hadmits : request.admits queues reply = true)
    (h : scan.Blameless) : (scan.resume reply).Blameless := by
  by_cases hreply : ∃ fault, reply = .unreadable fault
  · obtain ⟨fault, rfl⟩ := hreply
    exact (spoiled_of_unreadable hrequest hadmits).elim (fun hspoiled => Or.inr hspoiled.2)
      fun ⟨_, hreturned⟩ => Or.inr (by rw [HasEnded, hreturned]; rfl)
  · rcases h with hnone | hended
    · exact Or.inl ((scan.readFault_resume (not_exists.mp hreply)).trans hnone)
    · exact Or.inr (hasEnded_resume hrequest hadmits hended)

/-- An input that cannot be read any further ends the reading of a scan as its end would. -/
theorem resume_unreadable {queues : Nat} {request : Request α} (h : scan.Blameless)
    (hrequest : scan.request? = some request)
    (hadmits : request.admits queues (.unreadable fault) = true) :
    scan.readFault = none ∧ scan.resume (.unreadable fault) = scan.finish.blaming fault ∧
      (scan.phase = .fetching ∧ request = .item ∨ scan.phase = .rewinding ∧ request = .rewind) := by
  have hnone : scan.readFault = none :=
    h.resolve_right fun hended => (hended.reply_ne hrequest hadmits).1 fault rfl
  have hresumed := resumed_of_admits hrequest hadmits
  generalize scan.resume (.unreadable fault) = next at hresumed ⊢
  cases hresumed with
  | unreadable hphase => exact ⟨hnone, finish_blaming hnone fault, hphase⟩

end Scan

end LoadBench
