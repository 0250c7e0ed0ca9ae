/-
  LoadBench.Proofs.Scan.Halt

  Scans that are to end before their input does.

  A scan that could not read its input, or that has broken off, is spoiled, and
  stays so: it only hands over what it has, and cannot end well any more
  (`spoiled_resume`).  A scan with a deadline that is told to stop whenever it asks
  reads one item more at most, or starts its input anew once; what it has before it
  then only goes down, whatever it is answered (`burden_resume`).
-/

import LoadBench.Proofs.Scan.Reading
import LoadBench.Proofs.Scan.Weight

namespace LoadBench

variable {α : Type}

namespace Scan

variable {scan : Scan α}

/-! ## Scans that have ended the reading -/

/-- Whether a scan only hands over what it has. -/
def HasEnded (scan : Scan α) : Prop := scan.phase.hand.ending = true

theorem hasEnded_drain (scan : Scan α) : scan.drain.HasEnded := by
  unfold drain
  split <;> rfl

theorem hasEnded_flushFrom (scan : Scan α) (queue : Nat) : (scan.flushFrom queue).HasEnded := by
  unfold flushFrom
  split
  · rfl
  · exact scan.hasEnded_drain

theorem hasEnded_charge (scan : Scan α) (queue : Nat) (batch : Batch α) :
    (scan.charge queue batch true).HasEnded := by
  unfold charge
  dsimp only
  split
  · rfl
  · exact hasEnded_flushFrom _ _

theorem hasEnded_handOver (scan : Scan α) (queue : Nat) (batch : Batch α) :
    (scan.handOver queue batch true).HasEnded := by
  unfold handOver
  split
  · rfl
  · exact scan.hasEnded_charge queue batch

theorem hasEnded_settle (scan : Scan α) {purpose : Purpose α} (h : purpose.hand.ending = true) :
    (scan.settle purpose).HasEnded := by
  cases purpose with
  | reading => cases h
  | room queue batch ending =>
    obtain rfl : ending = true := h
    exact scan.hasEnded_charge queue batch
  | drain => exact scan.hasEnded_drain

theorem hasEnded_acknowledge (scan : Scan α) (queue : Nat) {purpose : Purpose α}
    (h : purpose.hand.ending = true) : (scan.acknowledge queue purpose).HasEnded := by
  unfold acknowledge
  split
  · rfl
  · dsimp only
    split
    · exact hasEnded_settle _ h
    · exact h

/-- A scan that has ended the reading does not take it up again. -/
theorem hasEnded_resume {queues : Nat} {request : Request α} {reply : Reply α}
    (hrequest : scan.request? = some request) (hadmits : request.admits queues reply = true)
    (h : scan.HasEnded) : (scan.resume reply).HasEnded := by
  have hresumed := resumed_of_admits hrequest hadmits
  rw [HasEnded] at h
  generalize scan.resume reply = next at hresumed ⊢
  cases hresumed with
  | acknowledged hphase =>
    rw [hphase] at h
    exact scan.hasEnded_acknowledge _ h
  | resent hphase | putBack hphase =>
    rw [hphase] at h
    exact hasEnded_settle _ h
  | @drawn queue batch ending hphase =>
    rw [hphase] at h
    obtain rfl : ending = true := h
    exact hasEnded_handOver _ queue _
  | @sent queue batch ending hphase | @linedUp queue batch ending hphase =>
    rw [hphase] at h
    obtain rfl : ending = true := h
    exact hasEnded_flushFrom _ (queue + 1)
  | deserted | refused => rfl
  | unrewound | unreadable => exact hasEnded_flushFrom _ 0
  | opened hphase | checked hphase | unacknowledged hphase | item hphase | ended hphase
  | rewound hphase =>
    -- These scans are still reading.
    rw [hphase] at h
    cases h

/-- A scan that has ended the reading asks for nothing of its input. -/
theorem HasEnded.request_ne (h : scan.HasEnded) :
    scan.request? ≠ some .stop ∧ scan.request? ≠ some .item ∧ scan.request? ≠ some .rewind := by
  rw [HasEnded] at h
  cases hphase : scan.phase with
  | opening | checking | fetching | rewinding =>
    rw [hphase] at h
    cases h
  | awaiting purpose => cases purpose <;> simp [request?, hphase]
  | _ => simp [request?, hphase]

/-- A scan that has ended the reading is told nothing about its input. -/
theorem HasEnded.reply_ne {queues : Nat} {request : Request α} {reply : Reply α}
    (h : scan.HasEnded) (hrequest : scan.request? = some request)
    (hadmits : request.admits queues reply = true) :
    (∀ fault, reply ≠ .unreadable fault) ∧ (∀ again, reply ≠ .rewound again) ∧
      ∀ answer, reply ≠ .item answer := by
  obtain ⟨-, hitem, hrewind⟩ := h.request_ne
  rw [hrequest] at hitem hrewind
  -- Only the two requests that it does not make are answered so.
  refine ⟨?_, ?_, ?_⟩
  all_goals
    rintro cause rfl
    cases request with
    | item => exact hitem rfl
    | rewind => exact hrewind rfl
    | _ => cases hadmits

/-! ## Spoiled scans -/

/-- Whether a scan has come to the end of its reading, and can end with a fault only. -/
def Spoiled (scan : Scan α) : Prop :=
  scan.readFault.isSome = true ∧ scan.HasEnded ∨ ∃ fault, scan.phase = .returned (.error fault)

/-- A spoiled scan does not ask whether it is to stop. -/
theorem Spoiled.request_ne_stop (h : scan.Spoiled) : scan.request? ≠ some .stop := by
  intro hrequest
  have hchecking : scan.phase = .checking := by
    unfold request? at hrequest
    split at hrequest <;> first | assumption | cases hrequest
  rcases h with ⟨-, hended⟩ | ⟨fault, hreturned⟩
  · rw [HasEnded, hchecking] at hended
    cases hended
  · rw [hchecking] at hreturned
    cases hreturned

theorem Moved.readFault_eq {moved : Scan α} (h : Moved scan moved) :
    moved.readFault = scan.readFault := by
  obtain ⟨phase, rfl⟩ := h
  rfl

theorem readFault_charge (scan : Scan α) (queue : Nat) (batch : Batch α) (ending : Bool) :
    (scan.charge queue batch ending).readFault = scan.readFault := by
  unfold charge
  dsimp only
  split
  · rfl
  · exact (moved_handedOver _ queue ending).readFault_eq

theorem readFault_handOver (scan : Scan α) (queue : Nat) (batch : Batch α) (ending : Bool) :
    (scan.handOver queue batch ending).readFault = scan.readFault := by
  unfold handOver
  split
  · rfl
  · exact scan.readFault_charge queue batch ending

theorem readFault_settle (scan : Scan α) (purpose : Purpose α) :
    (scan.settle purpose).readFault = scan.readFault := by
  cases purpose with
  | reading => rfl
  | room queue batch ending => exact scan.readFault_charge queue batch ending
  | drain => exact (moved_drain scan).readFault_eq

theorem readFault_acknowledge (scan : Scan α) (queue : Nat) (purpose : Purpose α) :
    (scan.acknowledge queue purpose).readFault = scan.readFault := by
  unfold acknowledge
  split
  · rfl
  · dsimp only
    split
    · exact readFault_settle _ purpose
    · rfl

theorem readFault_push (scan : Scan α) (item : α) :
    (scan.push item).readFault = scan.readFault := by
  unfold push
  dsimp only
  split
  · rfl
  · split
    · rfl
    · exact (moved_proceed _).readFault_eq

/-- Only an input that cannot be read leaves a fault. -/
theorem readFault_resume (scan : Scan α) {reply : Reply α}
    (h : ∀ fault, reply ≠ .unreadable fault) :
    (scan.resume reply).readFault = scan.readFault := by
  unfold resume
  split
  · dsimp only
    split
    · exact (moved_proceed _).readFault_eq
    · rfl
  · split
    · exact (moved_flushFrom scan 0).readFault_eq
    · exact (moved_readMore scan).readFault_eq
  · exact scan.readFault_acknowledge _ _
  · exact scan.readFault_settle _
  · rfl
  · exact readFault_settle _ _
  · exact readFault_settle _ _
  · rfl
  · exact scan.readFault_push _
  · exact (moved_passEnded scan).readFault_eq
  · exact absurd rfl (h _)
  · exact readFault_handOver _ _ _ _
  · exact (moved_handedOver _ _ _).readFault_eq
  · exact (moved_handedOver _ _ _).readFault_eq
  · rfl
  · exact (moved_proceed _).readFault_eq
  · exact (moved_flushFrom scan 0).readFault_eq
  · exact absurd rfl (h _)
  · rfl

/-- An input that cannot be read leaves a fault, and ends the reading. -/
theorem spoiled_of_unreadable {queues : Nat} {request : Request α} {fault : Fault}
    (hrequest : scan.request? = some request)
    (hadmits : request.admits queues (.unreadable fault) = true) :
    (scan.resume (.unreadable fault)).Spoiled := by
  have hresumed := resumed_of_admits hrequest hadmits
  generalize scan.resume (.unreadable fault) = next at hresumed ⊢
  cases hresumed with
  | unreadable =>
    refine Or.inl ⟨?_, hasEnded_flushFrom _ 0⟩
    rw [finish, (moved_flushFrom _ 0).readFault_eq]
    rfl

/-- A reply that makes a scan break off is one it cannot go on with. -/
theorem spoiled_of_breaksOff {queues : Nat} {request : Request α} {reply : Reply α}
    (hrequest : scan.request? = some request) (hadmits : request.admits queues reply = true)
    (hfilled : scan.phase = .fetching → scan.filling.length = scan.plan.queues)
    (hbreaks : scan.BreaksOff reply) : (scan.resume reply).Spoiled := by
  have hresumed := resumed_of_admits hrequest hadmits
  generalize scan.resume reply = next at hresumed ⊢
  cases hresumed with
  | deserted | refused => exact Or.inr ⟨_, rfl⟩
  | @item item hphase =>
    have hqueue : scan.filling.length ≤ scan.routing (scan.itemsRead + 1) item := by
      rw [hfilled hphase]
      exact hbreaks
    unfold push
    dsimp only
    rw [if_pos hqueue]
    exact Or.inr ⟨_, rfl⟩
  | _ => cases hbreaks

/-- A scan whose input could not be read, or that breaks off, is spoiled and stays so. -/
theorem spoiled_resume {queues : Nat} {request : Request α} {reply : Reply α}
    (hrequest : scan.request? = some request) (hadmits : request.admits queues reply = true)
    (hfilled : scan.phase = .fetching → scan.filling.length = scan.plan.queues)
    (h : scan.Spoiled ∨ scan.BreaksOff reply ∨ ∃ fault, reply = .unreadable fault) :
    (scan.resume reply).Spoiled := by
  rcases h with (⟨hfault, hended⟩ | ⟨fault, hreturned⟩) | hbreaks | ⟨fault, rfl⟩
  · by_cases hreply : ∃ fault, reply = .unreadable fault
    · obtain ⟨fault, rfl⟩ := hreply
      exact spoiled_of_unreadable hrequest hadmits
    · refine Or.inl ⟨?_, hasEnded_resume hrequest hadmits hended⟩
      rw [scan.readFault_resume (not_exists.mp hreply)]
      exact hfault
  · exact absurd hreturned (phase_ne_of_request? hrequest _)
  · exact spoiled_of_breaksOff hrequest hadmits hfilled hbreaks
  · exact spoiled_of_unreadable hrequest hadmits

end Scan

/-! ## Scans that are told to stop -/

/-- What a scan may take up before it asks again whether it is to stop. -/
def Phase.budget : Phase α → Nat
  | .awaiting .reading | .resending _ _ .reading | .fetching => 9
  | .rewinding => 4
  | _ => 0

namespace Scan

variable {scan : Scan α} {hasDeadline : Bool}

/-- What a scan has before it that is told to stop whenever it asks. -/
def burden (scan : Scan α) : Nat := scan.weight + scan.phase.budget

/-- A scan that has ended the reading takes up nothing. -/
theorem HasEnded.budget (h : scan.HasEnded) : scan.phase.budget = 0 := by
  rw [HasEnded] at h
  cases hphase : scan.phase with
  | awaiting purpose | resending queue batch purpose =>
    rw [hphase] at h
    cases purpose with
    | reading => cases h
    | room | drain => rfl
  | fetching | rewinding =>
    rw [hphase] at h
    cases h
  | _ => rfl

theorem budget_flushFrom (scan : Scan α) (queue : Nat) :
    (scan.flushFrom queue).phase.budget = 0 :=
  (scan.hasEnded_flushFrom queue).budget

theorem budget_proceed (htimed : scan.plan.mode = .timed hasDeadline) :
    scan.proceed.phase.budget = 0 := by
  unfold proceed
  rw [htimed]
  rfl

theorem budget_handedOver (htimed : scan.plan.mode = .timed hasDeadline) (queue : Nat)
    (ending : Bool) : (scan.handedOver queue ending).phase.budget = 0 := by
  unfold handedOver
  split
  · exact scan.budget_flushFrom _
  · exact budget_proceed htimed

theorem budget_charge (htimed : scan.plan.mode = .timed hasDeadline) (queue : Nat)
    (batch : Batch α) (ending : Bool) : (scan.charge queue batch ending).phase.budget = 0 := by
  unfold charge
  dsimp only
  split
  · rfl
  · exact budget_handedOver (by exact htimed) queue ending

theorem budget_handOver (htimed : scan.plan.mode = .timed hasDeadline) (queue : Nat)
    (batch : Batch α) (ending : Bool) : (scan.handOver queue batch ending).phase.budget = 0 := by
  unfold handOver
  split
  · rfl
  · exact budget_charge htimed queue batch ending

theorem budget_settle (htimed : scan.plan.mode = .timed hasDeadline) (purpose : Purpose α) :
    (scan.settle purpose).phase.budget ≤ (Phase.awaiting purpose).budget := by
  cases purpose with
  | reading => exact Nat.le_refl _
  | room queue batch ending =>
    rw [settle, budget_charge htimed]
    exact Nat.zero_le _
  | drain =>
    rw [settle, scan.hasEnded_drain.budget]
    exact Nat.zero_le _

theorem budget_resending (queue : Nat) (batch : Batch α) (purpose : Purpose α) :
    (Phase.resending queue batch purpose).budget = (Phase.awaiting purpose).budget := by
  cases purpose <;> rfl

theorem budget_acknowledge (htimed : scan.plan.mode = .timed hasDeadline) (queue : Nat)
    (purpose : Purpose α) :
    (scan.acknowledge queue purpose).phase.budget ≤ (Phase.awaiting purpose).budget := by
  unfold acknowledge
  split
  · exact Nat.zero_le _
  · dsimp only
    split
    · exact budget_settle (by exact htimed) purpose
    · exact Nat.le_of_eq (budget_resending _ _ purpose)

theorem budget_push (htimed : scan.plan.mode = .timed hasDeadline) (item : α) :
    (scan.push item).phase.budget = 0 := by
  unfold push
  dsimp only
  split
  · rfl
  · split
    · rfl
    · exact budget_proceed (by exact htimed)

/-- Each reply leaves a scan less before it, if it is told to stop whenever it asks. -/
theorem burden_resume {queues : Nat} {request : Request α} {reply : Reply α}
    (htimed : scan.plan.mode = .timed hasDeadline)
    (hopening : scan.phase = .opening → scan.filling.length < scan.plan.queues)
    (hrequest : scan.request? = some request) (hadmits : request.admits queues reply = true)
    (hstop : reply ≠ .stop false) : (scan.resume reply).burden < scan.burden := by
  have hresumed := resumed_of_admits hrequest hadmits
  have hlight := weight_resume hopening hrequest hadmits
  unfold burden
  generalize scan.resume reply = next at hresumed hlight ⊢
  cases hresumed with
  | @item item hphase =>
    -- The item is paid for by what the scan had for it.
    rw [budget_push htimed, hphase]
    have hless := hlight nofun
    show (scan.push item).weight + 0 < scan.weight + 9
    exact hless
  | rewound hphase =>
    have hbudget : scan.passStarted.phase.budget = 0 := budget_proceed (by exact htimed)
    have hheavy : scan.passStarted.weight ≤ 3 * scan.outstanding + 16 * scan.filling.length + 7 :=
      weight_proceed _
    rw [hbudget, weight_eq hphase, hphase]
    show scan.passStarted.weight + 0 < 3 * scan.outstanding + (16 * scan.filling.length + 4) + 4
    omega
  | ended hphase =>
    have hended := scan.weight_passEnded
    have hbudget : scan.passEnded.phase.budget ≤ 4 := by
      unfold passEnded
      split
      · exact Nat.le_refl 4
      · rw [finish, budget_flushFrom]
        exact Nat.zero_le _
    rw [weight_eq hphase, hphase]
    show scan.passEnded.weight + _ < 3 * scan.outstanding + (16 * scan.filling.length + 5) + 9
    omega
  | @checked now hphase =>
    cases now with
    | false => exact absurd rfl hstop
    | true =>
      refine Nat.add_lt_add_of_lt_of_le (hlight nofun) ?_
      show scan.finish.phase.budget ≤ _
      rw [finish, budget_flushFrom]
      exact Nat.zero_le _
  | acknowledged hphase =>
    refine Nat.add_lt_add_of_lt_of_le (hlight nofun) ?_
    rw [hphase]
    exact budget_acknowledge htimed _ _
  | unacknowledged hphase =>
    refine Nat.add_lt_add_of_lt_of_le (hlight nofun) ?_
    rw [hphase]
    exact Nat.le_refl _
  | @resent queue batch purpose hphase | @putBack queue batch purpose hphase =>
    refine Nat.add_lt_add_of_lt_of_le (hlight nofun) ?_
    rw [hphase, budget_resending]
    exact budget_settle (by exact htimed) purpose
  | opened hphase hempty =>
    refine Nat.add_lt_add_of_lt_of_le (hlight nofun) ?_
    split
    · rw [budget_proceed (by exact htimed)]
      exact Nat.zero_le _
    · exact Nat.zero_le _
  | drawn hphase hempty =>
    refine Nat.add_lt_add_of_lt_of_le (hlight nofun) ?_
    rw [budget_handOver (by exact htimed)]
    exact Nat.zero_le _
  | sent hphase | linedUp hphase =>
    refine Nat.add_lt_add_of_lt_of_le (hlight nofun) ?_
    rw [budget_handedOver (by exact htimed)]
    exact Nat.zero_le _
  | deserted | refused => exact Nat.add_lt_add_of_lt_of_le (hlight nofun) (Nat.zero_le _)
  | unrewound | unreadable =>
    refine Nat.add_lt_add_of_lt_of_le (hlight nofun) ?_
    rw [finish, budget_flushFrom]
    exact Nat.zero_le _

end Scan

end LoadBench
