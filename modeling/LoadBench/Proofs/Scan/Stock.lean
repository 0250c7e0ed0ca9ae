/-
  LoadBench.Proofs.Scan.Stock

  How many batches a scan has: those being filled, those in line, and those in
  hand.  It gets one when it draws an empty batch, and gives one away when a queue
  takes it; whatever else it is answered, it keeps what it has (`batches_resume`).
  Only a scan that breaks off lets go of what it had in hand.
-/

import LoadBench.Proofs.Scan.Sound
import Mathlib.Algebra.GroupWithZero.Nat

namespace LoadBench

variable {α : Type}

/-! ## What a scan has -/

/-- How many batches a purpose keeps back. -/
def Purpose.batches : Purpose α → Nat
  | .room _ _ _ => 1
  | _ => 0

/-- Whether the queue of the batch that a purpose keeps back exists. -/
def Purpose.Placed (queues : Nat) : Purpose α → Prop
  | .room queue _ _ => queue < queues
  | _ => True

/-- How many batches are in hand in a phase. -/
def Phase.batches : Phase α → Nat
  | .awaiting purpose => purpose.batches
  | .resending _ _ purpose => purpose.batches + 1
  | .sending _ _ _ => 1
  | _ => 0

/-- How many batches a reply brings. -/
def Reply.drawn : Reply α → Nat
  | .emptyBatch _ => 1
  | _ => 0

/-- How many batches a reply takes away. -/
def Reply.sent : Reply α → Nat
  | .offered .accepted => 1
  | _ => 0

theorem Purpose.Stands.placed {purpose : Purpose α} {scan : Scan α} (h : purpose.Stands scan) :
    purpose.Placed scan.plan.queues := by
  cases purpose with
  | room => exact h.1
  | _ => trivial

namespace Scan

/-- How many batches are being filled or in line. -/
def stored (scan : Scan α) : Nat := scan.filling.length + (scan.waiting.map List.length).sum

/-- How many batches a scan has. -/
def batches (scan : Scan α) : Nat := scan.stored + scan.phase.batches

variable {scan : Scan α}

theorem batches_of_phase {phase : Phase α} (h : scan.phase = phase) :
    scan.batches = scan.stored + phase.batches := by
  rw [batches, h]

/-! ## What the functions of a scan keep -/

theorem batches_drain (scan : Scan α) : scan.drain.batches = scan.stored := by
  unfold drain
  split <;> rfl

theorem batches_flushFrom (scan : Scan α) (queue : Nat) :
    (scan.flushFrom queue).batches = scan.stored := by
  unfold flushFrom
  split
  · rfl
  · exact scan.batches_drain

theorem batches_readMore (scan : Scan α) : scan.readMore.batches = scan.stored := by
  unfold readMore
  split
  · exact scan.batches_flushFrom 0
  · rfl

theorem batches_proceed (scan : Scan α) : scan.proceed.batches = scan.stored := by
  unfold proceed
  split
  · exact scan.batches_readMore
  · rfl

theorem batches_handedOver (scan : Scan α) (queue : Nat) (ending : Bool) :
    (scan.handedOver queue ending).batches = scan.stored := by
  unfold handedOver
  split
  · exact scan.batches_flushFrom _
  · exact scan.batches_proceed

/-- A line that changes counts by its length. -/
theorem stored_set {queue : Nat} (hqueue : queue < scan.waiting.length) (line : List (Batch α)) :
    stored { scan with waiting := scan.waiting.set queue line } + (scan.waitingOf queue).length =
      scan.stored + line.length := by
  have hline : scan.waiting[queue]? = some (scan.waitingOf queue) := by
    rw [waitingOf, List.getD_eq_getElem?_getD, List.getElem?_eq_getElem hqueue, Option.getD_some]
  have hsum := sum_map_set hline line List.length
  unfold stored
  dsimp only
  omega

theorem stored_lineUp {queue : Nat} (hqueue : queue < scan.waiting.length) (batch : Batch α) :
    (scan.lineUp queue batch).stored = scan.stored + 1 := by
  have hset := stored_set hqueue (scan.waitingOf queue ++ [batch])
  rw [List.length_append, List.length_singleton] at hset
  unfold lineUp
  omega

theorem stored_putBack {queue : Nat} (hqueue : queue < scan.waiting.length) (batch : Batch α) :
    (scan.putBack queue batch).stored = scan.stored + 1 := by
  have hset := stored_set hqueue (batch :: scan.waitingOf queue)
  rw [List.length_cons] at hset
  unfold putBack
  omega

theorem batches_charge {queue : Nat} (hqueue : queue < scan.waiting.length) (batch : Batch α)
    (ending : Bool) : (scan.charge queue batch ending).batches = scan.stored + 1 := by
  unfold charge
  dsimp only
  split
  · rfl
  · rw [batches_handedOver, stored_lineUp (by exact hqueue)]
    rfl

theorem batches_handOver {queue : Nat} (hqueue : queue < scan.waiting.length) (batch : Batch α)
    (ending : Bool) : (scan.handOver queue batch ending).batches = scan.stored + 1 := by
  unfold handOver
  split
  · rfl
  · exact batches_charge hqueue batch ending

theorem batches_settle {purpose : Purpose α} (h : purpose.Placed scan.waiting.length) :
    (scan.settle purpose).batches = scan.stored + purpose.batches := by
  cases purpose with
  | reading => rfl
  | room queue batch ending => exact batches_charge h batch ending
  | drain => exact scan.batches_drain

/-- An acknowledgment moves a batch from its line into the hand, or none; a stray one makes the
scan let go of what it keeps back. -/
theorem batches_acknowledge {purpose : Purpose α} (h : purpose.Placed scan.waiting.length)
    (queue : Nat) :
    (scan.acknowledge queue purpose).batches = scan.stored + purpose.batches ∨
      (scan.acknowledge queue purpose).result? ≠ none ∧
        (scan.acknowledge queue purpose).batches = scan.stored := by
  unfold acknowledge
  dsimp only
  split
  · exact Or.inr ⟨nofun, rfl⟩
  · left
    split
    · exact batches_settle h
    · next batch rest hline =>
      -- A line that is not empty is the line of a queue.
      have hqueue : queue < scan.waiting.length := by
        by_contra hge
        have hnil : scan.waitingOf queue = [] := by
          rw [waitingOf, List.getD_eq_default _ _ (Nat.le_of_not_lt hge)]
        have hcons : scan.waitingOf queue = batch :: rest := hline
        rw [hnil] at hcons
        cases hcons
      have hset := stored_set hqueue rest
      have hlength : (scan.waitingOf queue).length = rest.length + 1 := congrArg List.length hline
      show stored { scan with waiting := scan.waiting.set queue rest } + (purpose.batches + 1) = _
      omega

theorem batches_push (scan : Scan α) (item : α) : (scan.push item).batches = scan.stored := by
  have hfilling : ∀ queue batch, stored { scan with filling := scan.filling.set queue batch } =
      scan.stored := by
    intro queue batch
    rw [stored, List.length_set, stored]
  unfold push
  dsimp only
  split
  · rfl
  · split
    · exact hfilling _ _
    · rw [batches_proceed]
      exact hfilling _ _

theorem batches_passEnded (scan : Scan α) : scan.passEnded.batches = scan.stored := by
  unfold passEnded
  split
  · rfl
  · exact scan.batches_flushFrom 0

/-! ## What an answer brings and takes -/

variable {plan : ScanPlan} {routing : Routing α} {log : List (Turn α)} {request : Request α}
  {reply : Reply α}

/-- A scan has what it had, with the batch it has drawn and without the one it has sent; it lets go
of what it had in hand only if it breaks off. -/
theorem batches_resume (h : Sound plan routing scan log) (hrequest : scan.request? = some request)
    (hadmits : request.admits plan.queues reply = true) :
    (scan.resume reply).batches + reply.sent = scan.batches + reply.drawn ∨
      (scan.resume reply).result? ≠ none ∧
        (scan.resume reply).batches + reply.sent ≤ scan.batches + reply.drawn := by
  obtain ⟨haccounts, hstands⟩ := h
  have hqueues : scan.plan.queues = scan.waiting.length := by
    rw [haccounts.plan_eq, haccounts.lines]
  have hresumed := resumed_of_admits hrequest hadmits
  generalize scan.resume reply = next at hresumed ⊢
  cases hresumed with
  | @opened batch hphase =>
    have hdrawn : stored { scan with filling := scan.filling ++ [batch], phase := .opening } =
        scan.stored + 1 := by
      rw [stored, List.length_append, List.length_singleton, stored]
      dsimp only
      omega
    left
    rw [batches_of_phase hphase]
    split
    · rw [batches_proceed, hdrawn]
      rfl
    · exact hdrawn
  | checked hphase =>
    left
    rw [batches_of_phase hphase]
    split
    · exact scan.batches_flushFrom 0
    · exact scan.batches_readMore
  | @acknowledged wait queue purpose hphase =>
    rw [hphase] at hstands
    have hplaced := hstands.2.1.placed
    rw [hqueues] at hplaced
    rw [batches_of_phase hphase]
    rcases batches_acknowledge hplaced queue with hkept | ⟨hreturned, hstored⟩
    · exact Or.inl hkept
    · refine Or.inr ⟨hreturned, ?_⟩
      rw [hstored]
      exact Nat.le_add_right _ _
  | unacknowledged hphase =>
    rw [batches_of_phase hphase]
    exact Or.inl rfl
  | deserted hphase =>
    rw [batches_of_phase hphase]
    exact Or.inr ⟨nofun, Nat.le_add_right _ _⟩
  | @resent queue batch purpose hphase =>
    rw [hphase] at hstands
    have hplaced := hstands.2.2.1.placed
    rw [hqueues] at hplaced
    have hsettled : (scan.countSent.settle purpose).batches =
        scan.countSent.stored + purpose.batches := batches_settle hplaced
    left
    rw [batches_of_phase hphase, hsettled]
    rfl
  | @putBack queue batch purpose hphase =>
    rw [hphase] at hstands
    have hplaced := hstands.2.2.1.placed
    have hqueue := hstands.2.1
    rw [hqueues] at hplaced hqueue
    have hback : (scan.putBack queue batch).waiting.length = scan.waiting.length :=
      List.length_set
    rw [← hback] at hplaced
    left
    rw [batches_of_phase hphase, batches_settle hplaced, stored_putBack hqueue, Phase.batches]
    show _ + 0 = _ + 0
    omega
  | item hphase =>
    rw [batches_of_phase hphase]
    exact Or.inl (scan.batches_push _)
  | ended hphase =>
    rw [batches_of_phase hphase]
    exact Or.inl scan.batches_passEnded
  | @drawn queue batch ending hphase =>
    rw [hphase] at hstands
    have hqueue := hstands.2.1
    rw [hqueues] at hqueue
    left
    rw [batches_of_phase hphase, batches_handOver (by exact hqueue), stored, List.length_set]
    rfl
  | sent hphase =>
    left
    rw [batches_of_phase hphase, batches_handedOver]
    rfl
  | @linedUp queue batch ending hphase =>
    rw [hphase] at hstands
    have hqueue := hstands.2.1
    rw [hqueues] at hqueue
    left
    rw [batches_of_phase hphase, batches_handedOver, stored_lineUp hqueue]
    rfl
  | refused hphase =>
    exact Or.inr ⟨nofun, Nat.le_add_right _ _⟩
  | rewound hphase =>
    left
    rw [batches_of_phase hphase, passStarted, batches_proceed]
    rfl
  | unrewound hphase =>
    rw [batches_of_phase hphase]
    exact Or.inl (scan.batches_flushFrom 0)
  | unreadable hphase =>
    have hnone : scan.phase.batches = 0 := by
      rcases hphase with ⟨hphase, -⟩ | ⟨hphase, -⟩ <;> rw [hphase] <;> rfl
    left
    rw [finish, batches_flushFrom, batches, hnone]
    rfl

/-- A scan that draws a batch has one for each queue at most, beside those in line. -/
theorem batches_of_draw (h : Sound plan routing scan log)
    (hrequest : scan.request? = some .emptyBatch) :
    scan.batches ≤
      plan.queues + ∑ queue ∈ Finset.range plan.queues, (scan.waitingOf queue).length := by
  have hplan := h.accounts.plan_eq
  have hlines : (scan.waiting.map List.length).sum =
      ∑ queue ∈ Finset.range plan.queues, (scan.waitingOf queue).length := by
    rw [sum_map_eq_sum_range, h.accounts.lines]
    refine Finset.sum_congr rfl fun queue _ => ?_
    rw [waitingOf, List.getD_eq_getElem?_getD]
    cases scan.waiting[queue]? <;> rfl
  -- Only a scan that opens its queues, or replaces a full batch, draws one.
  have hfilling : scan.phase.batches = 0 ∧ scan.filling.length ≤ plan.queues := by
    have hstands := h.stands
    rw [request?] at hrequest
    cases hphase : scan.phase with
    | opening =>
      rw [hphase] at hstands
      exact ⟨rfl, hplan ▸ Nat.le_of_lt hstands⟩
    | drawing queue ending =>
      rw [hphase] at hstands
      exact ⟨rfl, hplan ▸ Nat.le_of_eq hstands.1⟩
    | awaiting purpose => cases purpose <;> simp [hphase] at hrequest
    | _ => simp [hphase] at hrequest
  rw [batches, stored, hlines, hfilling.1]
  exact Nat.add_le_add_right hfilling.2 _

end Scan

end LoadBench
