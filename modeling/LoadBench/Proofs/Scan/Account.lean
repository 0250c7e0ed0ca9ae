/-
  LoadBench.Proofs.Scan.Account

  What a scan has to show for its items.  At every moment each item it was given
  is in one place: in a batch that went out, in a batch that waits in line or is
  in hand, or in the batch being filled for its queue.  `Accounts` states this
  for each queue, together with how the items are cut into batches and how many
  batches are outstanding.

  A scan that changes more than its phase does so in a few ways only: it takes a
  credit back, takes the head of a line, puts a batch in line, charges one, sends
  one, draws one, or fills in an item.  Each way has one lemma here that says how
  the accounts go on.
-/

import LoadBench.Proofs.Lists
import LoadBench.Proofs.Scan.Turn

namespace LoadBench

variable {α : Type}

/-! ## Hands -/

/-- What a scan has in hand, beside the batches it fills and those that wait in line. -/
structure Hand (α : Type) where
  /-- The batch on offer to a queue. Its credit has been taken. -/
  offered : Option (Nat × Batch α)
  /-- The batch that waits for its credit. -/
  withheld : Option (Nat × Batch α)
  /-- The queue whose full batch is about to be replaced. -/
  full : Option Nat
  /-- Whether the reading has ended. -/
  ending : Bool

namespace Hand

/-- Nothing in hand. -/
def empty (ending : Bool) : Hand α := ⟨none, none, none, ending⟩

/-- A batch that waits for its credit. -/
def withholding (queue : Nat) (batch : Batch α) (ending : Bool) : Hand α :=
  ⟨none, some (queue, batch), none, ending⟩

/-- A batch on offer. -/
def offering (queue : Nat) (batch : Batch α) (ending : Bool) : Hand α :=
  ⟨some (queue, batch), none, none, ending⟩

end Hand

/-- The batch in hand for a queue, if there is one. -/
def inHand (queue : Nat) : Option (Nat × Batch α) → List (Batch α)
  | some (chosen, batch) => if chosen = queue then [batch] else []
  | none => []

@[simp] theorem inHand_none (queue : Nat) : inHand queue (none : Option (Nat × Batch α)) = [] := rfl

@[simp] theorem inHand_self (queue : Nat) (batch : Batch α) :
    inHand queue (some (queue, batch)) = [batch] := if_pos rfl

theorem inHand_of_ne {queue chosen : Nat} (h : queue ≠ chosen) (batch : Batch α) :
    inHand queue (some (chosen, batch)) = [] := if_neg (Ne.symm h)

/-- The hand of a scan that takes an acknowledgment for a purpose. -/
def Purpose.hand : Purpose α → Hand α
  | .reading => Hand.empty false
  | .room queue batch ending => Hand.withholding queue batch ending
  | .drain => Hand.empty true

/-- The hand of a scan in a phase. -/
def Phase.hand : Phase α → Hand α
  | .awaiting purpose => purpose.hand
  | .resending queue batch purpose => { purpose.hand with offered := some (queue, batch) }
  | .drawing queue ending => { Hand.empty ending with full := if ending then none else some queue }
  | .sending queue batch ending => Hand.offering queue batch ending
  | .returned _ => Hand.empty true
  | _ => Hand.empty false

/-! ## Accounts -/

namespace Scan

/-- The batches of a queue that have left the filling and have not gone out, in their order. -/
def lineOf (scan : Scan α) (hand : Hand α) (queue : Nat) : List (Batch α) :=
  inHand queue hand.offered ++ scan.waitingOf queue ++ inHand queue hand.withheld

/-- How many batches of a queue are outstanding and have not gone out. -/
def chargedOf (scan : Scan α) (hand : Hand α) (queue : Nat) : Nat :=
  (inHand queue hand.offered).length + (scan.waitingOf queue).length

end Scan

/-- The accounts of a scan with a hand, given its log. They say nothing about its phase. -/
structure Accounts (plan : ScanPlan) (routing : Routing α) (scan : Scan α) (hand : Hand α)
    (log : List (Turn α)) : Prop where
  plan_eq : scan.plan = plan
  routing_eq : scan.routing = routing
  positive : 0 < plan.batchSize
  lines : scan.waiting.length = plan.queues
  read : scan.itemsRead = (itemsOf log).length
  dispatched : scan.dispatched = ∑ queue ∈ Finset.range plan.queues, (sentOn queue log).length
  /-- No item of a queue is lost, doubled or overtaken. -/
  conserved : ∀ queue < plan.queues,
    (sentOn queue log ++ scan.lineOf hand queue).flatMap Batch.items ++ (scan.batchOf queue).items =
      routing.share queue (itemsOf log)
  chopped : ∀ queue < plan.queues,
    Chopped plan.batchSize (sentOn queue log ++ scan.lineOf hand queue)
  /-- A batch that is not full goes out only behind the last item of its queue. -/
  whole : ∀ queue < plan.queues, hand.ending = false ∨ (scan.batchOf queue).items ≠ [] →
    ∀ batch ∈ sentOn queue log ++ scan.lineOf hand queue, batch.size = plan.batchSize
  room : ∀ queue < plan.queues, hand.full ≠ some queue →
    (scan.batchOf queue).size < plan.batchSize
  replaced : ∀ queue < plan.queues, hand.full = some queue →
    (scan.batchOf queue).size = plan.batchSize
  /-- An outstanding batch has gone out and is not acknowledged, or has not gone out. -/
  credit : scan.outstanding + ∑ queue ∈ Finset.range plan.queues, creditsOn queue log =
    ∑ queue ∈ Finset.range plan.queues,
      ((sentOn queue log).length + scan.chargedOf hand queue)
  reached : scan.outstanding ≤ scan.peak
  bounded : scan.peak ≤ plan.creditLimit

namespace Accounts

variable {plan : ScanPlan} {routing : Routing α} {scan : Scan α} {hand : Hand α}
  {log : List (Turn α)}

/-- The accounts do not depend on the phase. -/
theorem goTo (h : Accounts plan routing scan hand log) (phase : Phase α) :
    Accounts plan routing { scan with phase } hand log := { h with }

/-- The accounts do not depend on why the reading has ended. -/
theorem faulted (h : Accounts plan routing scan hand log) (fault : Fault) :
    Accounts plan routing { scan with readFault := some fault } hand log := { h with }

/-- A silent turn leaves the accounts as they are. -/
theorem silent (h : Accounts plan routing scan hand log) (turn : Turn α) (hturn : turn.Silent) :
    Accounts plan routing scan hand (log ++ [turn]) := by
  have hitems := itemsOf_append_of_none log hturn.1
  have hsent := fun queue => sentOn_append_of_none log (hturn.2.1 queue)
  have hcredits := fun queue => creditsOn_append_of_false log (hturn.2.2 queue)
  exact
    { h with
      read := by rw [hitems]; exact h.read
      dispatched := by simp only [hsent]; exact h.dispatched
      conserved := by simp only [hitems, hsent]; exact h.conserved
      chopped := by simp only [hsent]; exact h.chopped
      whole := by simp only [hsent]; exact h.whole
      credit := by simp only [hsent, hcredits]; exact h.credit }

/-- The reading ends. -/
theorem ended {ending : Bool} (h : Accounts plan routing scan (Hand.empty ending) log) :
    Accounts plan routing scan (Hand.empty true) log where
  __ := h
  whole := by
    intro queue hqueue hcase
    refine h.whole queue hqueue (Or.inr ?_)
    simpa [Hand.empty] using hcase

/-- Batches move along, from a line into the hand and back, or out: what has gone out and what
has not keep their order, and none gets or loses its credit. -/
theorem moved (h : Accounts plan routing scan hand log) {scan' : Scan α} {hand' : Hand α}
    {log' : List (Turn α)} (hscan : scan' = { scan with
      waiting := scan'.waiting, dispatched := scan'.dispatched, phase := scan'.phase })
    (hlines : scan'.waiting.length = scan.waiting.length)
    (hdispatched :
      scan'.dispatched = ∑ queue ∈ Finset.range plan.queues, (sentOn queue log').length)
    (hitems : itemsOf log' = itemsOf log)
    (hcredits : ∀ queue, creditsOn queue log' = creditsOn queue log)
    (hbatches : ∀ queue < plan.queues,
      sentOn queue log' ++ scan'.lineOf hand' queue = sentOn queue log ++ scan.lineOf hand queue)
    (hcharged : ∀ queue < plan.queues, (sentOn queue log').length + scan'.chargedOf hand' queue =
      (sentOn queue log).length + scan.chargedOf hand queue)
    (hfull : hand'.full = hand.full) (hending : hand'.ending = hand.ending) :
    Accounts plan routing scan' hand' log' := by
  have hbatch : scan'.batchOf = scan.batchOf := by rw [hscan]; rfl
  exact
    { plan_eq := by rw [hscan]; exact h.plan_eq
      routing_eq := by rw [hscan]; exact h.routing_eq
      positive := h.positive
      lines := hlines.trans h.lines
      read := by rw [hitems, hscan]; exact h.read
      dispatched := hdispatched
      conserved := by
        intro queue hqueue
        rw [hbatches queue hqueue, hbatch, hitems]
        exact h.conserved queue hqueue
      chopped := by
        intro queue hqueue
        rw [hbatches queue hqueue]
        exact h.chopped queue hqueue
      whole := by
        intro queue hqueue
        rw [hbatches queue hqueue, hbatch, hending]
        exact h.whole queue hqueue
      room := by
        rw [hbatch, hfull]
        exact h.room
      replaced := by
        rw [hbatch, hfull]
        exact h.replaced
      credit := by
        rw [Finset.sum_congr rfl fun queue hqueue => hcharged queue (Finset.mem_range.mp hqueue),
          Finset.sum_congr rfl fun queue _ => hcredits queue, hscan]
        exact h.credit
      reached := by rw [hscan]; exact h.reached
      bounded := by rw [hscan]; exact h.bounded }

/-- A batch in hand gets its credit: it is put in line, or on offer. -/
theorem charged (h : Accounts plan routing scan hand log)
    (hcredit : scan.outstanding < plan.creditLimit) {waiting : List (List (Batch α))}
    {hand' : Hand α} (hlines : waiting.length = scan.waiting.length)
    (hline : ∀ queue < plan.queues,
      { scan with waiting }.lineOf hand' queue = scan.lineOf hand queue)
    (hcharged : ∑ queue ∈ Finset.range plan.queues, { scan with waiting }.chargedOf hand' queue =
      ∑ queue ∈ Finset.range plan.queues, scan.chargedOf hand queue + 1)
    (hfull : hand'.full = hand.full) (hending : hand'.ending = hand.ending) :
    Accounts plan routing
      { scan with
        waiting
        outstanding := scan.outstanding + 1
        peak := Nat.max scan.peak (scan.outstanding + 1) } hand' log where
  plan_eq := h.plan_eq
  routing_eq := h.routing_eq
  positive := h.positive
  lines := hlines.trans h.lines
  read := h.read
  dispatched := h.dispatched
  conserved := by
    intro queue hqueue
    have := h.conserved queue hqueue
    rw [← hline queue hqueue] at this
    exact this
  chopped := by
    intro queue hqueue
    have := h.chopped queue hqueue
    rw [← hline queue hqueue] at this
    exact this
  whole := by
    intro queue hqueue
    have := h.whole queue hqueue
    rw [← hline queue hqueue, ← hending] at this
    exact this
  room := by rw [hfull]; exact h.room
  replaced := by rw [hfull]; exact h.replaced
  credit := by
    have hbefore := h.credit
    rw [Finset.sum_add_distrib] at hbefore ⊢
    -- One batch more is outstanding, and one more has not gone out.
    have hafter : ∑ queue ∈ Finset.range plan.queues,
        Scan.chargedOf
          { scan with
            waiting
            outstanding := scan.outstanding + 1
            peak := Nat.max scan.peak (scan.outstanding + 1) } hand' queue =
        ∑ queue ∈ Finset.range plan.queues, scan.chargedOf hand queue + 1 := hcharged
    rw [hafter]
    show scan.outstanding + 1 + _ = _
    omega
  reached := Nat.le_max_right _ _
  bounded := Nat.max_le.mpr ⟨h.bounded, hcredit⟩

/-- An acknowledgment gives a credit back. -/
theorem credited (h : Accounts plan routing scan hand log) (hpos : 0 < scan.outstanding)
    {queue : Nat} (hqueue : queue < plan.queues) (wait : Bool) :
    Accounts plan routing { scan with outstanding := scan.outstanding - 1 } hand
      (log ++ [⟨.acknowledgment wait, .acknowledged queue⟩]) := by
  have hitems : itemsOf (log ++ [⟨.acknowledgment wait, .acknowledged queue⟩]) = itemsOf log :=
    itemsOf_append_of_none log rfl
  have hsent : ∀ other,
      sentOn other (log ++ [⟨.acknowledgment wait, .acknowledged queue⟩]) = sentOn other log :=
    fun _ => sentOn_append_of_none log rfl
  exact
    { h with
      read := by rw [hitems]; exact h.read
      dispatched := by simp only [hsent]; exact h.dispatched
      conserved := by simp only [hitems, hsent]; exact h.conserved
      chopped := by simp only [hsent]; exact h.chopped
      whole := by simp only [hsent]; exact h.whole
      credit := by
        have hbefore := h.credit
        -- One acknowledgment more has been taken, and of this queue only.
        have hchange := sum_range_change (f := fun other => creditsOn other log)
          (g := fun other => creditsOn other (log ++ [⟨.acknowledgment wait, .acknowledged queue⟩]))
          hqueue (by
            intro other hother
            simp [creditsOn_append, Turn.isCreditOn, Ne.symm hother])
        simp only [creditsOn_append, Turn.isCreditOn, decide_true, if_true] at hchange
        simp only [hsent, creditsOn_append, Turn.isCreditOn]
        show scan.outstanding - 1 + _ = ∑ other ∈ Finset.range plan.queues,
          ((sentOn other log).length + scan.chargedOf hand other)
        omega
      reached := Nat.le_trans (Nat.sub_le _ _) h.reached }

/-- Batches without items take the place of batches without items. -/
theorem refilled (h : Accounts plan routing scan hand log) (filling : List (Batch α))
    (hitems : ∀ queue, (Scan.batchOf { scan with filling } queue).items =
      (scan.batchOf queue).items) :
    Accounts plan routing { scan with filling } hand log where
  __ := h
  conserved := by simp only [hitems]; exact h.conserved
  whole := by simp only [hitems]; exact h.whole
  room := by simp only [Batch.size, hitems]; exact h.room
  replaced := by simp only [Batch.size, hitems]; exact h.replaced

theorem batchOf_set (scan : Scan α) {queue : Nat} (hqueue : queue < scan.filling.length)
    (batch : Batch α) (other : Nat) :
    (scan.filling.set queue batch).getD other (Batch.new 0) =
      if other = queue then batch else scan.batchOf other :=
  getD_set hqueue batch other _

/-- An item comes into the batch of its queue, which may be full then. -/
theorem filled (h : Accounts plan routing scan (Hand.empty false) log)
    (hlength : scan.filling.length = plan.queues) {queue : Nat} (hqueue : queue < plan.queues)
    {item : α} (hrouting : routing (scan.itemsRead + 1) item = queue) (passItems : Nat) :
    Accounts plan routing
      { scan with
        itemsRead := scan.itemsRead + 1
        passItems
        filling := scan.filling.set queue ((scan.batchOf queue).append item) }
      { Hand.empty false with
        full := if plan.batchSize ≤ (scan.batchOf queue).size + 1 then some queue else none }
      (log ++ [⟨.item, .item (some item)⟩]) := by
  have hitems : itemsOf (log ++ [⟨.item, .item (some item)⟩]) = itemsOf log ++ [item] :=
    itemsOf_append log _
  have hsent : ∀ other, sentOn other (log ++ [⟨.item, .item (some item)⟩]) = sentOn other log :=
    fun _ => sentOn_append_of_none log rfl
  have hcredits : ∀ other,
      creditsOn other (log ++ [⟨.item, .item (some item)⟩]) = creditsOn other log :=
    fun _ => creditsOn_append_of_false log rfl
  have hbatch := batchOf_set scan (by rw [hlength]; exact hqueue) ((scan.batchOf queue).append item)
  have hsize : (scan.batchOf queue).size < plan.batchSize :=
    h.room queue hqueue (by simp [Hand.empty])
  refine
    { plan_eq := h.plan_eq
      routing_eq := h.routing_eq
      positive := h.positive
      lines := h.lines
      read := by
        rw [hitems, List.length_append, ← h.read]
        rfl
      dispatched := by simp only [hsent]; exact h.dispatched
      conserved := ?_
      chopped := by simp only [hsent]; exact h.chopped
      whole := ?_
      room := ?_
      replaced := ?_
      credit := by simp only [hsent, hcredits]; exact h.credit
      reached := h.reached
      bounded := h.bounded }
  · intro other hother
    have hbefore := h.conserved other hother
    have hread : (itemsOf log).length = scan.itemsRead := h.read.symm
    rw [hsent, hitems, Routing.share_append, hread]
    show List.flatMap Batch.items (_ ++ scan.lineOf (Hand.empty false) other) ++
      ((scan.filling.set queue ((scan.batchOf queue).append item)).getD other _).items = _
    rw [hbatch, ← hbefore]
    by_cases hsame : other = queue
    · subst hsame
      rw [if_pos rfl, if_pos hrouting, Batch.items_append, List.append_assoc]
    · rw [if_neg hsame, if_neg (fun hcontra => hsame (hcontra.symm.trans hrouting)),
        List.append_nil]
  · intro other hother _
    simp only [hsent]
    exact h.whole other hother (Or.inl rfl)
  -- The batch of the queue is one item larger, and the others are as before.
  · intro other hother hfull
    show ((scan.filling.set queue _).getD other _).size < _
    rw [hbatch]
    by_cases hsame : other = queue
    · subst hsame
      rw [if_pos rfl, Batch.size_append]
      by_contra hge
      exact hfull (if_pos (Nat.le_of_not_lt hge))
    · rw [if_neg hsame]
      exact h.room other hother (by simp [Hand.empty])
  · intro other hother hfull
    show ((scan.filling.set queue _).getD other _).size = _
    dsimp only at hfull
    split at hfull
    · obtain rfl : queue = other := Option.some.inj hfull
      rw [hbatch, if_pos rfl, Batch.size_append]
      omega
    · cases hfull

/-! ### Batches that are handed over -/

section Drawing

variable {queue : Nat} {ending : Bool}

/-- The batches of a queue that hands one over are full so far. -/
theorem whole_of_drawing (h : Accounts plan routing scan (Phase.drawing queue ending).hand log)
    (hqueue : queue < plan.queues) (hfilled : ending = true → (scan.batchOf queue).items ≠ []) :
    ∀ batch ∈ sentOn queue log ++ scan.lineOf (Phase.drawing queue ending).hand queue,
      batch.size = plan.batchSize := by
  refine h.whole queue hqueue ?_
  cases ending with
  | false => exact Or.inl rfl
  | true => exact Or.inr (hfilled rfl)

/-- A batch that is handed over is full, or has an item and room when the reading has ended. -/
theorem size_of_drawing (h : Accounts plan routing scan (Phase.drawing queue ending).hand log)
    (hqueue : queue < plan.queues) (hfilled : ending = true → (scan.batchOf queue).items ≠ []) :
    0 < (scan.batchOf queue).size ∧ (scan.batchOf queue).size ≤ plan.batchSize := by
  cases ending with
  | false =>
    have hfull := h.replaced queue hqueue rfl
    exact ⟨hfull ▸ h.positive, hfull.le⟩
  | true =>
    have hroom := h.room queue hqueue (by simp [Phase.hand])
    exact ⟨List.length_pos_iff.mpr (hfilled rfl), hroom.le⟩

/-- A batch that is handed over stands behind the others of its queue. -/
theorem lineOf_withholding (scan : Scan α) (queue : Nat) (ending : Bool) (batch : Batch α)
    (other : Nat) :
    scan.lineOf (Hand.withholding queue batch ending) other =
      scan.lineOf (Phase.drawing queue ending).hand other ++
        if other = queue then [batch] else [] := by
  by_cases hsame : other = queue
  · subst hsame
    simp [Scan.lineOf, Hand.withholding, Phase.hand, Hand.empty]
  · simp [Scan.lineOf, Hand.withholding, Phase.hand, Hand.empty, hsame, inHand_of_ne hsame]

/-- An empty batch takes the place of one that is to be handed over. -/
theorem drawn (h : Accounts plan routing scan (Phase.drawing queue ending).hand log)
    (hlength : scan.filling.length = plan.queues) (hqueue : queue < plan.queues)
    (hfilled : ending = true → (scan.batchOf queue).items ≠ [])
    {batch : Batch α} (hempty : batch.items = []) :
    Accounts plan routing { scan with filling := scan.filling.set queue batch }
      (Hand.withholding queue (scan.batchOf queue) ending) log := by
  have hbatch := batchOf_set scan (by rw [hlength]; exact hqueue) batch
  have hline : ∀ other, Scan.lineOf { scan with filling := scan.filling.set queue batch }
      (Hand.withholding queue (scan.batchOf queue) ending) other =
        scan.lineOf (Phase.drawing queue ending).hand other ++
          if other = queue then [scan.batchOf queue] else [] :=
    lineOf_withholding scan queue ending (scan.batchOf queue)
  have hwhole := h.whole_of_drawing hqueue hfilled
  obtain ⟨hpos, hle⟩ := h.size_of_drawing hqueue hfilled
  refine { h with conserved := ?_, chopped := ?_, whole := ?_, room := ?_, replaced := ?_ }
  · intro other hother
    have hbefore := h.conserved other hother
    show List.flatMap Batch.items _ ++ ((scan.filling.set queue batch).getD other _).items = _
    rw [hline, hbatch, ← hbefore]
    by_cases hsame : other = queue
    · subst hsame
      simp [hempty]
    · simp [hsame]
  · intro other hother
    rw [hline]
    by_cases hsame : other = queue
    · subst hsame
      rw [if_pos rfl, ← List.append_assoc]
      exact chopped_append hwhole hpos hle
    · rw [if_neg hsame, List.append_nil]
      exact h.chopped other hother
  · intro other hother hcase
    rw [hline]
    by_cases hsame : other = queue
    · subst hsame
      rw [if_pos rfl, ← List.append_assoc]
      -- The new batch is empty, so the reading goes on, and the one in hand is full.
      have hending : ending = false := by
        refine hcase.resolve_right fun hne => hne ?_
        show ((scan.filling.set other batch).getD other _).items = []
        rw [hbatch, if_pos rfl, hempty]
      subst hending
      intro some hsome
      rcases List.mem_append.mp hsome with hold | hnew
      · exact hwhole some hold
      · rw [List.mem_singleton.mp hnew]
        exact h.replaced other hother rfl
    · rw [if_neg hsame, List.append_nil]
      refine h.whole other hother (hcase.imp id fun hne => ?_)
      have hafter : ((scan.filling.set queue batch).getD other (Batch.new 0)).items ≠ [] := hne
      rwa [hbatch, if_neg hsame] at hafter
  · intro other hother _
    show ((scan.filling.set queue batch).getD other _).size < _
    rw [hbatch]
    by_cases hsame : other = queue
    · rw [if_pos hsame, Batch.size, hempty]
      exact h.positive
    · rw [if_neg hsame]
      refine h.room other hother ?_
      cases ending <;> simp [Phase.hand, Ne.symm hsame]
  · intro other _ hfull
    cases hfull

end Drawing

/-! ### Batches that move along -/

theorem waitingOf_set (h : Accounts plan routing scan hand log) {queue : Nat}
    (hqueue : queue < plan.queues) (line : List (Batch α)) (other : Nat) :
    (scan.waiting.set queue line).getD other [] =
      if other = queue then line else scan.waitingOf other :=
  getD_set (by rw [h.lines]; exact hqueue) line other []

/-- A batch that waited for its credit is on offer, since no other waits in its line. -/
theorem offered {queue : Nat} {batch : Batch α} {ending : Bool}
    (h : Accounts plan routing scan (Hand.withholding queue batch ending) log)
    (hcredit : scan.outstanding < plan.creditLimit) (hqueue : queue < plan.queues)
    (hempty : scan.waitingOf queue = []) :
    Accounts plan routing
      { scan with
        outstanding := scan.outstanding + 1
        peak := Nat.max scan.peak (scan.outstanding + 1) }
      (Hand.offering queue batch ending) log := by
  refine h.charged hcredit (Eq.refl scan.waiting.length) ?_ ?_ rfl rfl
  · intro other _
    show inHand other (some (queue, batch)) ++ scan.waitingOf other ++ [] =
      [] ++ scan.waitingOf other ++ inHand other (some (queue, batch))
    -- In front of an empty line and behind it is the same place.
    by_cases hsame : other = queue
    · subst hsame
      rw [hempty, List.append_nil, List.nil_append, List.append_nil, List.nil_append]
    · rw [inHand_of_ne hsame]
  · have hchange := sum_range_change (f := scan.chargedOf (Hand.withholding queue batch ending))
      (g := scan.chargedOf (Hand.offering queue batch ending)) hqueue (by
        intro other hother
        simp [Scan.chargedOf, Hand.withholding, Hand.offering, inHand_of_ne hother])
    simp only [Scan.chargedOf, Hand.withholding, Hand.offering, inHand_self, inHand_none,
      List.length_singleton, List.length_nil] at hchange ⊢
    show ∑ other ∈ Finset.range plan.queues,
      ((inHand other (some (queue, batch))).length + (scan.waitingOf other).length) = _
    omega

/-- A batch that waited for its credit waits in line, behind the others of its queue. -/
theorem linedUp {queue : Nat} {batch : Batch α} {ending : Bool}
    (h : Accounts plan routing scan (Hand.withholding queue batch ending) log)
    (hcredit : scan.outstanding < plan.creditLimit) (hqueue : queue < plan.queues) :
    Accounts plan routing
      { scan with
        waiting := scan.waiting.set queue (scan.waitingOf queue ++ [batch])
        outstanding := scan.outstanding + 1
        peak := Nat.max scan.peak (scan.outstanding + 1) }
      (Hand.empty ending) log := by
  have hwaiting := h.waitingOf_set hqueue (scan.waitingOf queue ++ [batch])
  refine h.charged hcredit (List.length_set ..) ?_ ?_ rfl rfl
  · intro other _
    show [] ++ (scan.waiting.set queue _).getD other [] ++ [] =
      [] ++ scan.waitingOf other ++ inHand other (some (queue, batch))
    rw [hwaiting]
    by_cases hsame : other = queue
    · subst hsame
      rw [if_pos rfl, inHand_self, List.append_nil, List.append_assoc]
    · rw [if_neg hsame, inHand_of_ne hsame]
  · have hcharged : ∀ other, Scan.chargedOf
        { scan with waiting := scan.waiting.set queue (scan.waitingOf queue ++ [batch]) }
        (Hand.empty ending) other =
          if other = queue then (scan.waitingOf queue).length + 1
          else (scan.waitingOf other).length := by
      intro other
      show 0 + ((scan.waiting.set queue _).getD other []).length = _
      rw [hwaiting]
      by_cases hsame : other = queue <;> simp [hsame]
    have hbefore : ∀ other, scan.chargedOf (Hand.withholding queue batch ending) other =
        (scan.waitingOf other).length := fun other => Nat.zero_add _
    -- The lengths of the lines change in one place only.
    have hchange := sum_range_change
      (f := fun other => (scan.waitingOf other).length)
      (g := fun other => if other = queue then (scan.waitingOf queue).length + 1
        else (scan.waitingOf other).length) hqueue (fun other hother => if_neg hother)
    simp only [hcharged, hbefore, if_true] at hchange ⊢
    omega

/-- A batch on offer for which the queue has no slot goes to the head of its line. -/
theorem putBack (h : Accounts plan routing scan hand log) {queue : Nat} {batch : Batch α}
    (hoffered : hand.offered = some (queue, batch)) (hqueue : queue < plan.queues) :
    Accounts plan routing
      { scan with waiting := scan.waiting.set queue (batch :: scan.waitingOf queue) }
      { hand with offered := none } log := by
  have hwaiting := h.waitingOf_set hqueue (batch :: scan.waitingOf queue)
  refine h.moved rfl (List.length_set ..) h.dispatched rfl (fun _ => rfl) ?_ ?_ rfl rfl
  · intro other _
    congr 1
    show [] ++ (scan.waiting.set queue _).getD other [] ++ _ =
      inHand other hand.offered ++ scan.waitingOf other ++ _
    -- The batch moves from the hand to the head of the line, and nothing overtakes it.
    rw [hwaiting, hoffered]
    by_cases hsame : other = queue
    · subst hsame
      rw [if_pos rfl, inHand_self, List.nil_append, List.singleton_append]
    · rw [if_neg hsame, inHand_of_ne hsame]
  · intro other _
    congr 1
    show 0 + ((scan.waiting.set queue _).getD other []).length =
      (inHand other hand.offered).length + (scan.waitingOf other).length
    rw [hwaiting, hoffered]
    by_cases hsame : other = queue
    · subst hsame
      rw [if_pos rfl, inHand_self, List.length_cons, List.length_singleton]
      omega
    · rw [if_neg hsame, inHand_of_ne hsame, List.length_nil]

/-- The head of a line is on offer. -/
theorem popped (h : Accounts plan routing scan hand log) {queue : Nat} {batch : Batch α}
    {rest : List (Batch α)} (hoffered : hand.offered = none) (hqueue : queue < plan.queues)
    (hline : scan.waitingOf queue = batch :: rest) :
    Accounts plan routing { scan with waiting := scan.waiting.set queue rest }
      { hand with offered := some (queue, batch) } log := by
  have hwaiting := h.waitingOf_set hqueue rest
  refine h.moved rfl (List.length_set ..) h.dispatched rfl (fun _ => rfl) ?_ ?_ rfl rfl
  · intro other _
    congr 1
    show inHand other (some (queue, batch)) ++ (scan.waiting.set queue rest).getD other [] ++ _ =
      inHand other hand.offered ++ scan.waitingOf other ++ _
    -- The head of the line moves into the hand, and nothing overtakes it.
    rw [hwaiting, hoffered]
    by_cases hsame : other = queue
    · subst hsame
      rw [if_pos rfl, inHand_self, hline, inHand_none, List.nil_append, List.singleton_append]
    · rw [if_neg hsame, inHand_of_ne hsame, inHand_none]
  · intro other _
    congr 1
    show (inHand other (some (queue, batch))).length +
        ((scan.waiting.set queue rest).getD other []).length =
      (inHand other hand.offered).length + (scan.waitingOf other).length
    rw [hwaiting, hoffered]
    by_cases hsame : other = queue
    · subst hsame
      rw [if_pos rfl, inHand_self, hline, inHand_none]
      simp only [List.length_cons, List.length_nil]
      omega
    · rw [if_neg hsame, inHand_of_ne hsame, inHand_none]

/-- A batch on offer goes out. -/
theorem sent (h : Accounts plan routing scan hand log) {queue : Nat} {batch : Batch α}
    (hoffered : hand.offered = some (queue, batch)) (hqueue : queue < plan.queues) :
    Accounts plan routing { scan with dispatched := scan.dispatched + 1 }
      { hand with offered := none } (log ++ [⟨.send queue batch, .offered .accepted⟩]) := by
  have hitems : itemsOf (log ++ [⟨.send queue batch, .offered .accepted⟩]) = itemsOf log :=
    itemsOf_append_of_none log rfl
  have hcredits : ∀ other, creditsOn other (log ++ [⟨.send queue batch, .offered .accepted⟩]) =
      creditsOn other log := fun _ => creditsOn_append_of_false log rfl
  have hsent : ∀ other, sentOn other (log ++ [⟨.send queue batch, .offered .accepted⟩]) =
      sentOn other log ++ inHand other hand.offered := by
    intro other
    rw [sentOn_append, hoffered]
    by_cases hsame : queue = other <;> simp [Turn.sentOn?, inHand, hsame]
  -- What has gone out is longer by what was on offer, and the hand is empty behind it.
  refine h.moved rfl rfl ?_ hitems hcredits ?_ ?_ rfl rfl
  · have hchange := sum_range_change (f := fun other => (sentOn other log).length)
      (g := fun other => (sentOn other (log ++ [⟨.send queue batch, .offered .accepted⟩])).length)
      hqueue (by
        intro other hother
        simp [hsent, hoffered, inHand_of_ne hother])
    have hself : (sentOn queue (log ++ [⟨.send queue batch, .offered .accepted⟩])).length =
        (sentOn queue log).length + 1 := by
      rw [hsent, hoffered, inHand_self, List.length_append, List.length_singleton]
    have hbefore := h.dispatched
    dsimp only at hchange ⊢
    omega
  · intro other _
    rw [hsent]
    show _ ++ inHand other hand.offered ++ ([] ++ scan.waitingOf other ++ _) =
      _ ++ (inHand other hand.offered ++ scan.waitingOf other ++ _)
    simp only [List.append_assoc, List.nil_append]
  · intro other _
    rw [hsent, List.length_append]
    show _ + (inHand other hand.offered).length + (0 + (scan.waitingOf other).length) =
      _ + ((inHand other hand.offered).length + (scan.waitingOf other).length)
    omega

end Accounts

end LoadBench
