/-
  LoadBench.Proofs.Scan.Weight

  A scan comes to its end.  Each reply makes it lighter (`weight_resume`), but
  for an item, by which it gains less than nine, and for a new start of its input.

  The weight is three for each outstanding batch, and what the phase has before it.
  Behind a batch that is handed over, that depends on the queues that come after
  its own, if the items have ended, and else on all queues (`Scan.rest`).
-/

import LoadBench.Proofs.Scan.Sound

namespace LoadBench

variable {α : Type}

/-- How many items a reply gives. -/
def Reply.items : Reply α → Nat
  | .item (some _) => 1
  | _ => 0

namespace Scan

/-! ## The weight -/

/-- What a scan has before it behind a batch that it hands over for a queue. -/
def rest (scan : Scan α) (queue : Nat) (ending : Bool) : Nat :=
  if ending then 16 * (scan.filling.length - (queue + 1)) else 16 * scan.filling.length + 2

/-- What a scan has before it in a phase. -/
def ahead (scan : Scan α) : Phase α → Nat
  | .opening => 17 * scan.plan.queues + 20 - scan.filling.length
  | .checking => 16 * scan.filling.length + 7
  | .awaiting .reading => 16 * scan.filling.length + 6
  | .awaiting (.room queue _ ending) => scan.rest queue ending + 8
  | .awaiting .drain => 1
  | .resending _ _ .reading => 16 * scan.filling.length + 8
  | .resending _ _ (.room queue _ ending) => scan.rest queue ending + 10
  | .resending _ _ .drain => 3
  | .fetching => 16 * scan.filling.length + 5
  | .drawing queue ending => scan.rest queue ending + 11
  | .sending queue _ ending => scan.rest queue ending + 6
  | .rewinding => 16 * scan.filling.length + 4
  | .returned _ => 0

/-- How much a scan has before it. -/
def weight (scan : Scan α) : Nat := 3 * scan.outstanding + scan.ahead scan.phase

variable {scan : Scan α}

theorem weight_eq {phase : Phase α} (h : scan.phase = phase) :
    scan.weight = 3 * scan.outstanding + scan.ahead phase := by
  rw [weight, h]

theorem rest_eq {other : Scan α} (h : other.filling.length = scan.filling.length) (queue : Nat)
    (ending : Bool) : other.rest queue ending = scan.rest queue ending := by
  rw [rest, rest, h]

/-! ## The end -/

theorem weight_drain (scan : Scan α) : scan.drain.weight ≤ 3 * scan.outstanding + 1 := by
  unfold drain
  split
  · exact Nat.le_refl _
  · exact Nat.le_succ _

theorem weight_flushFrom (scan : Scan α) (queue : Nat) :
    (scan.flushFrom queue).weight ≤
      3 * scan.outstanding + 16 * (scan.filling.length - queue) + 1 := by
  unfold flushFrom
  split
  · next chosen hchosen =>
    -- The chosen queue is one of those from `queue` on, so its own sixteen are spent.
    obtain ⟨hle, hlt, -, -⟩ := firstFilled?_eq_some hchosen
    rw [List.length_drop] at hlt
    show 3 * scan.outstanding + (16 * (scan.filling.length - (chosen + 1)) + 11) ≤ _
    omega
  · have hdrain := scan.weight_drain
    omega

theorem weight_finish (scan : Scan α) :
    scan.finish.weight ≤ 3 * scan.outstanding + 16 * scan.filling.length + 1 :=
  scan.weight_flushFrom 0

/-! ## The rounds -/

theorem weight_readMore (scan : Scan α) :
    scan.readMore.weight ≤ 3 * scan.outstanding + 16 * scan.filling.length + 6 := by
  unfold readMore
  split
  · have hfinish := scan.weight_finish
    omega
  · exact Nat.le_refl _

theorem weight_proceed (scan : Scan α) :
    scan.proceed.weight ≤ 3 * scan.outstanding + 16 * scan.filling.length + 7 := by
  unfold proceed
  split
  · have hmore := scan.weight_readMore
    omega
  · exact Nat.le_refl _

theorem weight_handedOver (scan : Scan α) (queue : Nat) (ending : Bool) :
    (scan.handedOver queue ending).weight ≤ 3 * scan.outstanding + scan.rest queue ending + 5 := by
  unfold handedOver
  cases ending with
  | true =>
    have hflush := scan.weight_flushFrom (queue + 1)
    show (scan.flushFrom (queue + 1)).weight ≤ 3 * scan.outstanding + 16 * _ + 5
    omega
  | false =>
    have hproceed := scan.weight_proceed
    show scan.proceed.weight ≤ 3 * scan.outstanding + (16 * scan.filling.length + 2) + 5
    omega

/-! ## Handing over -/

theorem weight_charge (scan : Scan α) (queue : Nat) (batch : Batch α) (ending : Bool) :
    (scan.charge queue batch ending).weight ≤
      3 * scan.outstanding + scan.rest queue ending + 9 := by
  unfold charge
  dsimp only
  split
  -- The credit that is taken weighs three.
  · show 3 * (scan.outstanding + 1) + (scan.rest queue ending + 6) ≤ _
    omega
  · refine Nat.le_trans (weight_handedOver _ queue ending) ?_
    show 3 * (scan.outstanding + 1) + scan.rest queue ending + 5 ≤ _
    omega

theorem weight_handOver (scan : Scan α) (queue : Nat) (batch : Batch α) (ending : Bool) :
    (scan.handOver queue batch ending).weight ≤
      3 * scan.outstanding + scan.rest queue ending + 9 := by
  unfold handOver
  split
  · exact Nat.le_succ _
  · exact scan.weight_charge queue batch ending

/-- Going on with a purpose costs what it costs behind the head of a line. -/
theorem weight_settle (scan : Scan α) (purpose : Purpose α) (queue : Nat) (batch : Batch α) :
    (scan.settle purpose).weight <
      3 * scan.outstanding + scan.ahead (.resending queue batch purpose) := by
  cases purpose with
  | reading =>
    show 3 * scan.outstanding + (16 * scan.filling.length + 5) < _ + (16 * scan.filling.length + 8)
    omega
  | room chosen charged ending =>
    refine Nat.lt_of_le_of_lt (scan.weight_charge chosen charged ending) ?_
    show _ < 3 * scan.outstanding + (scan.rest chosen ending + 10)
    omega
  | drain =>
    refine Nat.lt_of_le_of_lt scan.weight_drain ?_
    show _ < 3 * scan.outstanding + 3
    omega

/-- The head of a line is worth less than the acknowledgment for which it goes out. -/
theorem ahead_resending (scan : Scan α) (purpose : Purpose α) (queue : Nat) (batch : Batch α) :
    scan.ahead (.resending queue batch purpose) < scan.ahead (.awaiting purpose) + 3 := by
  cases purpose <;> simp [ahead]

theorem weight_acknowledge {purpose : Purpose α} (hphase : scan.phase = .awaiting purpose)
    (queue : Nat) : (scan.acknowledge queue purpose).weight < scan.weight := by
  rw [weight_eq hphase]
  unfold acknowledge
  split
  · have hpos : 0 < scan.ahead (.awaiting purpose) := by cases purpose <;> simp [ahead]
    show 3 * scan.outstanding + 0 < _
    omega
  · next hpos =>
    dsimp only
    -- The credit that comes back weighs three, and what goes on behind it less than three more.
    have hahead := scan.ahead_resending purpose
    split
    · refine Nat.lt_trans (weight_settle _ purpose queue (Batch.new 0)) ?_
      have hless := hahead queue (Batch.new 0)
      show 3 * (scan.outstanding - 1) + scan.ahead (.resending queue (Batch.new 0) purpose) < _
      omega
    · next batch line hline =>
      have hless := hahead queue batch
      show 3 * (scan.outstanding - 1) + scan.ahead (.resending queue batch purpose) < _
      omega

/-! ## The input -/

theorem weight_push (scan : Scan α) (item : α) :
    (scan.push item).weight ≤ 3 * scan.outstanding + 16 * scan.filling.length + 13 := by
  unfold push
  dsimp only
  split
  · show 3 * scan.outstanding + 0 ≤ _
    omega
  · split
    · show 3 * scan.outstanding + (16 * (scan.filling.set _ _).length + 2 + 11) ≤ _
      rw [List.length_set]
      omega
    · refine Nat.le_trans (weight_proceed _) ?_
      show 3 * scan.outstanding + 16 * (scan.filling.set _ _).length + 7 ≤ _
      rw [List.length_set]
      omega

/-- At the end of its input a scan is lighter than before its last item. -/
theorem weight_passEnded (scan : Scan α) :
    scan.passEnded.weight ≤ 3 * scan.outstanding + 16 * scan.filling.length + 4 := by
  unfold passEnded
  split
  · exact Nat.le_refl _
  · have hfinish := scan.weight_finish
    omega

/-- A new start of the input weighs less than an item. -/
theorem weight_passStarted (hphase : scan.phase = .rewinding) :
    scan.passStarted.weight < scan.weight + 4 := by
  have hproceed := weight_proceed { scan with passItems := 0, rewinds := scan.rewinds + 1 }
  rw [weight_eq hphase]
  show scan.passStarted.weight < 3 * scan.outstanding + (16 * scan.filling.length + 4) + 4
  exact Nat.lt_succ_of_le hproceed

/-! ## Replies -/

/-- Only a scan that has returned weighs nothing but its outstanding batches. -/
theorem weight_fail (fault : ScanFault) {phase : Phase α} (hphase : scan.phase = phase)
    (hpos : 0 < scan.ahead phase) : (scan.fail fault).weight < scan.weight := by
  rw [weight_eq hphase]
  show 3 * scan.outstanding + 0 < _
  omega

theorem ahead_awaiting_pos (scan : Scan α) (purpose : Purpose α) :
    0 < scan.ahead (.awaiting purpose) := by
  cases purpose <;> simp [ahead]

theorem ahead_resending_pos (scan : Scan α) (queue : Nat) (batch : Batch α) (purpose : Purpose α) :
    0 < scan.ahead (.resending queue batch purpose) := by
  cases purpose <;> simp [ahead]

/-- Each reply makes a scan lighter, unless it is an item or a new start. -/
theorem weight_resume {queues : Nat} {request : Request α} {reply : Reply α}
    (hopening : scan.phase = .opening → scan.filling.length < scan.plan.queues)
    (hrequest : scan.request? = some request) (hadmits : request.admits queues reply = true)
    (hanew : reply ≠ .rewound true) :
    (scan.resume reply).weight < scan.weight + 9 * reply.items := by
  have hresumed := resumed_of_admits hrequest hadmits
  generalize scan.resume reply = next at hresumed ⊢
  cases hresumed with
  | @opened batch hphase hempty =>
    -- A queue that gets its batch weighs sixteen from then on, and seventeen before.
    have hless := hopening hphase
    rw [weight_eq hphase]
    split
    · next hfull =>
      rw [List.length_append, List.length_singleton] at hfull
      refine Nat.lt_of_le_of_lt (weight_proceed _) ?_
      show 3 * scan.outstanding + 16 * (scan.filling ++ [batch]).length + 7 <
        3 * scan.outstanding + (17 * scan.plan.queues + 20 - scan.filling.length) + 9 * 0
      rw [List.length_append, List.length_singleton]
      omega
    · show 3 * scan.outstanding +
          (17 * scan.plan.queues + 20 - (scan.filling ++ [batch]).length) <
        3 * scan.outstanding + (17 * scan.plan.queues + 20 - scan.filling.length) + 9 * 0
      rw [List.length_append, List.length_singleton]
      omega
  | checked hphase =>
    have hfinish := scan.weight_finish
    have hmore := scan.weight_readMore
    rw [weight_eq hphase]
    show _ < 3 * scan.outstanding + (16 * scan.filling.length + 7) + 9 * 0
    split <;> omega
  | acknowledged hphase => exact weight_acknowledge hphase _
  | unacknowledged hphase =>
    rw [weight_eq hphase]
    show 3 * scan.outstanding + (16 * scan.filling.length + 5) <
      3 * scan.outstanding + (16 * scan.filling.length + 6) + 9 * 0
    omega
  | deserted hphase => exact weight_fail _ hphase (scan.ahead_awaiting_pos _)
  | @resent queue batch purpose hphase =>
    rw [weight_eq hphase]
    exact weight_settle scan.countSent purpose queue batch
  | @putBack queue batch purpose hphase =>
    rw [weight_eq hphase]
    exact weight_settle (scan.putBack queue batch) purpose queue batch
  | @item item hphase =>
    -- With the nine of the item there is enough for a batch that it fills.
    have hpush := scan.weight_push item
    rw [weight_eq hphase]
    show (scan.push item).weight < 3 * scan.outstanding + (16 * scan.filling.length + 5) + 9 * 1
    omega
  | ended hphase =>
    have hended := scan.weight_passEnded
    rw [weight_eq hphase]
    show scan.passEnded.weight < 3 * scan.outstanding + (16 * scan.filling.length + 5) + 9 * 0
    omega
  | drawn hphase hempty =>
    rw [weight_eq hphase]
    refine Nat.lt_of_le_of_lt (weight_handOver _ _ _ _) ?_
    rw [@rest_eq _ scan _ (List.length_set ..)]
    show 3 * scan.outstanding + scan.rest _ _ + 9 <
      3 * scan.outstanding + (scan.rest _ _ + 11) + 9 * 0
    omega
  | sent hphase | linedUp hphase =>
    rw [weight_eq hphase]
    refine Nat.lt_of_le_of_lt (weight_handedOver _ _ _) ?_
    show 3 * scan.outstanding + scan.rest _ _ + 5 <
      3 * scan.outstanding + (scan.rest _ _ + 6) + 9 * 0
    omega
  | refused hphase =>
    rcases hphase with ⟨purpose, hphase⟩ | ⟨ending, hphase⟩
    · exact weight_fail _ hphase (scan.ahead_resending_pos _ _ purpose)
    · exact weight_fail _ hphase (Nat.succ_pos _)
  | rewound => exact absurd rfl hanew
  | unrewound hphase =>
    have hfinish := scan.weight_finish
    rw [weight_eq hphase]
    show _ < 3 * scan.outstanding + (16 * scan.filling.length + 4) + 9 * 0
    omega
  | unreadable hphase =>
    refine Nat.lt_of_le_of_lt (weight_finish _) ?_
    show 3 * scan.outstanding + 16 * scan.filling.length + 1 < scan.weight + 9 * 0
    rcases hphase with ⟨hphase, -⟩ | ⟨hphase, -⟩ <;>
      rw [weight_eq hphase, ahead] <;>
      omega

end Scan

end LoadBench
