/-
  LoadBench.Proofs.Scan.Sound

  The invariant of a scan.  A sound scan has its accounts in order for what it
  has in hand (`Accounts`), and stands where its phase says it does
  (`Phase.Stands`): which batches have been cleared, which queue is concerned,
  and why it waits.

  `sound_resume` is the step of the invariant: whatever the reply, a sound scan
  goes on to a sound scan, or it breaks off with a fault of the dispatch.  The
  lemmas before it follow the functions of the scan one by one, from the last
  thing a scan does (`drain`) to the first.
-/

import LoadBench.Proofs.Scan.Account

namespace LoadBench

variable {α : Type}

/-! ## Where a scan stands -/

/-- Whether the batches being filled for the queues before `queue` have no items. -/
def Scan.Cleared (scan : Scan α) (queue : Nat) : Prop :=
  ∀ earlier < queue, (scan.batchOf earlier).items = []

/-- What holds while a scan takes an acknowledgment for a purpose. -/
def Purpose.Stands (scan : Scan α) : Purpose α → Prop
  | .reading => True
  | .room queue _ ending =>
    queue < scan.plan.queues ∧ (ending = true → scan.Cleared (queue + 1))
  | .drain => scan.Cleared scan.plan.queues

/-- Why a scan waits for an acknowledgment, if it has to. -/
def Purpose.Waits (scan : Scan α) : Purpose α → Prop
  | .reading => True
  | .room _ _ _ => scan.plan.creditLimit ≤ scan.outstanding
  | .drain => 0 < scan.outstanding

/-- What holds of a scan in a phase. -/
def Phase.Stands (scan : Scan α) : Phase α → Prop
  | .opening => scan.filling.length < scan.plan.queues
  | .awaiting purpose =>
    scan.filling.length = scan.plan.queues ∧ purpose.Stands scan ∧ purpose.Waits scan
  | .resending queue _ purpose =>
    scan.filling.length = scan.plan.queues ∧ queue < scan.plan.queues ∧ purpose.Stands scan ∧
      scan.outstanding < scan.plan.creditLimit
  | .drawing queue ending =>
    scan.filling.length = scan.plan.queues ∧ queue < scan.plan.queues ∧
      (ending = true → (scan.batchOf queue).items ≠ [] ∧ scan.Cleared queue)
  | .sending queue _ ending =>
    scan.filling.length = scan.plan.queues ∧ queue < scan.plan.queues ∧
      scan.waitingOf queue = [] ∧ (ending = true → scan.Cleared (queue + 1))
  | .returned result =>
    scan.Cleared scan.plan.queues ∧ scan.outstanding = 0 ∧ result = scan.verdict
  | _ => scan.filling.length = scan.plan.queues

/-- The invariant of a scan, given its log. -/
structure Scan.Sound (plan : ScanPlan) (routing : Routing α) (scan : Scan α)
    (log : List (Turn α)) : Prop where
  accounts : Accounts plan routing scan scan.phase.hand log
  stands : scan.phase.Stands scan

/-- Whether a fault is one of the dispatch itself, other than a stray acknowledgment. -/
def ScanFault.IsLoss : ScanFault → Prop
  | .stray => False
  | .unreadable _ => False
  | _ => True

/-- A scan that has broken off. Its batches may be anywhere, but its counters are still in their
bounds. -/
structure Scan.Broken (plan : ScanPlan) (scan : Scan α) : Prop where
  plan_eq : scan.plan = plan
  fault : ∃ fault : ScanFault, scan.phase = .returned (.error fault) ∧ fault.IsLoss
  reached : scan.outstanding ≤ scan.peak
  bounded : scan.peak ≤ plan.creditLimit

namespace Scan

/-- Whether a reply makes the scan break off: a queue is deserted, a batch is refused, or an item is
for a queue that does not exist. -/
def BreaksOff (scan : Scan α) : Reply α → Prop
  | .deserted _ => True
  | .offered (.refused _) => True
  | .item (some item) => scan.plan.queues ≤ scan.routing (scan.itemsRead + 1) item
  | _ => False

variable {plan : ScanPlan} {routing : Routing α} {scan : Scan α} {log : List (Turn α)}

/-! ## The end -/

/-- What `firstFilled?` finds is the first batch with items. -/
theorem firstFilled?_eq_some {queue next : Nat} {batches : List (Batch α)}
    (h : firstFilled? queue batches = some next) :
    queue ≤ next ∧ next - queue < batches.length ∧
      (batches.getD (next - queue) (Batch.new 0)).items ≠ [] ∧
      ∀ i < next - queue, (batches.getD i (Batch.new 0)).items = [] := by
  induction batches generalizing queue with
  | nil => cases h
  | cons batch rest ih =>
    rw [firstFilled?] at h
    by_cases hempty : batch.isEmpty = true
    · rw [if_pos hempty] at h
      -- Places in the rest are counted from the next queue on.
      obtain ⟨hle, hlt, hnext, hbefore⟩ := ih h
      have hshift : next - queue = next - (queue + 1) + 1 := by omega
      refine ⟨by omega, by rw [hshift]; simpa using hlt, by rw [hshift]; exact hnext, ?_⟩
      intro i hi
      cases i with
      | zero => exact List.isEmpty_iff.mp hempty
      | succ i => exact hbefore i (by omega)
    · rw [if_neg hempty] at h
      obtain rfl : queue = next := Option.some.inj h
      refine ⟨le_refl _, by simp, ?_, ?_⟩
      · rw [Nat.sub_self]
        exact fun hnil => hempty (List.isEmpty_iff.mpr hnil)
      · intro i hi
        omega

/-- Where `firstFilled?` finds nothing, no batch has items. -/
theorem firstFilled?_eq_none {queue : Nat} {batches : List (Batch α)}
    (h : firstFilled? queue batches = none) (i : Nat) :
    (batches.getD i (Batch.new 0)).items = [] := by
  induction batches generalizing queue i with
  | nil => rfl
  | cons batch rest ih =>
    rw [firstFilled?] at h
    by_cases hempty : batch.isEmpty = true
    · rw [if_pos hempty] at h
      cases i with
      | zero => exact List.isEmpty_iff.mp hempty
      | succ i => exact ih h i
    · rw [if_neg hempty] at h
      cases h

theorem batchOf_drop (scan : Scan α) (queue i : Nat) :
    (scan.filling.drop queue).getD i (Batch.new 0) = scan.batchOf (queue + i) := by
  rw [batchOf, List.getD_eq_getElem?_getD, List.getElem?_drop, List.getD_eq_getElem?_getD]

theorem sound_drain (h : Accounts plan routing scan (Hand.empty true) log)
    (hlength : scan.filling.length = plan.queues) (hcleared : scan.Cleared plan.queues) :
    Sound plan routing scan.drain log := by
  have hplan := h.plan_eq
  unfold drain
  split
  · next hpos =>
    rw [← hplan] at hcleared hlength
    exact ⟨h.goTo _, hlength, hcleared, hpos⟩
  · next hzero =>
    exact ⟨h.goTo _, by rw [← hplan] at hcleared; exact hcleared,
      Nat.eq_zero_of_not_pos hzero, rfl⟩

theorem sound_flushFrom (h : Accounts plan routing scan (Hand.empty true) log)
    (hlength : scan.filling.length = plan.queues) {queue : Nat} (hcleared : scan.Cleared queue) :
    Sound plan routing (scan.flushFrom queue) log := by
  have hplan := h.plan_eq
  unfold flushFrom
  split
  · next next hnext =>
    -- The batches before `queue` are cleared, and those between it and the next one have no items.
    obtain ⟨hle, hlt, hfilled, hbefore⟩ := firstFilled?_eq_some hnext
    have hshift : queue + (next - queue) = next := by omega
    rw [batchOf_drop, hshift] at hfilled
    rw [List.length_drop] at hlt
    refine ⟨h.goTo _, by rw [hplan]; exact hlength, ?_, fun _ => ⟨hfilled, ?_⟩⟩
    · show next < scan.plan.queues
      rw [hplan]
      omega
    · intro earlier hearlier
      by_cases hq : earlier < queue
      · exact hcleared earlier hq
      · have := hbefore (earlier - queue) (by omega)
        rwa [batchOf_drop, show queue + (earlier - queue) = earlier by omega] at this
  · next hnone =>
    refine sound_drain h hlength ?_
    intro earlier _
    by_cases hq : earlier < queue
    · exact hcleared earlier hq
    · have := firstFilled?_eq_none hnone (earlier - queue)
      rwa [batchOf_drop, show queue + (earlier - queue) = earlier by omega] at this

theorem sound_finish {ending : Bool} (h : Accounts plan routing scan (Hand.empty ending) log)
    (hlength : scan.filling.length = plan.queues) : Sound plan routing scan.finish log :=
  sound_flushFrom h.ended hlength fun _ hearlier => absurd hearlier (Nat.not_lt_zero _)

/-! ## The rounds -/

theorem sound_readMore (h : Accounts plan routing scan (Hand.empty false) log)
    (hlength : scan.filling.length = plan.queues) : Sound plan routing scan.readMore log := by
  unfold readMore
  split
  · exact sound_finish h hlength
  · exact ⟨h.goTo _, by rw [h.plan_eq]; exact hlength, trivial, trivial⟩

theorem sound_proceed (h : Accounts plan routing scan (Hand.empty false) log)
    (hlength : scan.filling.length = plan.queues) : Sound plan routing scan.proceed log := by
  unfold proceed
  split
  · exact sound_readMore h hlength
  · refine ⟨h.goTo _, ?_⟩
    show scan.filling.length = scan.plan.queues
    rw [h.plan_eq]
    exact hlength

theorem sound_handedOver {ending : Bool}
    (h : Accounts plan routing scan (Hand.empty ending) log)
    (hlength : scan.filling.length = plan.queues) {queue : Nat}
    (hcleared : ending = true → scan.Cleared (queue + 1)) :
    Sound plan routing (scan.handedOver queue ending) log := by
  unfold handedOver
  cases ending with
  | true => exact sound_flushFrom h hlength (hcleared rfl)
  | false => exact sound_proceed h hlength

/-! ## Handing over -/

theorem sound_charge {queue : Nat} {batch : Batch α} {ending : Bool}
    (h : Accounts plan routing scan (Hand.withholding queue batch ending) log)
    (hlength : scan.filling.length = plan.queues) (hcredit : scan.outstanding < plan.creditLimit)
    (hqueue : queue < plan.queues) (hcleared : ending = true → scan.Cleared (queue + 1)) :
    Sound plan routing (scan.charge queue batch ending) log := by
  unfold charge
  dsimp only
  split
  · next hempty =>
    have hwaiting : scan.waitingOf queue = [] := List.isEmpty_iff.mp hempty
    refine ⟨(h.offered hcredit hqueue hwaiting).goTo _, ?_, ?_, hwaiting, hcleared⟩
    · rw [← h.plan_eq] at hlength
      exact hlength
    · rw [← h.plan_eq] at hqueue
      exact hqueue
  · exact sound_handedOver (h.linedUp hcredit hqueue) hlength hcleared

theorem sound_handOver {queue : Nat} {batch : Batch α} {ending : Bool}
    (h : Accounts plan routing scan (Hand.withholding queue batch ending) log)
    (hlength : scan.filling.length = plan.queues) (hqueue : queue < plan.queues)
    (hcleared : ending = true → scan.Cleared (queue + 1)) :
    Sound plan routing (scan.handOver queue batch ending) log := by
  have hplan := h.plan_eq
  unfold handOver
  split
  · next hexhausted =>
    have hlimit : scan.plan.creditLimit ≤ scan.outstanding := of_decide_eq_true hexhausted
    refine ⟨h.goTo _, ?_, ⟨?_, hcleared⟩, hlimit⟩
    · rw [← hplan] at hlength
      exact hlength
    · rw [← hplan] at hqueue
      exact hqueue
  · next hcredit =>
    have hlimit : scan.outstanding < scan.plan.creditLimit :=
      Nat.lt_of_not_le fun hle => hcredit (decide_eq_true hle)
    rw [hplan] at hlimit
    exact sound_charge h hlength hlimit hqueue hcleared

theorem sound_settle {purpose : Purpose α} (h : Accounts plan routing scan purpose.hand log)
    (hlength : scan.filling.length = plan.queues) (hstands : purpose.Stands scan)
    (hcredit : scan.outstanding < plan.creditLimit) :
    Sound plan routing (scan.settle purpose) log := by
  have hplan := h.plan_eq
  cases purpose with
  | reading =>
    refine ⟨h.goTo _, ?_⟩
    show scan.filling.length = scan.plan.queues
    rw [hplan]
    exact hlength
  | room queue batch ending =>
    obtain ⟨hqueue, hcleared⟩ := hstands
    rw [hplan] at hqueue
    exact sound_charge h hlength hcredit hqueue hcleared
  | drain =>
    have hcleared : scan.Cleared scan.plan.queues := hstands
    rw [hplan] at hcleared
    exact sound_drain h hlength hcleared

/-- An acknowledgment comes back while a batch is outstanding. -/
theorem sound_acknowledge {purpose : Purpose α} (h : Accounts plan routing scan purpose.hand log)
    (hlength : scan.filling.length = plan.queues) (hstands : purpose.Stands scan)
    (hpos : 0 < scan.outstanding) {queue : Nat} (hqueue : queue < plan.queues) (wait : Bool) :
    Sound plan routing (scan.acknowledge queue purpose)
      (log ++ [⟨.acknowledgment wait, .acknowledged queue⟩]) := by
  have hplan := h.plan_eq
  have hcredited := h.credited hpos hqueue wait
  -- The credit that comes back leaves room for one batch.
  have hcredit : scan.outstanding - 1 < plan.creditLimit :=
    Nat.lt_of_lt_of_le (Nat.sub_lt hpos Nat.one_pos) (Nat.le_trans h.reached h.bounded)
  unfold acknowledge
  rw [if_neg (Nat.pos_iff_ne_zero.mp hpos)]
  dsimp only
  split
  · exact sound_settle hcredited hlength hstands hcredit
  · next batch rest hline =>
    have hoffered : purpose.hand.offered = none := by cases purpose <;> rfl
    refine ⟨(hcredited.popped hoffered hqueue hline).goTo _, ?_, ?_, hstands, ?_⟩
    · rw [← hplan] at hlength
      exact hlength
    · rw [← hplan] at hqueue
      exact hqueue
    · rw [← hplan] at hcredit
      exact hcredit

/-! ## The input -/

theorem sound_passEnded (h : Accounts plan routing scan (Hand.empty false) log)
    (hlength : scan.filling.length = plan.queues) : Sound plan routing scan.passEnded log := by
  unfold passEnded
  split
  · refine ⟨h.goTo _, ?_⟩
    show scan.filling.length = scan.plan.queues
    rw [h.plan_eq]
    exact hlength
  · exact sound_finish h hlength

theorem sound_passStarted (h : Accounts plan routing scan (Hand.empty false) log)
    (hlength : scan.filling.length = plan.queues) : Sound plan routing scan.passStarted log :=
  sound_proceed { h with } hlength

theorem broken_fail (h : Accounts plan routing scan hand log) {fault : ScanFault}
    (hfault : fault.IsLoss) : Broken plan (scan.fail fault) :=
  ⟨h.plan_eq, ⟨fault, rfl, hfault⟩, h.reached, h.bounded⟩

theorem sound_push (h : Accounts plan routing scan (Hand.empty false) log)
    (hlength : scan.filling.length = plan.queues) (item : α) :
    Sound plan routing (scan.push item) (log ++ [⟨.item, .item (some item)⟩]) ∨
      Broken plan (scan.push item) ∧ scan.BreaksOff (.item (some item)) := by
  have hplan := h.plan_eq
  obtain rfl := h.routing_eq
  unfold push
  dsimp only
  split
  · next hqueue =>
    refine Or.inr ⟨⟨hplan, ⟨_, rfl, trivial⟩, h.reached, h.bounded⟩, ?_⟩
    rw [hlength, ← hplan] at hqueue
    exact hqueue
  · next hqueue =>
    rw [hlength, Nat.not_le] at hqueue
    -- The queue exists, so the item goes into its batch; a full batch is replaced first.
    have hfilled := h.filled hlength hqueue rfl (scan.passItems + 1)
    left
    split
    · next hfull =>
      rw [hplan, Batch.size_append] at hfull
      rw [if_pos hfull] at hfilled
      refine ⟨hfilled.goTo _, ?_, ?_, fun hcontra => nomatch hcontra⟩
      · show (scan.filling.set _ _).length = scan.plan.queues
        rw [List.length_set, hlength, hplan]
      · show scan.routing _ _ < scan.plan.queues
        rw [hplan]
        exact hqueue
    · next hfull =>
      rw [hplan, Batch.size_append] at hfull
      rw [if_neg hfull] at hfilled
      exact sound_proceed hfilled ((List.length_set ..).trans hlength)

/-! ## Batches drawn and offered -/

/-- A further queue gets its first batch. -/
theorem sound_opening (h : Accounts plan routing scan (Hand.empty false) log)
    (hlength : scan.filling.length < plan.queues) {batch : Batch α} (hempty : batch.items = []) :
    Sound plan routing
      (if (scan.filling ++ [batch]).length = scan.plan.queues then
        proceed { scan with filling := scan.filling ++ [batch], phase := .opening }
      else { scan with filling := scan.filling ++ [batch], phase := .opening })
      (log ++ [⟨.emptyBatch, .emptyBatch batch⟩]) := by
  have hplan := h.plan_eq
  -- A queue without a batch counts as one with an empty batch, so the accounts do not change.
  have hrefilled := h.refilled (scan.filling ++ [batch]) (by
    intro queue
    show ((scan.filling ++ [batch]).getD queue _).items = (scan.filling.getD queue _).items
    simp only [List.getD_eq_getElem?_getD, List.getElem?_append]
    split
    · rfl
    · next hge =>
      rw [List.getElem?_eq_none (Nat.le_of_not_lt hge)]
      cases hplace : queue - scan.filling.length <;> simp [hempty, Batch.new])
  have hturn := hrefilled.silent ⟨.emptyBatch, .emptyBatch batch⟩ ⟨rfl, fun _ => rfl, fun _ => rfl⟩
  split
  · next hall => exact sound_proceed (hturn.goTo _) (hall.trans (congrArg ScanPlan.queues hplan))
  · next hmore =>
    have hlonger : (scan.filling ++ [batch]).length = scan.filling.length + 1 := by
      rw [List.length_append, List.length_singleton]
    refine ⟨hturn.goTo .opening, ?_⟩
    show (scan.filling ++ [batch]).length < scan.plan.queues
    have hne : (scan.filling ++ [batch]).length ≠ scan.plan.queues := hmore
    rw [hplan] at hne ⊢
    omega

/-- The batch for which an empty one is drawn is cleared. -/
theorem cleared_set {queue : Nat} {batch : Batch α} (hqueue : queue < scan.filling.length)
    (hempty : batch.items = []) (hcleared : scan.Cleared queue) :
    Cleared { scan with filling := scan.filling.set queue batch } (queue + 1) := by
  intro earlier hearlier
  show ((scan.filling.set queue batch).getD earlier _).items = []
  rw [getD_set hqueue]
  by_cases hsame : earlier = queue
  · rw [if_pos hsame, hempty]
  · rw [if_neg hsame]
    exact hcleared earlier (by omega)

/-- A batch is handed over, and an empty one takes its place. -/
theorem sound_drawing {queue : Nat} {ending : Bool}
    (h : Accounts plan routing scan (Phase.drawing queue ending).hand log)
    (hlength : scan.filling.length = plan.queues) (hqueue : queue < plan.queues)
    (hfilled : ending = true → (scan.batchOf queue).items ≠ [] ∧ scan.Cleared queue)
    {batch : Batch α} (hempty : batch.items = []) :
    Sound plan routing
      (handOver { scan with filling := scan.filling.set queue batch } queue (scan.batchOf queue)
        ending) (log ++ [⟨.emptyBatch, .emptyBatch batch⟩]) := by
  have hdrawn := h.drawn hlength hqueue (fun hending => (hfilled hending).1) hempty
  have hturn := hdrawn.silent ⟨.emptyBatch, .emptyBatch batch⟩ ⟨rfl, fun _ => rfl, fun _ => rfl⟩
  refine sound_handOver (hturn.goTo _) ((List.length_set ..).trans hlength) hqueue fun hending => ?_
  exact cleared_set (by omega) hempty (hfilled hending).2

/-- A batch that finds no slot is in front of its line again, or the only one in it. -/
theorem put_back {queue : Nat} {batch : Batch α} {hand : Hand α}
    (h : Accounts plan routing scan hand log) (hoffered : hand.offered = some (queue, batch))
    (hqueue : queue < plan.queues) :
    Accounts plan routing (scan.putBack queue batch) { hand with offered := none }
      (log ++ [⟨.send queue batch, .offered .full⟩]) :=
  (h.putBack hoffered hqueue).silent ⟨.send queue batch, .offered .full⟩
    ⟨rfl, fun _ => rfl, fun _ => rfl⟩

/-! ## The step of the invariant -/

/-- A sound scan that gets a reply is sound or breaks off. -/
theorem sound_resume (h : Sound plan routing scan log) {request : Request α} {reply : Reply α}
    (hrequest : scan.request? = some request) (hadmits : request.admits plan.queues reply = true)
    (hstray : ∀ queue, reply = .acknowledged queue → 0 < scan.outstanding) :
    Sound plan routing (scan.resume reply) (log ++ [⟨request, reply⟩]) ∨
      Broken plan (scan.resume reply) ∧ scan.BreaksOff reply := by
  -- Whatever the phase, the accounts go on by the turn, and then by the function that takes it.
  have hresumed := resumed_of_admits hrequest hadmits
  obtain ⟨haccounts, hstands⟩ := h
  have hplan := haccounts.plan_eq
  generalize scan.resume reply = next at hresumed ⊢
  cases hresumed with
  | opened hphase hempty =>
    simp only [hphase, Phase.hand, Phase.Stands, hplan] at haccounts hstands
    exact Or.inl (sound_opening haccounts hstands hempty)
  | @checked now hphase =>
    simp only [hphase, Phase.hand, Phase.Stands, hplan] at haccounts hstands
    have hturn := haccounts.silent ⟨.stop, .stop now⟩ ⟨rfl, fun _ => rfl, fun _ => rfl⟩
    left
    split
    · exact sound_finish hturn hstands
    · exact sound_readMore hturn hstands
  | acknowledged hphase hqueue =>
    simp only [hphase, Phase.hand, Phase.Stands, hplan] at haccounts hstands
    obtain ⟨hlength, hpurpose, -⟩ := hstands
    exact Or.inl (sound_acknowledge haccounts hlength hpurpose (hstray _ rfl) hqueue _)
  | unacknowledged hphase =>
    simp only [hphase, Phase.hand, Phase.Stands, hplan] at haccounts hstands
    have hturn := haccounts.silent ⟨.acknowledgment false, .unacknowledged⟩
      ⟨rfl, fun _ => rfl, fun _ => rfl⟩
    refine Or.inl ⟨hturn.goTo .fetching, ?_⟩
    show scan.filling.length = scan.plan.queues
    rw [hplan]
    exact hstands.1
  | deserted hphase =>
    rw [hphase] at haccounts
    exact Or.inr ⟨broken_fail haccounts trivial, trivial⟩
  | @resent queue batch purpose hphase =>
    simp only [hphase, Phase.Stands, hplan] at haccounts hstands
    obtain ⟨hlength, hqueue, hpurpose, hcredit⟩ := hstands
    -- Nothing is on offer any more, and the hand is that of the purpose again.
    have hsent : Accounts plan routing scan.countSent purpose.hand
        (log ++ [⟨.send queue batch, .offered .accepted⟩]) := by
      cases purpose <;> exact haccounts.sent rfl hqueue
    exact Or.inl (sound_settle hsent hlength hpurpose hcredit)
  | @putBack queue batch purpose hphase =>
    simp only [hphase, Phase.Stands, hplan] at haccounts hstands
    obtain ⟨hlength, hqueue, hpurpose, hcredit⟩ := hstands
    have hback : Accounts plan routing (scan.putBack queue batch) purpose.hand
        (log ++ [⟨.send queue batch, .offered .full⟩]) := by
      cases purpose <;> exact put_back haccounts rfl hqueue
    exact Or.inl (sound_settle hback hlength hpurpose hcredit)
  | item hphase =>
    simp only [hphase, Phase.hand, Phase.Stands, hplan] at haccounts hstands
    exact sound_push haccounts hstands _
  | ended hphase =>
    simp only [hphase, Phase.hand, Phase.Stands, hplan] at haccounts hstands
    have hturn := haccounts.silent ⟨.item, .item none⟩ ⟨rfl, fun _ => rfl, fun _ => rfl⟩
    exact Or.inl (sound_passEnded hturn hstands)
  | drawn hphase hempty =>
    simp only [hphase, Phase.Stands, hplan] at haccounts hstands
    obtain ⟨hlength, hqueue, hfilled⟩ := hstands
    exact Or.inl (sound_drawing haccounts hlength hqueue hfilled hempty)
  | sent hphase =>
    simp only [hphase, Phase.hand, Phase.Stands, hplan] at haccounts hstands
    obtain ⟨hlength, hqueue, -, hcleared⟩ := hstands
    exact Or.inl (sound_handedOver (haccounts.sent rfl hqueue) hlength hcleared)
  | @linedUp queue batch ending hphase =>
    simp only [hphase, Phase.hand, Phase.Stands, hplan] at haccounts hstands
    obtain ⟨hlength, hqueue, hempty, hcleared⟩ := hstands
    -- The line was empty, so its end is its head.
    have hback := put_back haccounts rfl hqueue
    rw [Scan.putBack, hempty] at hback
    left
    unfold lineUp
    rw [hempty]
    exact sound_handedOver hback hlength hcleared
  | refused hphase => exact Or.inr ⟨broken_fail haccounts trivial, trivial⟩
  | rewound hphase =>
    simp only [hphase, Phase.hand, Phase.Stands, hplan] at haccounts hstands
    have hturn := haccounts.silent ⟨.rewind, .rewound true⟩ ⟨rfl, fun _ => rfl, fun _ => rfl⟩
    exact Or.inl (sound_passStarted hturn hstands)
  | unrewound hphase =>
    simp only [hphase, Phase.hand, Phase.Stands, hplan] at haccounts hstands
    have hturn := haccounts.silent ⟨.rewind, .rewound false⟩ ⟨rfl, fun _ => rfl, fun _ => rfl⟩
    exact Or.inl (sound_finish hturn hstands)
  | @unreadable request fault hphase =>
    have hsilent : Turn.Silent ⟨request, .unreadable fault⟩ := by
      rcases hphase with ⟨-, rfl⟩ | ⟨-, rfl⟩ <;> exact ⟨rfl, fun _ => rfl, fun _ => rfl⟩
    have hreads : Accounts plan routing scan (Hand.empty false) log ∧
        scan.filling.length = plan.queues := by
      rcases hphase with ⟨hphase, -⟩ | ⟨hphase, -⟩ <;>
        simp only [hphase, Phase.hand, Phase.Stands, hplan] at haccounts hstands <;>
        exact ⟨haccounts, hstands⟩
    have hturn := hreads.1.silent _ hsilent
    exact Or.inl (sound_finish ((hturn.faulted fault).goTo _) hreads.2)

/-- A sound scan offers batches to its queues only. -/
theorem Sound.queue_lt (h : Sound plan routing scan log) {queue : Nat} {batch : Batch α}
    (hrequest : scan.request? = some (.send queue batch)) : queue < plan.queues := by
  have hplan := h.accounts.plan_eq
  have hstands := h.stands
  rw [request?] at hrequest
  cases hphase : scan.phase with
  | resending chosen waiting purpose =>
    rw [hphase] at hrequest hstands
    obtain ⟨rfl, -⟩ := Request.send.inj (Option.some.inj hrequest)
    exact hplan ▸ hstands.2.1
  | sending chosen charged ending =>
    rw [hphase] at hrequest hstands
    obtain ⟨rfl, -⟩ := Request.send.inj (Option.some.inj hrequest)
    exact hplan ▸ hstands.2.1
  | awaiting purpose => cases purpose <;> simp [hphase] at hrequest
  | _ => simp [hphase] at hrequest

/-! ## The first state and the last -/

/-- A scan starts soundly, unless its batches could have no items or there are no queues. -/
theorem sound_start (plan : ScanPlan) (routing : Routing α) :
    Sound plan routing (start plan routing) [] ∨ Broken plan (start plan routing) := by
  by_cases hsize : plan.batchSize < 1
  · exact Or.inr ⟨rfl, ⟨.emptyBatches, by simp [start, hsize], trivial⟩, le_refl _, Nat.zero_le _⟩
  by_cases hqueues : plan.queues = 0
  · exact Or.inr ⟨rfl, ⟨.noQueues, by simp [start, hsize, hqueues], trivial⟩, le_refl _,
      Nat.zero_le _⟩
  have hphase : (start plan routing).phase = .opening := by simp [start, hsize, hqueues]
  -- Nothing is in line, in hand or in a batch, so every account is empty.
  have hwaiting : ∀ queue, (start plan routing).waitingOf queue = [] := by
    intro queue
    simp only [start, waitingOf, List.getD_eq_getElem?_getD, List.getElem?_replicate]
    split <;> rfl
  have hline : ∀ queue, (start plan routing).lineOf (Hand.empty false) queue = [] := by
    intro queue
    simp [lineOf, Hand.empty, hwaiting]
  have hcharged : ∀ queue, (start plan routing).chargedOf (Hand.empty false) queue = 0 := by
    intro queue
    simp [chargedOf, Hand.empty, hwaiting]
  have hbatch : ∀ queue, ((start plan routing).batchOf queue).items = [] := fun _ => rfl
  have hpos : 0 < plan.batchSize := Nat.pos_of_ne_zero fun hzero => hsize (by omega)
  refine Or.inl ⟨?_, ?_⟩
  · rw [hphase]
    exact
      { plan_eq := rfl
        routing_eq := rfl
        positive := hpos
        lines := List.length_replicate
        read := rfl
        dispatched := by simp [start]
        conserved := by simp [hline, hbatch, Phase.hand]
        chopped := by simp [hline, Phase.hand, chopped_nil]
        whole := by simp [hline, Phase.hand]
        room := by
          intro queue _ _
          rw [Batch.size, hbatch]
          exact hpos
        replaced := by
          intro queue _ hfull
          cases hfull
        credit := by
          have hzero : (start plan routing).outstanding = 0 := rfl
          simp [hzero, hcharged, Phase.hand]
        reached := le_refl _
        bounded := Nat.zero_le _ }
  · rw [hphase]
    exact Nat.pos_of_ne_zero hqueues

/-- A scan that has ended well has cleared its batches, and nothing is outstanding. -/
theorem Sound.ended_well (h : Sound plan routing scan log) {tally : ScanTally}
    (hresult : scan.result? = some (.ok tally)) :
    tally = scan.summary ∧ scan.outstanding = 0 ∧ scan.Cleared plan.queues ∧
      scan.readFault = none ∧ Accounts plan routing scan (Hand.empty true) log := by
  obtain ⟨haccounts, hstands⟩ := h
  rw [phase_of_result? hresult] at haccounts hstands
  obtain ⟨hcleared, hzero, hverdict⟩ := hstands
  rw [haccounts.plan_eq] at hcleared
  unfold verdict at hverdict
  split at hverdict
  · cases hverdict
  · next hfault => exact ⟨Except.ok.inj hverdict, hzero, hcleared, hfault, haccounts⟩

end Scan

end LoadBench
