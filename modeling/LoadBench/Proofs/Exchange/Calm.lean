/-
  LoadBench.Proofs.Exchange.Calm

  Exchanges in which nothing goes wrong.  The scan of a calm exchange has not
  broken off, and its reading has not been disturbed; so it returns no fault, and
  what it has read is the input up to its limit.

  What the workers have received is a part of what was read (`received_le`), and
  all of it once the scan has returned (`received_eq`).  Which queue an item went
  to does not matter any more, so this is said of multisets of items.
-/

import LoadBench.Proofs.Exchange.Delivery
import Mathlib.Algebra.Order.Group.Multiset

namespace LoadBench

variable {α : Type}

/-! ## Shares of all queues -/

/-- Each item belongs to one of the queues. -/
theorem Routing.sum_share {routing : Routing α} {queues : Nat}
    (hrouting : ∀ position item, routing position item < queues) (items : List α) :
    ∑ queue ∈ Finset.range queues, (routing.share queue items : Multiset α) = items := by
  -- By induction from the last item, whose position is the number of all items.
  induction items using List.reverseRecOn with
  | nil => simp
  | append_singleton items item ih =>
    have hone : ∑ queue ∈ Finset.range queues,
        ((if routing (items.length + 1) item = queue then [item] else [] : List α) : Multiset α) =
          {item} := by
      rw [Finset.sum_eq_single_of_mem _ (Finset.mem_range.mpr (hrouting (items.length + 1) item))]
      · rw [if_pos rfl]
        rfl
      · intro queue _ hne
        rw [if_neg (Ne.symm hne)]
        rfl
    simp only [share_append, ← Multiset.coe_add]
    rw [Finset.sum_add_distrib, ih, hone]
    rfl

namespace Exchange

variable {plan : ScanPlan} {routing : Routing α} {exchange next : Exchange α} {tally : ScanTally}

/-! ## Calm exchanges -/

/-- An exchange whose scan has not broken off and whose reading has not been disturbed. -/
structure Calm (plan : ScanPlan) (routing : Routing α) (exchange : Exchange α) : Prop where
  kept : exchange.Kept plan routing
  sound : Scan.Sound plan routing exchange.scan exchange.log
  undisturbed : Undisturbed exchange.log

theorem Calm.reading (h : exchange.Calm plan routing) :
    Scan.Reading exchange.scan exchange.log :=
  h.kept.reading.resolve_right h.sound.not_hasFailed

/-- An exchange stays calm when its scan gets an answer that changes nothing about that. -/
theorem calm_step (h : exchange.Calm plan routing) (hstep : Step exchange next)
    (hcalm : ∀ turn, next.log = exchange.log ++ [turn] →
      ¬exchange.scan.BreaksOff turn.reply ∧ turn.reply.disturbs = false) :
    next.Calm plan routing := by
  have hkept := kept_step h.kept hstep
  rcases turned_of_step h.kept hstep with ⟨turn, hturned⟩ | ⟨hscan, hlog⟩
  · obtain ⟨hwhole, hquiet⟩ := hcalm turn hturned.log_eq
    have hsound := Scan.sound_resume h.sound hturned.request hturned.admits hturned.expected
    refine ⟨hkept, ?_, ?_⟩
    · rw [hturned.scan_eq, hturned.log_eq]
      exact hsound.resolve_right fun hbroken => hwhole hbroken.2
    · rw [hturned.log_eq]
      exact undisturbed_append.mpr ⟨h.undisturbed, hquiet⟩
  · refine ⟨hkept, ?_, ?_⟩
    · rw [hscan, hlog]
      exact h.sound
    · rw [hlog]
      exact h.undisturbed

/-- An exchange starts calmly, if there can be batches and there are queues. -/
theorem calm_start (routing : Routing α) {channels : List (Channel (Batch α))}
    (hwidth : channels.length = plan.queues)
    (hfresh : ∀ channel ∈ channels, channel.Fresh plan.slots)
    (hsize : 0 < plan.batchSize) (hqueues : 0 < plan.queues) :
    (start plan routing channels).Calm plan routing where
  kept := kept_start routing hwidth hfresh
  sound := by
    refine (Scan.sound_start plan routing).resolve_right fun hbroken => ?_
    obtain ⟨fault, hphase, -⟩ := hbroken.fault
    simp [Scan.start, Nat.not_lt.mpr hsize, Nat.pos_iff_ne_zero.mp hqueues] at hphase
  undisturbed := List.forall_mem_nil _

/-- The scan of a calm exchange returns no fault. -/
theorem Calm.exists_tally (h : exchange.Calm plan routing) {result : Except ScanFault ScanTally}
    (hresult : exchange.scan.result? = some result) :
    ∃ tally, exchange.scan.result? = some (.ok tally) := by
  have hfault := h.reading.read.faultless h.undisturbed
  have hstands := h.sound.stands
  -- The verdict is a fault only if the input had one.
  rw [Scan.phase_of_result? hresult] at hstands
  obtain ⟨-, -, hverdict⟩ := hstands
  rw [Scan.verdict, hfault] at hverdict
  exact ⟨exchange.scan.summary, by rw [hresult, hverdict]⟩

/-- When the scan of a calm exchange has returned, the items that it was given are those of its
input, up to the limit. -/
theorem Calm.items_eq (h : exchange.Calm plan routing)
    (hresult : exchange.scan.result? = some (.ok tally)) {items : List α}
    (hitems : answersOf exchange.log <+: items.map some ++ [none]) :
    itemsOf exchange.log = if plan.limit = 0 then items else items.take plan.limit := by
  obtain ⟨-, -, -, haccounts, hread, -⟩ := h.kept.ended_well hresult
  have hplan := haccounts.plan_eq
  rw [← hplan]
  exact hread.items_eq h.undisturbed haccounts.read hitems

/-! ## Items that were received -/

/-- The items that the workers have received. -/
def receivedItems (queues : Nat) (exchange : Exchange α) : Multiset α :=
  ∑ queue ∈ Finset.range queues, ((exchange.received queue).flatMap Batch.items : Multiset α)

/-- The workers receive nothing that was not read. -/
theorem Calm.received_le (h : exchange.Calm plan routing)
    (hrouting : ∀ position item, routing position item < plan.queues) :
    exchange.receivedItems plan.queues ≤ itemsOf exchange.log := by
  rw [← routing.sum_share hrouting (itemsOf exchange.log)]
  refine Finset.sum_le_sum fun queue hmem => ?_
  have hqueue := Finset.mem_range.mp hmem
  have hlt : queue < exchange.channels.length := by
    rw [h.kept.linked.width]
    exact hqueue
  have hlink := h.kept.linked.link queue _ (List.getElem?_eq_getElem hlt)
  rw [← h.sound.accounts.conserved queue hqueue, hlink.delivered]
  -- Behind what was received stand what waits in the channel, in line and in the batch being
  -- filled.
  simp only [List.flatMap_append, List.append_assoc]
  exact Multiset.coe_le.mpr (List.prefix_append _ _).sublist.subperm

/-- Once the scan has returned, the workers have received all that was read. -/
theorem Calm.received_eq (h : exchange.Calm plan routing)
    (hrouting : ∀ position item, routing position item < plan.queues)
    (hresult : exchange.scan.result? = some (.ok tally)) :
    exchange.receivedItems plan.queues = itemsOf exchange.log := by
  have hdelivered := h.kept.delivered hresult
  rw [← routing.sum_share hrouting (itemsOf exchange.log)]
  refine Finset.sum_congr rfl fun queue hmem => ?_
  have hqueue := Finset.mem_range.mp hmem
  rw [hdelivered.received queue hqueue, hdelivered.ordered queue hqueue]

/-- What the workers of one queue receive, all of them have received. -/
theorem receivedItems_eq {queue queues : Nat} (hqueue : queue < queues)
    {batches : List (Batch α)}
    (hreceived : ∀ other, next.received other =
      exchange.received other ++ if queue = other then batches else []) :
    next.receivedItems queues =
      exchange.receivedItems queues + (batches.flatMap Batch.items : Multiset α) := by
  have hmore : ∑ other ∈ Finset.range queues,
      (((if queue = other then batches else []) : List (Batch α)).flatMap Batch.items :
        Multiset α) = (batches.flatMap Batch.items : Multiset α) := by
    rw [Finset.sum_eq_single_of_mem queue (Finset.mem_range.mpr hqueue)]
    · rw [if_pos rfl]
    · intro other _ hne
      rw [if_neg (Ne.symm hne)]
      rfl
  simp only [receivedItems, hreceived, List.flatMap_append, ← Multiset.coe_add]
  rw [Finset.sum_add_distrib, hmore]

end Exchange

end LoadBench
