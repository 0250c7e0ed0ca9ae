/-
  LoadBench.Proofs.Exchange.Delivery

  What a scan has delivered when it ends well: every queue got its share of the
  items, in the order in which they were read, cut into full batches and at most
  one batch more; and its workers received all of it.
-/

import LoadBench.Proofs.Exchange.Kept

namespace LoadBench

variable {α : Type}

namespace Exchange

variable {plan : ScanPlan} {routing : Routing α} {exchange : Exchange α} {tally : ScanTally}

/-! ## Delivery -/

/-- What a scan has delivered, according to what it returned. -/
structure Delivered (plan : ScanPlan) (routing : Routing α) (exchange : Exchange α)
    (tally : ScanTally) : Prop where
  /-- Every queue got the items that belong to it, in the order in which they were read. -/
  ordered : ∀ queue < plan.queues,
    (sentOn queue exchange.log).flatMap Batch.items = routing.share queue (itemsOf exchange.log)
  /-- All batches of a queue are full but the last one, which has an item. -/
  cut : ∀ queue < plan.queues, Chopped plan.batchSize (sentOn queue exchange.log)
  /-- The workers received what was sent, in the same order. -/
  received : ∀ queue < plan.queues, exchange.received queue = sentOn queue exchange.log
  itemsRead : tally.itemsRead = (itemsOf exchange.log).length
  dispatched : tally.dispatched =
    ∑ queue ∈ Finset.range plan.queues, (sentOn queue exchange.log).length
  /-- There are no more batches than the items of each queue need. -/
  fewest : tally.dispatched = ∑ queue ∈ Finset.range plan.queues,
    ceilDiv (routing.share queue (itemsOf exchange.log)).length plan.batchSize
  within : 0 < plan.limit → tally.itemsRead ≤ plan.limit
  /-- An input that is read once is read up to the limit. -/
  complete : plan.mode = .once → ∀ items : List α,
    answersOf exchange.log <+: items.map some ++ [none] →
      itemsOf exchange.log = if plan.limit = 0 then items else items.take plan.limit

theorem Kept.delivered (hkept : exchange.Kept plan routing)
    (hresult : exchange.scan.result? = some (.ok tally)) :
    Delivered plan routing exchange tally := by
  obtain ⟨htally, hzero, hcleared, haccounts, hread, hfault⟩ := hkept.ended_well hresult
  -- Nothing is outstanding, so nothing is in line or in a channel, and all accounts are of what was
  -- sent.
  have hempty : ∀ queue < plan.queues,
      exchange.scan.waitingOf queue = [] ∧ exchange.underWay queue = 0 :=
    fun queue hqueue => nothing_left haccounts hkept.linked hzero hqueue
  have hline : ∀ queue < plan.queues, exchange.scan.lineOf (Hand.empty true) queue = [] := by
    intro queue hqueue
    rw [Scan.lineOf, (hempty queue hqueue).1]
    rfl
  have hordered : ∀ queue < plan.queues, (sentOn queue exchange.log).flatMap Batch.items =
      routing.share queue (itemsOf exchange.log) := by
    intro queue hqueue
    have hconserved := haccounts.conserved queue hqueue
    rwa [hline queue hqueue, hcleared queue hqueue, List.append_nil, List.append_nil] at hconserved
  have hcut : ∀ queue < plan.queues, Chopped plan.batchSize (sentOn queue exchange.log) := by
    intro queue hqueue
    have hchopped := haccounts.chopped queue hqueue
    rwa [hline queue hqueue, List.append_nil] at hchopped
  have hdispatched : tally.dispatched =
      ∑ queue ∈ Finset.range plan.queues, (sentOn queue exchange.log).length := by
    rw [htally]
    exact haccounts.dispatched
  refine
    { ordered := hordered
      cut := hcut
      received := ?_
      itemsRead := by rw [htally]; exact haccounts.read
      dispatched := hdispatched
      fewest := ?_
      within := ?_
      complete := ?_ }
  · intro queue hqueue
    have hlt : queue < exchange.channels.length := by rw [hkept.linked.width]; exact hqueue
    have hchannel := List.getElem?_eq_getElem hlt
    have hway := (hempty queue hqueue).2
    rw [underWay_of_channel hchannel] at hway
    have hnil : (exchange.channels[queue]).queue = [] := List.length_eq_zero_iff.mp (by omega)
    rw [(hkept.linked.link queue _ hchannel).delivered, hnil, List.append_nil]
  · rw [hdispatched]
    refine Finset.sum_congr rfl fun queue hmem => ?_
    have hqueue := Finset.mem_range.mp hmem
    rw [← hordered queue hqueue]
    exact (hcut queue hqueue).length_eq haccounts.positive
  · intro hpos
    have hlimit := hread.within
    rw [haccounts.plan_eq] at hlimit
    rw [htally]
    exact hlimit hpos
  · intro honce items hitems
    have hplan := haccounts.plan_eq
    have hitemsRead : exchange.scan.itemsRead = (itemsOf exchange.log).length := haccounts.read
    rw [← hplan] at honce ⊢
    exact hread.items_eq (hread.calm honce hfault) hitemsRead hitems

/-- Whatever the workers do, a scan that ends well has delivered what it has read. -/
theorem delivered_of_ok {channels : List (Channel (Batch α))} {acts : List (Act α)}
    (hwidth : channels.length = plan.queues)
    (hfresh : ∀ channel ∈ channels, channel.Fresh plan.slots)
    (hacts : follow? step? acts (start plan routing channels) = some exchange)
    (hresult : exchange.scan.result? = some (.ok tally)) :
    Delivered plan routing exchange tally :=
  (kept_follow (kept_start routing hwidth hfresh) hacts).delivered hresult

theorem delivered_twoBatches : ∃ exchange tally,
    follow? step? twoBatches (start ⟨1, 1, 1, 0, .once⟩ Routing.first [Channel.create 1]) =
        some exchange ∧
      exchange.scan.result? = some (.ok tally) ∧
      Delivered ⟨1, 1, 1, 0, .once⟩ Routing.first exchange tally ∧
      exchange.received 0 = [⟨1, [7]⟩, ⟨2, [8]⟩] := by
  exact ⟨_, _, rfl, rfl, delivered_of_ok rfl
    (List.forall_mem_singleton.mpr (Channel.fresh_create Nat.one_pos))
    (show follow? step? twoBatches _ = _ from rfl) rfl, rfl⟩

end Exchange

end LoadBench
