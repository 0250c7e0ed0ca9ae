/-
  LoadBench.Proofs.Exchange.Credit

  The credit of a scan.  At every moment each outstanding batch is in one place:
  in the line of its queue, on offer, in the channel, with a worker, or
  acknowledged there.  There are never more of them than the credit allows, the
  peak is the largest number there was, and no acknowledgment comes without a
  batch.
-/

import LoadBench.Proofs.Exchange.Kept
import Mathlib.Order.Bounds.Basic

namespace LoadBench

variable {α : Type}

/-- How many batches a scan has on offer. -/
def Scan.onOffer (scan : Scan α) : Nat :=
  match scan.request? with
  | some (.send _ _) => 1
  | _ => 0

namespace Exchange

variable {plan : ScanPlan} {routing : Routing α} {exchange next : Exchange α}

/-! ## Where the outstanding batches are -/

/-- The batch in hand for one of the queues is one batch. -/
theorem sum_inHand {queues queue : Nat} (hqueue : queue < queues) (batch : Batch α) :
    ∑ other ∈ Finset.range queues, (inHand other (some (queue, batch))).length = 1 := by
  rw [Finset.sum_eq_single_of_mem queue (Finset.mem_range.mpr hqueue)]
  · rw [inHand_self, List.length_singleton]
  · intro other _ hne
    rw [inHand_of_ne hne, List.length_nil]

/-- What a sound scan has in hand on offer is what it asks a slot for. -/
theorem sum_offered {scan : Scan α} {log : List (Turn α)} (h : Scan.Sound plan routing scan log) :
    ∑ queue ∈ Finset.range plan.queues, (inHand queue scan.phase.hand.offered).length =
      scan.onOffer := by
  have hplan := h.accounts.plan_eq
  have hstands := h.stands
  -- Only the two phases that send have a batch on offer, and its queue exists.
  cases hphase : scan.phase with
  | awaiting purpose => cases purpose <;> simp [Scan.onOffer, Scan.request?, hphase, Phase.hand,
      Purpose.hand, Hand.empty, Hand.withholding]
  | resending queue batch purpose =>
    rw [hphase] at hstands
    have hqueue : queue < plan.queues := hplan ▸ hstands.2.1
    have hoffer : scan.onOffer = 1 := by simp only [Scan.onOffer, Scan.request?, hphase]
    rw [hoffer]
    exact sum_inHand hqueue batch
  | sending queue batch ending =>
    rw [hphase] at hstands
    have hqueue : queue < plan.queues := hplan ▸ hstands.2.1
    have hoffer : scan.onOffer = 1 := by simp only [Scan.onOffer, Scan.request?, hphase]
    rw [hoffer]
    exact sum_inHand hqueue batch
  | _ => simp [Scan.onOffer, Scan.request?, hphase, Phase.hand, Hand.empty]

/-- Each outstanding batch is in one place. -/
theorem Kept.outstanding_eq (h : exchange.Kept plan routing)
    (hgoing : exchange.scan.result? = none) :
    exchange.scan.outstanding = ∑ queue ∈ Finset.range plan.queues,
      ((exchange.scan.waitingOf queue).length + exchange.queuedOn queue + exchange.held queue +
        exchange.acksOn queue) + exchange.scan.onOffer := by
  obtain ⟨hsound, -⟩ := h.unfailed (by
    intro fault hphase
    rw [Scan.result?, hphase] at hgoing
    cases hgoing)
  rw [Exchange.outstanding_eq hsound.accounts h.linked, ← sum_offered hsound,
    ← Finset.sum_add_distrib]
  refine Finset.sum_congr rfl fun queue _ => ?_
  rw [Scan.chargedOf, underWay]
  omega

/-! ## Bounds -/

theorem Kept.reached (h : exchange.Kept plan routing) :
    exchange.scan.outstanding ≤ exchange.scan.peak :=
  h.scan.elim (fun hsound => hsound.accounts.reached) fun hbroken => hbroken.reached

theorem Kept.bounded (h : exchange.Kept plan routing) : exchange.scan.peak ≤ plan.creditLimit :=
  h.scan.elim (fun hsound => hsound.accounts.bounded) fun hbroken => hbroken.bounded

/-- No acknowledgment comes that no batch waited for. -/
theorem Kept.not_stray (h : exchange.Kept plan routing) :
    exchange.scan.result? ≠ some (.error .stray) := by
  intro hstray
  have hreturned := Scan.phase_of_result? hstray
  -- A sound scan returns its verdict, which is a fault of the input or none; a broken one has lost
  -- something.
  rcases h.scan with hsound | hbroken
  · have hstands := hsound.stands
    rw [hreturned] at hstands
    have hverdict : Except.error ScanFault.stray = exchange.scan.verdict := hstands.2.2
    unfold Scan.verdict at hverdict
    split at hverdict <;> cases hverdict
  · obtain ⟨fault, hphase, hloss⟩ := hbroken.fault
    rw [hreturned] at hphase
    cases hphase
    exact hloss

/-! ## A scan that waits -/

/-- A scan waits only while batches are outstanding. -/
theorem Kept.outstanding_of_wait (h : exchange.Kept plan routing)
    (hcredit : 0 < plan.creditLimit)
    (hrequest : exchange.scan.request? = some (.acknowledgment true)) :
    0 < exchange.scan.outstanding := by
  have hsound := h.sound hrequest
  have hplan := hsound.accounts.plan_eq
  have hstands := hsound.stands
  rw [Scan.request?] at hrequest
  cases hphase : exchange.scan.phase with
  | awaiting purpose =>
    rw [hphase] at hstands hrequest
    obtain ⟨-, -, hwaits⟩ := hstands
    -- Each purpose has its reason to wait, and each of them needs a batch that is outstanding.
    cases purpose with
    | reading =>
      have hexhausted : exchange.scan.isExhausted = true := by simpa using hrequest
      have hlimit : exchange.scan.plan.creditLimit ≤ exchange.scan.outstanding :=
        of_decide_eq_true hexhausted
      rw [hplan] at hlimit
      exact Nat.lt_of_lt_of_le hcredit hlimit
    | room queue batch ending =>
      have hlimit : exchange.scan.plan.creditLimit ≤ exchange.scan.outstanding := hwaits
      rw [hplan] at hlimit
      exact Nat.lt_of_lt_of_le hcredit hlimit
    | drain => exact hwaits
  | _ => simp [hphase] at hrequest

/-- Of the batches that a scan waits for, one at least is under way: they cannot all be in line. -/
theorem Kept.underWay_of_wait (h : exchange.Kept plan routing) (hqueues : 0 < plan.queues)
    (hslots : 0 < plan.slots)
    (hrequest : exchange.scan.request? = some (.acknowledgment true)) :
    ∃ queue < plan.queues, 0 < exchange.underWay queue := by
  have hcredit : 0 < plan.creditLimit :=
    Nat.mul_pos (Nat.mul_pos hqueues hslots) (Nat.succ_pos 2)
  have hpos := h.outstanding_of_wait hcredit hrequest
  have hgoing := Scan.result?_of_request? hrequest
  have hoffer : exchange.scan.onOffer = 0 := by rw [Scan.onOffer, hrequest]
  rw [h.outstanding_eq hgoing, hoffer, Nat.add_zero] at hpos
  obtain ⟨queue, hmem, hqueue⟩ := Finset.exists_ne_zero_of_sum_ne_zero (Nat.pos_iff_ne_zero.mp hpos)
  have hlt := Finset.mem_range.mp hmem
  refine ⟨queue, hlt, ?_⟩
  -- Without a line the outstanding batches of the queue are under way; with one its slots' worth
  -- is.
  by_cases hline : exchange.scan.waitingOf queue = []
  · rw [hline, List.length_nil] at hqueue
    rw [underWay]
    omega
  · have hcrowded := h.crowded hgoing queue hlt hline
    have hresends : exchange.scan.resends queue = 0 := by
      refine Scan.resends_eq_zero fun batch hcontra => ?_
      rw [hrequest] at hcontra
      cases hcontra
    omega

/-! ## The peak -/

/-- A step raises the peak to what is outstanding behind it. -/
theorem peak_step (h : exchange.Kept plan routing) (hstep : Step exchange next) :
    next.scan.peak = max exchange.scan.peak next.scan.outstanding := by
  cases hstep with
  | receive => exact (max_eq_left h.reached).symm
  | acknowledge => exact (max_eq_left h.reached).symm
  | endpoints => exact (max_eq_left h.reached).symm
  | _ => exact Scan.peak_resume h.reached _

/-- The largest number of batches that were outstanding at one time is the peak. -/
theorem isGreatest_peak {first : Exchange α} (hfirst : first.Kept plan routing)
    (hpeak : first.scan.peak = first.scan.outstanding) {acts : List (Act α)}
    (hacts : follow? step? acts first = some exchange) :
    IsGreatest {outstanding | ∃ before mid, before <+: acts ∧
      follow? step? before first = some mid ∧ mid.scan.outstanding = outstanding}
      exchange.scan.peak := by
  -- By induction on the acts, from the last one: a step raises the peak to what is outstanding
  -- behind it, or leaves it, so the largest number so far is reached at the step or before it.
  induction acts using List.reverseRecOn generalizing exchange with
  | nil =>
    obtain rfl : first = exchange := Option.some.inj hacts
    refine ⟨⟨[], first, List.prefix_rfl, rfl, hpeak.symm⟩, ?_⟩
    rintro outstanding ⟨before, mid, hbefore, hmid, rfl⟩
    obtain rfl := List.prefix_nil.mp hbefore
    obtain rfl : first = mid := Option.some.inj hmid
    exact hpeak.ge
  | append_singleton acts act ih =>
    have hall := hacts
    rw [follow?_concat, Option.bind_eq_some_iff] at hacts
    obtain ⟨last, hlast, hact⟩ := hacts
    have hkept := kept_follow hfirst hlast
    have hraise := peak_step hkept (step?_sound hkept.linked.isRead hact)
    obtain ⟨⟨before, mid, hbefore, hmid, hreached⟩, hupper⟩ := ih hlast
    rw [hraise]
    refine ⟨?_, ?_⟩
    · rcases max_choice last.scan.peak exchange.scan.outstanding with hmax | hmax
      · rw [hmax]
        exact ⟨before, mid, hbefore.trans (List.prefix_append _ _), hmid, hreached⟩
      · rw [hmax]
        exact ⟨acts ++ [act], exchange, List.prefix_rfl, hall, rfl⟩
    · rintro outstanding ⟨before, mid, hbefore, hmid, rfl⟩
      rcases List.prefix_concat_iff.mp hbefore with rfl | hearlier
      · rw [hall] at hmid
        obtain rfl := Option.some.inj hmid
        exact le_max_right _ _
      · exact le_trans (hupper ⟨before, mid, hearlier, hmid, rfl⟩) (le_max_left _ _)

/-! ## The credit -/

/-- What holds of the credit of a scan at any moment, and when it has ended well. -/
structure Credited (plan : ScanPlan) (exchange : Exchange α) : Prop where
  /-- Each outstanding batch is in line, in the channel, with a worker, acknowledged, or on its way
  from one to the next. -/
  placed : exchange.scan.result? = none →
    exchange.scan.outstanding = ∑ queue ∈ Finset.range plan.queues,
      ((exchange.scan.waitingOf queue).length + exchange.queuedOn queue + exchange.held queue +
        exchange.acksOn queue) + exchange.scan.onOffer
  bounded : exchange.scan.outstanding ≤ plan.queues * plan.slots * 3
  expected : exchange.scan.result? ≠ some (.error .stray)
  settled : ∀ tally, exchange.scan.result? = some (.ok tally) →
    tally.outstanding = 0 ∧ tally.peak = exchange.scan.peak ∧
      ∀ queue < plan.queues, exchange.scan.waitingOf queue = [] ∧ exchange.queuedOn queue = 0 ∧
        exchange.held queue = 0 ∧ exchange.acksOn queue = 0

theorem Kept.credited (h : exchange.Kept plan routing) : exchange.Credited plan where
  placed := h.outstanding_eq
  bounded := le_trans h.reached h.bounded
  expected := h.not_stray
  settled := by
    intro tally hresult
    obtain ⟨htally, hzero, -, haccounts, -⟩ := h.ended_well hresult
    refine ⟨?_, ?_, ?_⟩
    · rw [htally]
      exact hzero
    · rw [htally]
      rfl
    · intro queue hqueue
      obtain ⟨hline, hway⟩ := nothing_left haccounts h.linked hzero hqueue
      rw [underWay] at hway
      exact ⟨hline, by omega⟩

/-- Whatever the workers do, as long as they acknowledge each batch once, the credit of a scan is
right at every moment, and its peak is the largest number of batches there was. -/
theorem credited_of_follow {channels : List (Channel (Batch α))} {acts : List (Act α)}
    (hwidth : channels.length = plan.queues)
    (hfresh : ∀ channel ∈ channels, channel.Fresh plan.slots)
    (hacts : follow? step? acts (start plan routing channels) = some exchange) :
    exchange.Credited plan ∧
      IsGreatest {outstanding | ∃ before mid, before <+: acts ∧
        follow? step? before (start plan routing channels) = some mid ∧
          mid.scan.outstanding = outstanding} exchange.scan.peak := by
  have hstart := kept_start routing hwidth hfresh
  exact ⟨(kept_follow hstart hacts).credited, isGreatest_peak hstart rfl hacts⟩

theorem credited_twoBatches_line : ∃ exchange,
    follow? step? (twoBatches.take 9) (start ⟨1, 1, 1, 0, .once⟩ Routing.first [Channel.create 1]) =
        some exchange ∧
      exchange.scan.outstanding = 2 ∧ exchange.scan.waitingOf 0 = [⟨2, [8]⟩] ∧
      exchange.queuedOn 0 = 1 ∧ exchange.Credited ⟨1, 1, 1, 0, .once⟩ := by
  refine ⟨_, rfl, rfl, rfl, rfl, ?_⟩
  exact (credited_of_follow rfl (List.forall_mem_singleton.mpr (Channel.fresh_create Nat.one_pos))
    (show follow? step? (twoBatches.take 9) (start _ Routing.first _) = _ from rfl)).1

end Exchange

end LoadBench
