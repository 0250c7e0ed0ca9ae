/-
  LoadBench.Proofs.Exchange.Closing

  Exchanges whose scan has ended the reading.  They come to an end: each answer
  leaves the scan less before it (`weight_follow`), which bounds what is done in
  all (`deeds_le`), and as long as every queue has a worker there is always
  something that can be done (`exists_deed`).  With a worker for each queue such a
  scan does not break off, so it is sound when it returns (`sound_of_isHeld`).
-/

import LoadBench.Proofs.Exchange.Credit
import LoadBench.Proofs.Scan.Halt
import Mathlib.Algebra.BigOperators.Group.Finset.Piecewise
import Mathlib.Algebra.BigOperators.Ring.Finset

namespace LoadBench

variable {α : Type}

/-- A scan that has not returned needs something. -/
theorem Scan.exists_request {scan : Scan α} (h : scan.result? = none) :
    ∃ request, scan.request? = some request := by
  unfold result? at h
  unfold request?
  cases hphase : scan.phase with
  | returned result => simp [hphase] at h
  | awaiting purpose => cases purpose <;> exact ⟨_, rfl⟩
  | _ => exact ⟨_, rfl⟩

namespace Exchange

variable {plan : ScanPlan} {routing : Routing α} {exchange next : Exchange α}

/-- A step does not take the reading up again. -/
theorem hasEnded_step (hkept : exchange.Kept plan routing) (h : exchange.scan.HasEnded)
    (hstep : Step exchange next) : next.scan.HasEnded := by
  rcases turned_of_step hkept hstep with ⟨turn, hturned⟩ | ⟨hscan, -⟩
  · rw [hturned.scan_eq]
    exact Scan.hasEnded_resume hturned.request hturned.admits h
  · rw [hscan]
    exact h

/-! ## What is done -/

/-- How much has been done in an exchange: the answers that its scan got, and the batches that its
workers received and acknowledged. -/
def deeds (queues : Nat) (exchange : Exchange α) : Nat :=
  exchange.log.length + ∑ queue ∈ Finset.range queues,
    ((exchange.received queue).length + exchange.acknowledged queue)

/-- A turn sends one batch at most. -/
theorem sum_sentOn_le (queues : Nat) (log : List (Turn α)) :
    ∑ queue ∈ Finset.range queues, (sentOn queue log).length ≤ log.length := by
  induction log using List.reverseRecOn with
  | nil => simp
  | append_singleton log turn ih =>
    have hone : ∑ queue ∈ Finset.range queues, (turn.sentOn? queue).toList.length ≤ 1 := by
      by_cases hsent : ∃ chosen batch, turn = ⟨.send chosen batch, .offered .accepted⟩
      · obtain ⟨chosen, batch, rfl⟩ := hsent
        calc ∑ queue ∈ Finset.range queues, _
            = ∑ queue ∈ Finset.range queues, if chosen = queue then 1 else 0 :=
              Finset.sum_congr rfl fun queue _ => by
                by_cases hsame : chosen = queue <;> simp [Turn.sentOn?, hsame]
          _ ≤ 1 := by
              rw [Finset.sum_ite_eq]
              split <;> omega
      · have hnone : ∀ queue, turn.sentOn? queue = none := by
          intro queue
          unfold Turn.sentOn?
          split
          · exact absurd ⟨_, _, rfl⟩ hsent
          · rfl
        simp [hnone]
    simp only [sentOn_append, List.length_append, Finset.sum_add_distrib, List.length_singleton]
    omega

/-- What has been done is bounded by the answers that the scan got. -/
theorem deeds_le (h : exchange.Linked plan) :
    exchange.deeds plan.queues ≤ 3 * exchange.log.length := by
  have hqueue : ∀ queue ∈ Finset.range plan.queues,
      (exchange.received queue).length + exchange.acknowledged queue ≤
        2 * (sentOn queue exchange.log).length := by
    intro queue hmem
    have hlt : queue < exchange.channels.length := h.width.symm ▸ Finset.mem_range.mp hmem
    have hlink := h.link queue _ (List.getElem?_eq_getElem hlt)
    have hsent := congrArg List.length hlink.delivered
    rw [List.length_append] at hsent
    have howed := hlink.owed
    omega
  have hsum := Finset.sum_le_sum hqueue
  rw [← Finset.mul_sum] at hsum
  have hall := sum_sentOn_le plan.queues exchange.log
  unfold deeds
  omega

/-- Behind the end of its input each answer leaves a scan less before it. -/
theorem weight_step (hkept : exchange.Kept plan routing) (h : exchange.scan.HasEnded)
    (hstep : Step exchange next) :
    next.log.length + next.scan.weight ≤ exchange.log.length + exchange.scan.weight := by
  rcases turned_of_step hkept hstep with ⟨turn, hturned⟩ | ⟨hscan, hlog⟩
  · obtain ⟨-, hanew, hitem⟩ := h.reply_ne hturned.request hturned.admits
    have hopening : exchange.scan.phase ≠ .opening := by
      intro hphase
      rw [Scan.HasEnded, hphase] at h
      cases h
    have hless := Scan.weight_resume (fun hphase => absurd hphase hopening) hturned.request
      hturned.admits (hanew true)
    have hnone : turn.reply.items = 0 := by
      unfold Reply.items
      split
      · next heq => exact absurd heq (hitem _)
      · rfl
    rw [hnone] at hless
    rw [hturned.log_eq, hturned.scan_eq, List.length_append, List.length_singleton]
    omega
  · rw [hscan, hlog]

theorem weight_follow {last : Exchange α} {acts : List (Act α)}
    (hkept : exchange.Kept plan routing) (h : exchange.scan.HasEnded)
    (hacts : follow? step? acts exchange = some last) :
    last.log.length + last.scan.weight ≤ exchange.log.length + exchange.scan.weight := by
  have hall : last.Kept plan routing ∧ last.scan.HasEnded ∧
      last.log.length + last.scan.weight ≤ exchange.log.length + exchange.scan.weight := by
    refine follow?_preserves (P := fun state => state.Kept plan routing ∧ state.scan.HasEnded ∧
      state.log.length + state.scan.weight ≤ exchange.log.length + exchange.scan.weight)
      ?_ ⟨hkept, h, Nat.le_refl _⟩ hacts
    rintro act state next ⟨hstate, hended, hweight⟩ hact
    have hstep := step?_sound hstate.linked.isRead hact
    exact ⟨kept_step hstate hstep, hasEnded_step hstate hended hstep,
      Nat.le_trans (weight_step hstate hended hstep) hweight⟩
  exact hall.2.2

/-! ## Queues that keep their workers -/

/-- Whether each queue has a worker. -/
def IsHeld (exchange : Exchange α) : Prop := ∀ channel ∈ exchange.channels, channel.isHeld = true

/-- A queue that keeps its worker when its channel changes, alone or not at all. -/
theorem isHeld_of_set {queue : Nat} {channel changed : Channel (Batch α)}
    (hchannel : exchange.channels[queue]? = some channel)
    (hheld : changed.isHeld = true → channel.isHeld = true)
    (h : (exchange.withChannel queue changed).IsHeld) : exchange.IsHeld := by
  intro other hother
  obtain ⟨place, hplace⟩ := List.getElem?_of_mem hother
  by_cases hsame : queue = place
  · subst hsame
    obtain rfl : channel = other := Option.some.inj (hchannel.symm.trans hplace)
    refine hheld (h changed (List.mem_of_getElem? (i := queue) ?_))
    exact List.getElem?_set_self (List.getElem?_eq_some_iff.mp hchannel).1
  · refine h other (List.mem_of_getElem? (i := place) ?_)
    exact (List.getElem?_set_ne hsame).trans hplace

/-- Workers are not made behind a queue that has none. -/
theorem isHeld_of_step (hstep : Step exchange next) (h : next.IsHeld) : exchange.IsHeld := by
  cases hstep with
  | answer | desert => exact h
  | credit hrequest hchannel => exact isHeld_of_set hchannel (by exact id) h
  | @offer queue batch channel hrequest hchannel =>
    refine isHeld_of_set hchannel (fun hheld => ?_) h
    rcases channel.offer_cases batch with hoffer | ⟨offer, hoffer, -, -⟩ <;>
      rw [hoffer] at hheld <;> exact hheld
  | receive hchannel => exact isHeld_of_set hchannel (by exact id) h
  | acknowledge hchannel => exact isHeld_of_set hchannel (by exact id) h
  | endpoints endpoints hchannel hheld => exact isHeld_of_set hchannel (by exact hheld) h

theorem isHeld_of_follow (hkept : exchange.Kept plan routing) {last : Exchange α}
    {acts : List (Act α)} (hacts : follow? step? acts exchange = some last) (h : last.IsHeld) :
    exchange.IsHeld := by
  induction acts generalizing exchange with
  | nil =>
    obtain rfl : exchange = last := Option.some.inj hacts
    exact h
  | cons act rest ih =>
    rw [follow?_cons, Option.bind_eq_some_iff] at hacts
    obtain ⟨next, hact, hrest⟩ := hacts
    have hstep := step?_sound hkept.linked.isRead hact
    exact isHeld_of_step hstep (ih (kept_step hkept hstep) hrest)

/-- Only a step that is no deed takes a worker from a queue. -/
theorem isHeld_of_deed (hstep : Step exchange next) {queues : Nat}
    (hdeed : exchange.deeds queues < next.deeds queues) (h : exchange.IsHeld) : next.IsHeld := by
  have hset : ∀ {queue : Nat} {channel changed : Channel (Batch α)},
      exchange.channels[queue]? = some channel → changed.endpoints = channel.endpoints →
      (exchange.withChannel queue changed).IsHeld := by
    intro queue channel changed hchannel hsame other hother
    rcases List.mem_or_eq_of_mem_set hother with hbefore | rfl
    · exact h other hbefore
    · have hheld := h channel (List.mem_of_getElem? hchannel)
      rw [Channel.isHeld, ← hsame] at hheld
      exact hheld
  cases hstep with
  | answer | desert => exact h
  | credit hrequest hchannel | receive hchannel | acknowledge hchannel => exact hset hchannel rfl
  | @offer queue batch channel hrequest hchannel =>
    refine hset hchannel ?_
    rcases channel.offer_cases batch with hoffer | ⟨offer, hoffer, -, -⟩ <;> rw [hoffer]
  | endpoints => exact absurd hdeed (Nat.lt_irrefl _)

/-- A scan whose items have queues does not break off, as long as each queue has a worker. -/
theorem not_breaksOff (hkept : exchange.Kept plan routing) (hheld : exchange.IsHeld)
    (hstep : Step exchange next) {turn : Turn α} (hturned : Turned plan exchange next turn)
    (hrange : ∀ item, turn.reply = .item (some item) →
      exchange.scan.routing (exchange.scan.itemsRead + 1) item < exchange.scan.plan.queues) :
    ¬exchange.scan.BreaksOff turn.reply := by
  have hlog := hturned.log_eq
  have hsame : next.log ≠ exchange.log := by
    rw [hlog]
    simp
  -- The scan breaks off when it is told that a queue has no worker, or has no queue for an item.
  cases hstep with
  | @answer request reply hrequest hadmits houtside =>
    obtain rfl := List.singleton_inj.mp (List.append_cancel_left hlog)
    intro hbreaks
    cases reply with
    | deserted | offered => cases houtside
    | item answer =>
      cases answer with
      | none => exact hbreaks
      | some item => exact Nat.not_le.mpr (hrange item rfl) hbreaks
    | _ => exact hbreaks
  | credit =>
    obtain rfl := List.singleton_inj.mp (List.append_cancel_left hlog)
    exact id
  | @desert wait queue channel hrequest hchannel hlost =>
    rw [hheld channel (List.mem_of_getElem? hchannel)] at hlost
    cases hlost
  | @offer queue batch channel hrequest hchannel =>
    obtain rfl := List.singleton_inj.mp (List.append_cancel_left hlog)
    have hopen := (hkept.linked.link queue channel hchannel).isOpen
    have hnever := Channel.offer_ne_refused hopen (hheld channel (List.mem_of_getElem? hchannel))
      batch
    intro hbreaks
    cases hoffer : (channel.offer batch).2 with
    | refused fault => exact hnever fault hoffer
    | accepted | full =>
      dsimp only at hbreaks
      rw [hoffer] at hbreaks
      exact hbreaks
  | receive | acknowledge | endpoints => exact absurd rfl hsame

/-- A scan that has ended the reading stays sound, as long as each queue has a worker. -/
theorem sound_of_isHeld {last : Exchange α} {acts : List (Act α)}
    (hkept : exchange.Kept plan routing) (hended : exchange.scan.HasEnded)
    (h : Scan.Sound plan routing exchange.scan exchange.log)
    (hacts : follow? step? acts exchange = some last) (hheld : last.IsHeld) :
    Scan.Sound plan routing last.scan last.log := by
  induction acts generalizing exchange with
  | nil =>
    obtain rfl : exchange = last := Option.some.inj hacts
    exact h
  | cons act rest ih =>
    have hbefore := isHeld_of_follow hkept hacts hheld
    rw [follow?_cons, Option.bind_eq_some_iff] at hacts
    obtain ⟨next, hact, hrest⟩ := hacts
    have hstep := step?_sound hkept.linked.isRead hact
    refine ih (kept_step hkept hstep) (hasEnded_step hkept hended hstep) ?_ hrest
    rcases turned_of_step hkept hstep with ⟨turn, hturned⟩ | ⟨hscan, hlog⟩
    · rw [hturned.scan_eq, hturned.log_eq]
      obtain ⟨-, -, hitem⟩ := hended.reply_ne hturned.request hturned.admits
      have hwhole := not_breaksOff hkept hbefore hstep hturned fun item hreply =>
        absurd hreply (hitem _)
      exact (Scan.sound_resume h hturned.request hturned.admits hturned.expected).resolve_right
        fun hbroken => hwhole hbroken.2
    · rw [hscan, hlog]
      exact h

/-! ## No standstill -/

/-- A scan that waits has queues. -/
theorem Kept.queues_pos (h : exchange.Kept plan routing) (hended : exchange.scan.HasEnded)
    (hrequest : exchange.scan.request? = some (.acknowledgment true)) : 0 < plan.queues := by
  have hsound := h.sound hrequest
  have hplan := hsound.accounts.plan_eq
  have hstands := hsound.stands
  rw [Scan.HasEnded] at hended
  refine Nat.pos_of_ne_zero fun hzero => ?_
  -- Without queues nothing is outstanding.
  have hoffer : exchange.scan.onOffer = 0 := by rw [Scan.onOffer, hrequest]
  have hnothing : exchange.scan.outstanding = 0 := by
    rw [h.outstanding_eq (Scan.result?_of_request? hrequest), hzero, Finset.sum_range_zero, hoffer]
  cases hphase : exchange.scan.phase with
  | awaiting purpose =>
    rw [hphase] at hstands hended
    obtain ⟨-, hpurpose, hwaits⟩ := hstands
    cases purpose with
    | reading => cases hended
    | room queue batch ending =>
      have hqueue : queue < exchange.scan.plan.queues := hpurpose.1
      rw [hplan, hzero] at hqueue
      exact Nat.not_lt_zero _ hqueue
    | drain =>
      have hpos : 0 < exchange.scan.outstanding := hwaits
      omega
  | _ => simp [Scan.request?, hphase] at hrequest

theorem deeds_answered (exchange : Exchange α) (queues : Nat) (request : Request α)
    (reply : Reply α) :
    exchange.deeds queues < (exchange.answered request reply).deeds queues := by
  show exchange.log.length + _ < (exchange.log ++ [_]).length + _
  rw [List.length_append, List.length_singleton]
  exact Nat.add_lt_add_right (Nat.lt_succ_self _) _

theorem deeds_receiving (exchange : Exchange α) {queue queues : Nat} (hqueue : queue < queues)
    (batch : Batch α) :
    exchange.deeds queues < (exchange.receiving queue batch).deeds queues := by
  refine Nat.add_lt_add_left (Finset.sum_lt_sum ?_ ⟨queue, Finset.mem_range.mpr hqueue, ?_⟩) _
  · intro other _
    by_cases hsame : other = queue
    · subst hsame
      simp [receiving]
    · simp [receiving, hsame]
  · simp [receiving]

theorem deeds_acknowledging (exchange : Exchange α) {queue queues : Nat} (hqueue : queue < queues) :
    exchange.deeds queues < (exchange.acknowledging queue).deeds queues := by
  refine Nat.add_lt_add_left (Finset.sum_lt_sum ?_ ⟨queue, Finset.mem_range.mpr hqueue, ?_⟩) _
  · intro other _
    by_cases hsame : other = queue
    · subst hsame
      simp [acknowledging]
    · simp [acknowledging, hsame]
  · simp [acknowledging]

/-- Where a batch is under way, the scan takes an acknowledgment, or a worker can go on. -/
theorem exists_deed_of_underWay (h : exchange.Kept plan routing) (hslots : 0 < plan.slots)
    (hheld : exchange.IsHeld) {wait : Bool}
    (hrequest : exchange.scan.request? = some (.acknowledgment wait)) {queue : Nat}
    (hqueue : queue < plan.queues) (hway : 0 < exchange.underWay queue) :
    ∃ act next, step? act exchange = some next ∧
      exchange.deeds plan.queues < next.deeds plan.queues := by
  have hlt : queue < exchange.channels.length := by rw [h.linked.width]; exact hqueue
  obtain ⟨channel, hchannel⟩ : ∃ channel, exchange.channels[queue]? = some channel :=
    ⟨_, List.getElem?_eq_getElem hlt⟩
  have hlink := h.linked.link queue channel hchannel
  obtain ⟨endpoint, hholds⟩ := Channel.isHeld_iff.mp (hheld channel (List.mem_of_getElem? hchannel))
  rw [underWay_of_channel hchannel] at hway
  by_cases hacks : 0 < channel.acks
  · -- The scan takes an acknowledgment that waits.
    have hstep : step? (.credit queue) exchange = some
        ((exchange.withChannel queue { channel with acks := channel.acks - 1 }).answered
          (.acknowledgment wait) (.acknowledged queue)) := by
      simp only [step?, credit?, hrequest, hchannel, Channel.takeCredit, if_pos hacks]
    exact ⟨_, _, hstep, deeds_answered (exchange.withChannel queue _) _ _ _⟩
  by_cases hbusy : 0 < exchange.held queue
  · -- A worker acknowledges the batch that it has.
    have hroom : ¬channel.capacity ≤ channel.acks := by
      rw [hlink.capacity_eq]
      omega
    have hstep : step? (.acknowledge queue endpoint) exchange = some
        ((exchange.withChannel queue { channel with acks := channel.acks + 1 }).acknowledging
          queue) := by
      simp only [step?, acknowledge?, hchannel, Channel.acknowledge, hholds, hlink.isRead,
        not_true_eq_false, if_false, if_neg hroom, if_pos hbusy]
    exact ⟨_, _, hstep, deeds_acknowledging (exchange.withChannel queue _) hqueue⟩
  · -- A worker receives a batch that waits.
    obtain ⟨batch, rest, hwaits⟩ : ∃ batch rest, channel.queue = batch :: rest := by
      refine List.exists_cons_of_ne_nil fun hnil => ?_
      rw [hnil, List.length_nil] at hway
      omega
    have hstep : step? (.receive queue endpoint) exchange = some
        ((exchange.withChannel queue { channel with queue := rest }).receiving queue batch) := by
      simp only [step?, receive?, hchannel, Channel.receive, hholds, not_true_eq_false, if_false,
        hwaits]
    exact ⟨_, _, hstep, deeds_receiving (exchange.withChannel queue _) hqueue batch⟩

/-- Whatever a scan needs that is not of its input, there is something that can be done, as long as
each queue has a worker. -/
theorem exists_deed_of_request (h : exchange.Kept plan routing) (hslots : 0 < plan.slots)
    (hheld : exchange.IsHeld) {request : Request α}
    (hrequest : exchange.scan.request? = some request)
    (hinput : request ≠ .stop ∧ request ≠ .item ∧ request ≠ .rewind)
    (hqueues : request = .acknowledgment true → 0 < plan.queues) :
    ∃ act next, step? act exchange = some next ∧
      exchange.deeds plan.queues < next.deeds plan.queues := by
  obtain ⟨hstop, hitem, hrewind⟩ := hinput
  cases request with
  | stop => exact absurd rfl hstop
  | item => exact absurd rfl hitem
  | rewind => exact absurd rfl hrewind
  | emptyBatch =>
    have hstep : step? (.answer (.emptyBatch (Batch.new 0))) exchange =
        some (exchange.answered .emptyBatch (.emptyBatch (Batch.new 0))) := by
      simp only [step?, answer?, hrequest]
      rfl
    exact ⟨_, _, hstep, deeds_answered exchange _ _ _⟩
  | send queue batch =>
    have hlt : queue < exchange.channels.length := by
      rw [h.linked.width]
      exact (h.sound hrequest).queue_lt hrequest
    have hchannel := List.getElem?_eq_getElem hlt
    have hstep : step? .offer exchange = some
        ((exchange.withChannel queue (exchange.channels[queue].offer batch).1).answered
          (.send queue batch) (.offered (exchange.channels[queue].offer batch).2)) := by
      simp only [step?, offer?, hrequest, hchannel, Option.map_some]
    exact ⟨_, _, hstep, deeds_answered (exchange.withChannel queue _) _ _ _⟩
  | acknowledgment wait =>
    cases wait with
    | true =>
      obtain ⟨queue, hqueue, hway⟩ := h.underWay_of_wait (hqueues rfl) hslots hrequest
      exact exists_deed_of_underWay h hslots hheld hrequest hqueue hway
    | false =>
      have hstep : step? (.answer .unacknowledged) exchange =
          some (exchange.answered (.acknowledgment false) .unacknowledged) := by
        simp only [step?, answer?, hrequest]
        rfl
      exact ⟨_, _, hstep, deeds_answered exchange _ _ _⟩

/-- Behind the end of its input an exchange is at no standstill until its scan has returned, as long
as each queue has a worker. -/
theorem exists_deed (h : exchange.Kept plan routing) (hslots : 0 < plan.slots)
    (hended : exchange.scan.HasEnded) (hheld : exchange.IsHeld)
    (hgoing : exchange.scan.result? = none) :
    ∃ act next, step? act exchange = some next ∧
      exchange.deeds plan.queues < next.deeds plan.queues := by
  obtain ⟨request, hrequest⟩ := Scan.exists_request hgoing
  obtain ⟨hstop, hitem, hrewind⟩ := hended.request_ne
  rw [hrequest] at hstop hitem hrewind
  refine exists_deed_of_request h hslots hheld hrequest
    ⟨ne_of_apply_ne some hstop, ne_of_apply_ne some hitem, ne_of_apply_ne some hrewind⟩ ?_
  rintro rfl
  exact h.queues_pos hended hrequest

end Exchange

end LoadBench
