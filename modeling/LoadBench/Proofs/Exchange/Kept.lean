/-
  LoadBench.Proofs.Exchange.Kept

  The invariant of an exchange (`Exchange.Kept`).  Beside the invariants of its
  scan it says, of each queue,

    * what went into the channel is what the workers received and what waits
      in it, and what they acknowledged is what waits and what was taken
      (`Linked`);
    * a queue with a line has as many batches under way as its channel has slots
      (`Crowded`).

  `kept_step` is its step, and `outstanding_eq` is what it comes to: the
  outstanding batches are counted where they are.
-/

import LoadBench.Proofs.Exchange
import LoadBench.Proofs.Scan.Line
import Mathlib.Algebra.Order.BigOperators.Group.Finset

namespace LoadBench

variable {α : Type}

/-- A channel takes a batch, or stays as it is; it is full if it has no slot. -/
theorem Channel.offer_cases (channel : Channel α) (value : α) :
    channel.offer value = ({ channel with queue := channel.queue ++ [value] }, .accepted) ∨
      ∃ offer, channel.offer value = (channel, offer) ∧ offer ≠ .accepted ∧
        (offer = .full → channel.capacity ≤ channel.queue.length) := by
  unfold Channel.offer
  by_cases hopen : channel.isOpen = true
  · rw [if_neg (not_not_intro hopen)]
    by_cases hheld : channel.isHeld = true
    · rw [if_neg (not_not_intro hheld)]
      by_cases hfull : channel.isFull = true
      · rw [if_pos hfull]
        exact Or.inr ⟨_, rfl, nofun, fun _ => of_decide_eq_true hfull⟩
      · rw [if_neg hfull]
        exact Or.inl rfl
    · rw [if_pos hheld]
      exact Or.inr ⟨_, rfl, nofun, nofun⟩
  · rw [if_pos hopen]
    exact Or.inr ⟨_, rfl, nofun, nofun⟩

/-- An open channel to which somebody listens refuses nothing. -/
theorem Channel.offer_ne_refused {channel : Channel α} (hopen : channel.isOpen = true)
    (hheld : channel.isHeld = true) (value : α) (fault : SendFault) :
    (channel.offer value).2 ≠ .refused fault := by
  unfold Channel.offer
  rw [if_neg (not_not_intro hopen), if_neg (not_not_intro hheld)]
  split <;> exact nofun

/-- A reply from outside moves neither a batch into a queue nor an acknowledgment. -/
theorem Reply.outside_silent {reply : Reply α} (h : reply.isOutside = true) (request : Request α)
    (queue : Nat) : (Turn.mk request reply).sentOn? queue = none ∧
      (Turn.mk request reply).isCreditOn queue = false := by
  cases reply with
  | acknowledged => cases h
  | deserted => cases h
  | offered => cases h
  | _ => cases request <;> exact ⟨rfl, rfl⟩

/-- A scan that needs something has no result. -/
theorem Scan.result?_of_request? {scan : Scan α} {request : Request α}
    (h : scan.request? = some request) : scan.result? = none := by
  unfold result?
  split
  · next result hphase => exact absurd hphase (phase_ne_of_request? h result)
  · rfl

/-- A scan whose batch is refused returns. -/
theorem Scan.result?_refused {scan : Scan α} {queue : Nat} {batch : Batch α}
    (h : scan.request? = some (.send queue batch)) (fault : SendFault) :
    (scan.resume (.offered (.refused fault))).result? ≠ none := by
  unfold request? at h
  cases hphase : scan.phase with
  | resending => simp [resume, hphase, fail, result?]
  | sending => simp [resume, hphase, fail, result?]
  | awaiting purpose => cases purpose <;> simp [hphase] at h
  | _ => simp [hphase] at h

namespace Exchange

variable {plan : ScanPlan} {routing : Routing α} {exchange next : Exchange α} {tally : ScanTally}

/-! ## Channels -/

/-- How the channel of a queue is linked to what was done. -/
structure Link (slots : Nat) (exchange : Exchange α) (queue : Nat) (channel : Channel (Batch α)) :
    Prop where
  capacity_eq : channel.capacity = slots
  isOpen : channel.isOpen = true
  isRead : channel.isRead = true
  delivered : sentOn queue exchange.log = exchange.received queue ++ channel.queue
  credited : exchange.acknowledged queue = channel.acks + creditsOn queue exchange.log
  owed : exchange.acknowledged queue ≤ (exchange.received queue).length

/-- All channels are linked to what was done. -/
structure Linked (plan : ScanPlan) (exchange : Exchange α) : Prop where
  width : exchange.channels.length = plan.queues
  link : ∀ queue channel, exchange.channels[queue]? = some channel →
    exchange.Link plan.slots queue channel

theorem Linked.lt (h : exchange.Linked plan) {queue : Nat} {channel : Channel (Batch α)}
    (hchannel : exchange.channels[queue]? = some channel) : queue < plan.queues := by
  rw [← h.width]
  exact (List.getElem?_eq_some_iff.mp hchannel).1

theorem Linked.isRead (h : exchange.Linked plan) :
    ∀ channel ∈ exchange.channels, channel.isRead = true := by
  intro channel hchannel
  obtain ⟨queue, hqueue⟩ := List.getElem?_of_mem hchannel
  exact (h.link queue channel hqueue).isRead

/-- Channels stay linked while one of them changes, and what was done changes for it alone. -/
theorem Linked.change (h : exchange.Linked plan) (queue : Nat) {channel : Channel (Batch α)}
    (hchannels : next.channels = exchange.channels.set queue channel)
    (hothers : ∀ other, other ≠ queue →
      sentOn other next.log = sentOn other exchange.log ∧
        creditsOn other next.log = creditsOn other exchange.log ∧
        next.received other = exchange.received other ∧
        next.acknowledged other = exchange.acknowledged other)
    (hlink : next.Link plan.slots queue channel) : next.Linked plan := by
  refine ⟨?_, ?_⟩
  · rw [hchannels, List.length_set]
    exact h.width
  · intro other found hfound
    rw [hchannels, List.getElem?_set] at hfound
    by_cases hsame : queue = other
    · subst hsame
      rw [if_pos rfl] at hfound
      split at hfound
      · obtain rfl : channel = found := Option.some.inj hfound
        exact hlink
      · cases hfound
    · rw [if_neg hsame] at hfound
      obtain ⟨hsent, hcredits, hreceived, hacknowledged⟩ := hothers other (Ne.symm hsame)
      have hbefore := h.link other found hfound
      exact
        { capacity_eq := hbefore.capacity_eq
          isOpen := hbefore.isOpen
          isRead := hbefore.isRead
          delivered := by rw [hsent, hreceived]; exact hbefore.delivered
          credited := by rw [hcredits, hacknowledged]; exact hbefore.credited
          owed := by rw [hreceived, hacknowledged]; exact hbefore.owed }

/-- Channels stay linked while nothing happens to them. -/
theorem Linked.silent (h : exchange.Linked plan) {request : Request α} {reply : Reply α}
    (hsilent : ∀ queue, (Turn.mk request reply).sentOn? queue = none ∧
      (Turn.mk request reply).isCreditOn queue = false) :
    (exchange.answered request reply).Linked plan := by
  refine ⟨h.width, fun queue channel hchannel => ?_⟩
  have hbefore := h.link queue channel hchannel
  obtain ⟨hsent, hcredit⟩ := hsilent queue
  exact
    { capacity_eq := hbefore.capacity_eq
      isOpen := hbefore.isOpen
      isRead := hbefore.isRead
      delivered := by
        show sentOn queue (exchange.log ++ [_]) = _
        rw [sentOn_append_of_none _ hsent]
        exact hbefore.delivered
      credited := by
        show _ = _ + creditsOn queue (exchange.log ++ [_])
        rw [creditsOn_append_of_false _ hcredit]
        exact hbefore.credited
      owed := hbefore.owed }

/-- An acknowledgment that is taken has been counted. -/
theorem Linked.credit (h : exchange.Linked plan) {wait : Bool} {queue : Nat}
    {channel : Channel (Batch α)} (hchannel : exchange.channels[queue]? = some channel)
    (hacks : 0 < channel.acks) :
    ((exchange.withChannel queue { channel with acks := channel.acks - 1 }).answered
      (.acknowledgment wait) (.acknowledged queue)).Linked plan := by
  have hbefore := h.link queue channel hchannel
  refine h.change queue rfl ?_ { hbefore with delivered := ?_, credited := ?_ }
  · intro other hother
    refine ⟨?_, ?_, rfl, rfl⟩
    · exact sentOn_append_of_none _ rfl
    · exact creditsOn_append_of_false _ (by simp [Turn.isCreditOn, Ne.symm hother])
  · exact (sentOn_append_of_none _ rfl).trans hbefore.delivered
  · show exchange.acknowledged queue = channel.acks - 1 + creditsOn queue (exchange.log ++ [_])
    rw [creditsOn_append, hbefore.credited]
    simp only [Turn.isCreditOn, decide_true, if_true]
    omega

/-- A batch that is offered is sent if it goes into the channel, and only then. -/
theorem Linked.offer (h : exchange.Linked plan) {queue : Nat} {batch : Batch α}
    {channel : Channel (Batch α)} (hchannel : exchange.channels[queue]? = some channel) :
    ((exchange.withChannel queue (channel.offer batch).1).answered
      (.send queue batch) (.offered (channel.offer batch).2)).Linked plan := by
  have hbefore := h.link queue channel hchannel
  -- An offer takes no acknowledgment, whatever comes of it.
  have hcredits : ∀ offer other,
      creditsOn other (exchange.log ++ [⟨.send queue batch, .offered offer⟩]) =
        creditsOn other exchange.log :=
    fun _ _ => creditsOn_append_of_false _ rfl
  rcases channel.offer_cases batch with hoffer | ⟨offer, hoffer, hne, -⟩
  · rw [hoffer]
    refine h.change queue rfl ?_ { hbefore with delivered := ?_, credited := ?_ }
    · intro other hother
      refine ⟨?_, hcredits _ other, rfl, rfl⟩
      exact sentOn_append_of_none _ (by simp [Turn.sentOn?, Ne.symm hother])
    · show sentOn queue (exchange.log ++ [_]) =
        exchange.received queue ++ (channel.queue ++ [batch])
      rw [sentOn_append, hbefore.delivered, List.append_assoc]
      simp [Turn.sentOn?]
    · show _ = _ + creditsOn queue (exchange.log ++ [_])
      rw [hcredits]
      exact hbefore.credited
  · have hsent : ∀ other, sentOn other (exchange.log ++ [⟨.send queue batch, .offered offer⟩]) =
        sentOn other exchange.log := by
      intro other
      cases offer with
      | accepted => exact absurd rfl hne
      | full | refused => exact sentOn_append_of_none _ rfl
    rw [hoffer]
    refine h.change queue rfl (fun other _ => ⟨hsent other, hcredits _ other, rfl, rfl⟩)
      { hbefore with delivered := ?_, credited := ?_ }
    · exact (hsent queue).trans hbefore.delivered
    · show _ = _ + creditsOn queue (exchange.log ++ [_])
      rw [hcredits]
      exact hbefore.credited

/-- A step keeps the channels linked. -/
theorem linked_step (h : exchange.Linked plan) (hstep : Step exchange next) :
    next.Linked plan := by
  cases hstep with
  | answer hrequest hadmits houtside => exact h.silent (Reply.outside_silent houtside _)
  | desert hrequest hchannel => exact h.silent fun _ => ⟨rfl, rfl⟩
  | credit hrequest hchannel hacks => exact h.credit hchannel hacks
  | offer hrequest hchannel => exact h.offer hchannel
  | @receive queue batch rest channel hchannel hqueue =>
    have hbefore := h.link queue channel hchannel
    have hreceived : (exchange.receiving queue batch).received queue =
        exchange.received queue ++ [batch] := if_pos rfl
    refine h.change queue rfl ?_ { hbefore with delivered := ?_, owed := ?_ }
    · intro other hother
      exact ⟨rfl, rfl, if_neg hother, rfl⟩
    · show sentOn queue exchange.log = (exchange.receiving queue batch).received queue ++ rest
      rw [hreceived, List.append_assoc, hbefore.delivered, hqueue]
      rfl
    · show exchange.acknowledged queue ≤ ((exchange.receiving queue batch).received queue).length
      rw [hreceived, List.length_append]
      exact Nat.le_trans hbefore.owed (Nat.le_add_right _ _)
  | @acknowledge queue channel hchannel hread hheld =>
    have hbefore := h.link queue channel hchannel
    have hacknowledged : (exchange.acknowledging queue).acknowledged queue =
        exchange.acknowledged queue + 1 := if_pos rfl
    refine h.change queue rfl ?_ { hbefore with credited := ?_, owed := ?_ }
    · intro other hother
      exact ⟨rfl, rfl, rfl, if_neg hother⟩
    · show (exchange.acknowledging queue).acknowledged queue =
        channel.acks + 1 + creditsOn queue exchange.log
      rw [hacknowledged, hbefore.credited]
      omega
    · show (exchange.acknowledging queue).acknowledged queue ≤ (exchange.received queue).length
      rw [hacknowledged]
      unfold held at hheld
      omega
  | @endpoints queue channel endpoints hchannel =>
    exact h.change queue rfl (fun other _ => ⟨rfl, rfl, rfl, rfl⟩)
      { h.link queue channel hchannel with }

/-! ## Outstanding batches -/

/-- How many batches wait in the channel of a queue. -/
def queuedOn (exchange : Exchange α) (queue : Nat) : Nat :=
  (exchange.channels[queue]?.map fun channel => channel.queue.length).getD 0

/-- How many acknowledgments wait in the channel of a queue. -/
def acksOn (exchange : Exchange α) (queue : Nat) : Nat :=
  (exchange.channels[queue]?.map Channel.acks).getD 0

/-- How many batches of a queue are under way: in its channel, with its workers, or acknowledged
without the scan having heard of it. -/
def underWay (exchange : Exchange α) (queue : Nat) : Nat :=
  exchange.queuedOn queue + exchange.held queue + exchange.acksOn queue

theorem Linked.underWay_eq (h : exchange.Linked plan) {queue : Nat} (hqueue : queue < plan.queues) :
    (sentOn queue exchange.log).length =
      creditsOn queue exchange.log + exchange.underWay queue := by
  have hlt : queue < exchange.channels.length := by rw [h.width]; exact hqueue
  have hchannel := List.getElem?_eq_getElem hlt
  have hlink := h.link queue _ hchannel
  have hdelivered := congrArg List.length hlink.delivered
  rw [List.length_append] at hdelivered
  have hcredited := hlink.credited
  have howed := hlink.owed
  simp only [underWay, queuedOn, acksOn, held, hchannel, Option.map_some, Option.getD_some]
  omega

/-- The outstanding batches of a scan are those under way and those that have not gone out. -/
theorem outstanding_eq {hand : Hand α}
    (haccounts : Accounts plan routing exchange.scan hand exchange.log)
    (hlinked : exchange.Linked plan) :
    exchange.scan.outstanding = ∑ queue ∈ Finset.range plan.queues,
      (exchange.scan.chargedOf hand queue + exchange.underWay queue) := by
  have hcredit := haccounts.credit
  -- What has gone out is acknowledged or under way, and the acknowledged part cancels out.
  have hsent : ∑ queue ∈ Finset.range plan.queues,
      ((sentOn queue exchange.log).length + exchange.scan.chargedOf hand queue) =
        ∑ queue ∈ Finset.range plan.queues, creditsOn queue exchange.log +
          ∑ queue ∈ Finset.range plan.queues,
            (exchange.scan.chargedOf hand queue + exchange.underWay queue) := by
    rw [← Finset.sum_add_distrib]
    refine Finset.sum_congr rfl fun queue hqueue => ?_
    rw [hlinked.underWay_eq (Finset.mem_range.mp hqueue)]
    omega
  omega

/-- A batch is outstanding as long as an acknowledgment waits. -/
theorem outstanding_pos {hand : Hand α}
    (haccounts : Accounts plan routing exchange.scan hand exchange.log)
    (hlinked : exchange.Linked plan) {queue : Nat} {channel : Channel (Batch α)}
    (hchannel : exchange.channels[queue]? = some channel) (hacks : 0 < channel.acks) :
    0 < exchange.scan.outstanding := by
  rw [outstanding_eq haccounts hlinked]
  -- The queue of the acknowledgment alone makes the sum positive.
  have hmem : queue ∈ Finset.range plan.queues := Finset.mem_range.mpr (hlinked.lt hchannel)
  refine Finset.sum_pos' (fun _ _ => Nat.zero_le _) ⟨queue, hmem, ?_⟩
  have : exchange.acksOn queue = channel.acks := by
    rw [acksOn, hchannel, Option.map_some, Option.getD_some]
  rw [underWay]
  omega

/-! ## Batches that workers hold -/

theorem held_receiving {queue : Nat}
    (howed : exchange.acknowledged queue ≤ (exchange.received queue).length) (batch : Batch α) :
    (exchange.receiving queue batch).held queue = exchange.held queue + 1 := by
  simp only [held, receiving, if_true, List.length_append, List.length_singleton]
  omega

theorem held_receiving_ne {queue other : Nat} (hne : other ≠ queue) (batch : Batch α) :
    (exchange.receiving queue batch).held other = exchange.held other := by
  simp only [held, receiving, if_neg hne]

theorem held_acknowledging (exchange : Exchange α) (queue : Nat) :
    (exchange.acknowledging queue).held queue = exchange.held queue - 1 := by
  simp only [held, acknowledging, if_true]
  omega

theorem held_acknowledging_ne {queue other : Nat} (hne : other ≠ queue) :
    (exchange.acknowledging queue).held other = exchange.held other := by
  simp only [held, acknowledging, if_neg hne]

/-! ## Lines -/

/-- A queue with a line has as many batches under way as its channel has slots. The acknowledgment
for which the head of the line is on offer counts, too. -/
def Crowded (plan : ScanPlan) (exchange : Exchange α) : Prop :=
  exchange.scan.result? = none → ∀ queue < plan.queues, exchange.scan.waitingOf queue ≠ [] →
    plan.slots ≤ exchange.underWay queue + exchange.scan.resends queue

/-- A queue stays crowded while batches of it only go on their way. -/
theorem Crowded.worker (h : exchange.Crowded plan) (hscan : next.scan = exchange.scan)
    (hway : ∀ queue, next.underWay queue = exchange.underWay queue) : next.Crowded plan := by
  unfold Crowded
  rw [hscan]
  simp only [hway]
  exact h

/-- What is under way of the other queues does not change with a channel. -/
theorem underWay_withChannel_ne {queue other : Nat} (hne : other ≠ queue)
    (channel : Channel (Batch α)) :
    (exchange.withChannel queue channel).underWay other = exchange.underWay other := by
  have hfound : (exchange.withChannel queue channel).channels[other]? = exchange.channels[other]? :=
    List.getElem?_set_ne (Ne.symm hne)
  simp only [underWay, queuedOn, acksOn, hfound]
  rfl

/-- What is under way of a queue, seen at its channel. -/
theorem underWay_of_channel {queue : Nat} {channel : Channel (Batch α)}
    (hchannel : exchange.channels[queue]? = some channel) :
    exchange.underWay queue = channel.queue.length + exchange.held queue + channel.acks := by
  simp only [underWay, queuedOn, acksOn, hchannel, Option.map_some, Option.getD_some]

theorem underWay_withChannel {queue : Nat} {channel : Channel (Batch α)}
    (hchannel : exchange.channels[queue]? = some channel) (other : Channel (Batch α)) :
    (exchange.withChannel queue other).underWay queue =
      other.queue.length + exchange.held queue + other.acks :=
  underWay_of_channel (List.getElem?_set_self (List.getElem?_eq_some_iff.mp hchannel).1)

/-- What the scan is told from outside starts no line. -/
theorem Crowded.silent (h : exchange.Crowded plan) {request : Request α} {reply : Reply α}
    (hrequest : exchange.scan.request? = some request)
    (hsend : ∀ queue batch, request ≠ .send queue batch) :
    (exchange.answered request reply).Crowded plan := by
  intro _ queue hqueue hline
  have hsilent : ∀ batch, exchange.scan.request? ≠ some (.send queue batch) := by
    intro batch hcontra
    rw [hrequest] at hcontra
    exact hsend queue batch (Option.some.inj hcontra)
  -- A line behind the reply is a line before it, and nothing was on offer for it.
  have hbefore : exchange.scan.waitingOf queue ≠ [] := fun hnil =>
    hline (Scan.waitingOf_resume hnil reply fun batch hcontra => absurd hcontra (hsilent batch))
  have hcrowded := h (Scan.result?_of_request? hrequest) queue hqueue hbefore
  rw [Scan.resends_eq_zero hsilent] at hcrowded
  exact Nat.le_trans hcrowded (Nat.le_add_right _ _)

/-- An acknowledgment that is taken is one less under way, and sends the head of a line out. -/
theorem Crowded.credit (h : exchange.Crowded plan) (hlinked : exchange.Linked plan) {hand : Hand α}
    (haccounts : Accounts plan routing exchange.scan hand exchange.log) {wait : Bool} {queue : Nat}
    {channel : Channel (Batch α)} (hrequest : exchange.scan.request? = some (.acknowledgment wait))
    (hchannel : exchange.channels[queue]? = some channel) (hacks : 0 < channel.acks) :
    ((exchange.withChannel queue { channel with acks := channel.acks - 1 }).answered
      (.acknowledgment wait) (.acknowledged queue)).Crowded plan := by
  intro _ other hother hline
  have hsilent : ∀ batch, exchange.scan.request? ≠ some (.send other batch) := by
    intro batch hcontra
    rw [hrequest] at hcontra
    cases hcontra
  -- A credit starts no line, so there was one already.
  have hbefore : exchange.scan.waitingOf other ≠ [] := fun hnil =>
    hline (Scan.waitingOf_resume hnil _ fun batch hcontra => absurd hcontra (hsilent batch))
  have hcrowded := h (Scan.result?_of_request? hrequest) other hother hbefore
  rw [Scan.resends_eq_zero hsilent] at hcrowded
  show plan.slots ≤ (exchange.withChannel queue _).underWay other +
    (exchange.scan.resume (.acknowledged queue)).resends other
  by_cases hsame : other = queue
  · subst hsame
    -- One acknowledgment less is under way, and the head of the line is on offer in its place.
    have hpos := outstanding_pos haccounts hlinked hchannel hacks
    rw [Scan.resends_acknowledged hrequest hpos hbefore,
      underWay_withChannel hchannel]
    rw [underWay_of_channel hchannel] at hcrowded
    dsimp only
    omega
  · rw [underWay_withChannel_ne hsame]
    omega

/-- A batch that is offered goes on its way, or finds no slot; then its queue is crowded anyway. -/
theorem Crowded.offer (h : exchange.Crowded plan) (hlinked : exchange.Linked plan) {queue : Nat}
    {batch : Batch α} {channel : Channel (Batch α)}
    (hrequest : exchange.scan.request? = some (.send queue batch))
    (hchannel : exchange.channels[queue]? = some channel) :
    ((exchange.withChannel queue (channel.offer batch).1).answered
      (.send queue batch) (.offered (channel.offer batch).2)).Crowded plan := by
  intro hgoing other hother hline
  have hresult := Scan.result?_of_request? hrequest
  show plan.slots ≤ (exchange.withChannel queue _).underWay other +
    (exchange.scan.resume _).resends other
  by_cases hsame : other = queue
  · subst hsame
    rw [underWay_withChannel hchannel]
    rcases channel.offer_cases batch with hoffer | ⟨offer, hoffer, hne, hfull⟩
    · rw [hoffer] at hline ⊢
      -- The channel has taken the batch, which counts more than any offer did.
      have hbefore : exchange.scan.waitingOf other ≠ [] := fun hnil =>
        hline (Scan.waitingOf_resume hnil _ fun _ _ => nofun)
      have hcrowded := h hresult other hother hbefore
      have hone := exchange.scan.resends_le_one other
      rw [underWay_of_channel hchannel] at hcrowded
      dsimp only
      rw [List.length_append, List.length_singleton]
      omega
    · rw [hoffer] at hgoing ⊢
      cases offer with
      | accepted => exact absurd rfl hne
      | full =>
        -- All slots are taken, so there is no need to look at the line.
        have hslots := hfull rfl
        rw [(hlinked.link other channel hchannel).capacity_eq] at hslots
        dsimp only
        omega
      | refused fault =>
        have hended := Scan.result?_refused hrequest fault
        exact absurd hgoing hended
  · have hsilent : ∀ batch, exchange.scan.request? ≠ some (.send other batch) := by
      intro some hcontra
      rw [hrequest] at hcontra
      cases hcontra
      exact hsame rfl
    have hbefore : exchange.scan.waitingOf other ≠ [] := fun hnil =>
      hline (Scan.waitingOf_resume hnil _ fun some hcontra => absurd hcontra (hsilent some))
    have hcrowded := h hresult other hother hbefore
    rw [Scan.resends_eq_zero hsilent] at hcrowded
    rw [underWay_withChannel_ne hsame]
    omega

/-- A batch that is received stays under way. -/
theorem underWay_receiving (hlinked : exchange.Linked plan) {queue : Nat} {batch : Batch α}
    {rest : List (Batch α)} {channel : Channel (Batch α)}
    (hchannel : exchange.channels[queue]? = some channel) (hqueue : channel.queue = batch :: rest)
    (other : Nat) :
    ((exchange.withChannel queue { channel with queue := rest }).receiving queue batch).underWay
      other = exchange.underWay other := by
  by_cases hsame : other = queue
  · subst hsame
    have hheld := held_receiving (hlinked.link other channel hchannel).owed batch
    have hafter := underWay_withChannel hchannel { channel with queue := rest }
    rw [underWay_of_channel hchannel, hqueue, List.length_cons]
    unfold underWay at hafter ⊢
    show (exchange.withChannel other _).queuedOn other +
      (exchange.receiving other batch).held other +
      (exchange.withChannel other _).acksOn other = _
    have hkept : (exchange.withChannel other { channel with queue := rest }).held other =
      exchange.held other := rfl
    dsimp only at hafter
    omega
  · refine Eq.trans ?_ (underWay_withChannel_ne hsame { channel with queue := rest })
    show _ + (exchange.receiving queue batch).held other + _ = _ + exchange.held other + _
    rw [held_receiving_ne hsame]
    rfl

/-- A batch that is acknowledged stays under way, as its acknowledgment. -/
theorem underWay_acknowledging {queue : Nat} {channel : Channel (Batch α)}
    (hchannel : exchange.channels[queue]? = some channel) (hheld : 0 < exchange.held queue)
    (other : Nat) :
    ((exchange.withChannel queue { channel with acks := channel.acks + 1 }).acknowledging
      queue).underWay other = exchange.underWay other := by
  by_cases hsame : other = queue
  · subst hsame
    have hless := held_acknowledging exchange other
    have hafter := underWay_withChannel hchannel { channel with acks := channel.acks + 1 }
    rw [underWay_of_channel hchannel]
    unfold underWay at hafter ⊢
    show (exchange.withChannel other _).queuedOn other +
      (exchange.acknowledging other).held other +
      (exchange.withChannel other _).acksOn other = _
    have hkept :
        (exchange.withChannel other { channel with acks := channel.acks + 1 }).held other =
          exchange.held other := rfl
    dsimp only at hafter
    omega
  · refine Eq.trans ?_ (underWay_withChannel_ne hsame { channel with acks := channel.acks + 1 })
    show _ + (exchange.acknowledging queue).held other + _ = _ + exchange.held other + _
    rw [held_acknowledging_ne hsame]
    rfl

/-- A step keeps the queues with a line crowded. -/
theorem crowded_step (hlinked : exchange.Linked plan) (h : exchange.Crowded plan)
    (hsound : ∀ request, exchange.scan.request? = some request →
      Scan.Sound plan routing exchange.scan exchange.log)
    (hstep : Step exchange next) : next.Crowded plan := by
  cases hstep with
  | @answer request reply hrequest hadmits houtside =>
    refine h.silent hrequest ?_
    rintro queue batch rfl
    cases reply with
    | offered => cases houtside
    | _ => cases hadmits
  | desert hrequest hchannel => exact h.silent hrequest nofun
  | credit hrequest hchannel hacks =>
    exact h.credit hlinked (hsound _ hrequest).accounts hrequest hchannel hacks
  | offer hrequest hchannel => exact h.offer hlinked hrequest hchannel
  | receive hchannel hqueue => exact h.worker rfl (underWay_receiving hlinked hchannel hqueue)
  | acknowledge hchannel hread hheld => exact h.worker rfl (underWay_acknowledging hchannel hheld)
  | @endpoints queue channel endpoints hchannel =>
    refine h.worker rfl fun other => ?_
    by_cases hsame : other = queue
    · subst hsame
      rw [underWay_withChannel hchannel, underWay_of_channel hchannel]
    · exact underWay_withChannel_ne hsame _

/-! ## The invariant -/

/-- The invariant of an exchange. -/
structure Kept (plan : ScanPlan) (routing : Routing α) (exchange : Exchange α) : Prop where
  scan : Scan.Sound plan routing exchange.scan exchange.log ∨ Scan.Broken plan exchange.scan
  reading : Scan.Reading exchange.scan exchange.log ∨ Scan.HasFailed exchange.scan
  linked : exchange.Linked plan
  crowded : exchange.Crowded plan

/-- A scan that has returned no fault is sound, and so is what it has read. -/
theorem Kept.unfailed (h : exchange.Kept plan routing)
    (hphase : ∀ fault, exchange.scan.phase ≠ .returned (.error fault)) :
    Scan.Sound plan routing exchange.scan exchange.log ∧
      Scan.Reading exchange.scan exchange.log := by
  refine ⟨h.scan.resolve_right ?_, h.reading.resolve_right ?_⟩
  · intro hbroken
    obtain ⟨fault, hreturned, -⟩ := hbroken.fault
    exact hphase fault hreturned
  · rintro ⟨fault, hreturned, -⟩
    exact hphase fault hreturned

/-- A scan that needs something is sound. -/
theorem Kept.sound (h : exchange.Kept plan routing) {request : Request α}
    (hrequest : exchange.scan.request? = some request) :
    Scan.Sound plan routing exchange.scan exchange.log :=
  (h.unfailed fun _ => Scan.phase_ne_of_request? hrequest _).1

/-- Whether a step gives the scan an answer, and nothing but that answer. -/
structure Turned (plan : ScanPlan) (exchange next : Exchange α) (turn : Turn α) : Prop where
  request : exchange.scan.request? = some turn.request
  admits : turn.request.admits plan.queues turn.reply = true
  expected : ∀ queue, turn.reply = .acknowledged queue → 0 < exchange.scan.outstanding
  scan_eq : next.scan = exchange.scan.resume turn.reply
  log_eq : next.log = exchange.log ++ [turn]

/-- A step gives the scan an answer, or leaves it alone. -/
theorem turned_of_step (h : exchange.Kept plan routing) (hstep : Step exchange next) :
    (∃ turn, Turned plan exchange next turn) ∨
      next.scan = exchange.scan ∧ next.log = exchange.log := by
  cases hstep with
  | answer hrequest hadmits houtside =>
    rw [(h.sound hrequest).accounts.plan_eq] at hadmits
    refine Or.inl ⟨⟨_, _⟩, hrequest, hadmits, ?_, rfl, rfl⟩
    rintro queue rfl
    cases houtside
  | @credit wait queue channel hrequest hchannel hacks =>
    refine Or.inl ⟨⟨.acknowledgment wait, .acknowledged queue⟩, hrequest,
      decide_eq_true (h.linked.lt hchannel), fun _ _ => ?_, rfl, rfl⟩
    exact outstanding_pos (h.sound hrequest).accounts h.linked hchannel hacks
  | @desert wait queue channel hrequest hchannel =>
    exact Or.inl ⟨⟨.acknowledgment wait, .deserted queue⟩, hrequest,
      decide_eq_true (h.linked.lt hchannel), nofun, rfl, rfl⟩
  | @offer queue batch channel hrequest hchannel =>
    exact Or.inl ⟨⟨.send queue batch, .offered (channel.offer batch).2⟩, hrequest, rfl, nofun, rfl,
      rfl⟩
  | receive => exact Or.inr ⟨rfl, rfl⟩
  | acknowledge => exact Or.inr ⟨rfl, rfl⟩
  | endpoints => exact Or.inr ⟨rfl, rfl⟩

/-- A step that is logged as a turn gives the scan that answer. -/
theorem turned_of_log (h : exchange.Kept plan routing) (hstep : Step exchange next)
    {turn : Turn α} (hlog : next.log = exchange.log ++ [turn]) : Turned plan exchange next turn := by
  rcases turned_of_step h hstep with ⟨other, hturned⟩ | ⟨-, hsilent⟩
  · have hsame := hlog.symm.trans hturned.log_eq
    rwa [List.singleton_injective (List.append_cancel_left hsame)]
  · exact absurd (hlog.symm.trans hsilent) (by simp)

/-- A step keeps the invariant. -/
theorem kept_step (h : exchange.Kept plan routing) (hstep : Step exchange next) :
    next.Kept plan routing := by
  have hlinked := linked_step h.linked hstep
  have hcrowded := crowded_step h.linked h.crowded (fun _ => h.sound) hstep
  -- The invariants of the scan go on with its answer, if the step gives it one.
  rcases turned_of_step h hstep with ⟨turn, hturned⟩ | ⟨hscan, hlog⟩
  · obtain ⟨hsound, hreading⟩ :=
      h.unfailed fun _ => Scan.phase_ne_of_request? hturned.request _
    have hresumed := Scan.sound_resume hsound hturned.request hturned.admits hturned.expected
    refine ⟨?_, ?_, hlinked, hcrowded⟩
    · rw [hturned.scan_eq, hturned.log_eq]
      exact hresumed.imp_right And.left
    · rw [hturned.scan_eq, hturned.log_eq]
      exact Scan.reading_resume hreading hturned.request hturned.admits
  · refine ⟨?_, ?_, hlinked, hcrowded⟩
    · rw [hscan, hlog]
      exact h.scan
    · rw [hscan, hlog]
      exact h.reading

/-- An exchange starts with fresh channels, one for each queue. -/
theorem kept_start (routing : Routing α) {channels : List (Channel (Batch α))}
    (hwidth : channels.length = plan.queues)
    (hfresh : ∀ channel ∈ channels, channel.Fresh plan.slots) :
    (start plan routing channels).Kept plan routing where
  scan := Scan.sound_start plan routing
  reading := Scan.reading_start plan routing
  linked := by
    refine ⟨hwidth, fun queue channel hchannel => ?_⟩
    have hchannel := hfresh channel (List.mem_of_getElem? hchannel)
    exact
      { capacity_eq := hchannel.capacity_eq
        isOpen := hchannel.isOpen
        isRead := hchannel.isRead
        delivered := hchannel.queue_eq.symm
        credited := hchannel.acks_eq.symm
        owed := Nat.le_refl _ }
  crowded := by
    intro _ queue _ hline
    refine absurd ?_ hline
    show (List.replicate plan.queues []).getD queue [] = []
    rw [List.getD_eq_getElem?_getD, List.getElem?_replicate]
    split <;> rfl

/-- Every act keeps the invariant. -/
theorem kept_follow {acts : List (Act α)} (h : exchange.Kept plan routing)
    (hacts : follow? step? acts exchange = some next) : next.Kept plan routing :=
  follow?_preserves
    (fun _ _ _ hkept hstep => kept_step hkept (step?_sound hkept.linked.isRead hstep)) h hacts

/-! ## The end of a scan that ends well -/

/-- What is left of an exchange when its scan has ended well. -/
theorem Kept.ended_well (h : exchange.Kept plan routing)
    (hresult : exchange.scan.result? = some (.ok tally)) :
    tally = exchange.scan.summary ∧ exchange.scan.outstanding = 0 ∧
      exchange.scan.Cleared plan.queues ∧
      Accounts plan routing exchange.scan (Hand.empty true) exchange.log ∧
      exchange.scan.Read true exchange.log ∧ exchange.scan.readFault = none := by
  have hreturned := Scan.phase_of_result? hresult
  obtain ⟨hsound, hreading⟩ := h.unfailed (by
    intro fault hphase
    rw [hreturned] at hphase
    cases hphase)
  obtain ⟨htally, hzero, hcleared, hfault, haccounts⟩ := hsound.ended_well hresult
  have hread := hreading.read
  rw [hreturned] at hread
  exact ⟨htally, hzero, hcleared, haccounts, hread, hfault⟩

/-- Without outstanding batches, no batch of a queue is anywhere. -/
theorem nothing_left
    (haccounts : Accounts plan routing exchange.scan (Hand.empty true) exchange.log)
    (hlinked : exchange.Linked plan) (hzero : exchange.scan.outstanding = 0) {queue : Nat}
    (hqueue : queue < plan.queues) :
    exchange.scan.waitingOf queue = [] ∧ exchange.underWay queue = 0 := by
  -- A sum of counts is zero only if all of them are.
  have hsum := outstanding_eq haccounts hlinked
  rw [hzero, eq_comm, Finset.sum_eq_zero_iff] at hsum
  have hnone := hsum queue (Finset.mem_range.mpr hqueue)
  have hcharged : exchange.scan.chargedOf (Hand.empty true) queue =
      (exchange.scan.waitingOf queue).length := Nat.zero_add _
  rw [hcharged] at hnone
  exact ⟨List.length_eq_zero_iff.mp (by omega), by omega⟩

end Exchange

end LoadBench
