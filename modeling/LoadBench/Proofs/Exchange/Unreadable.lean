/-
  LoadBench.Proofs.Exchange.Unreadable

  An exchange whose input cannot be read any further.  Beside it stands one in
  which the input ended at the same place, and in which the same acts follow.
  The two take the same steps (`follow?_blaming`), so their queues get the same
  batches and their workers do the same; neither asks for another item.  The one
  returns the fault where the other returns its summary (`spared_of_unreadable`).
-/

import LoadBench.Proofs.Exchange.Closing
import LoadBench.Proofs.Exchange.Delivery
import LoadBench.Proofs.Scan.Blame

namespace LoadBench

variable {α : Type}

namespace Exchange

variable {plan : ScanPlan} {routing : Routing α} {exchange next : Exchange α} {fault : Fault}

/-! ## Twins -/

/-- The same exchange, if it was a fault that ended the reading. Its log has other turns in the place
of the first ones. -/
def blaming (fault : Fault) (turns past : List (Turn α)) (exchange : Exchange α) : Exchange α :=
  { exchange with
    scan := exchange.scan.blaming fault
    log := turns ++ exchange.log.drop past.length }

/-- Whether the scan of an exchange had ended the reading without a fault when its log was `past`. -/
structure Ended (past : List (Turn α)) (exchange : Exchange α) : Prop where
  hasEnded : exchange.scan.HasEnded
  faultless : exchange.scan.readFault = none
  begins : past <+: exchange.log
  read : itemsOf exchange.log = itemsOf past

variable {turns past : List (Turn α)}

theorem answered_blaming (h : exchange.Ended past) (request : Request α) (reply : Reply α) :
    (exchange.blaming fault turns past).answered request reply =
      (exchange.answered request reply).blaming fault turns past := by
  have hscan := Scan.resume_blaming fault h.faultless h.hasEnded reply
  have hlog : (exchange.log ++ [Turn.mk request reply]).drop past.length =
      exchange.log.drop past.length ++ [Turn.mk request reply] :=
    List.drop_append_of_le_length h.begins.length_le
  unfold answered blaming
  dsimp only
  rw [hscan, hlog, List.append_assoc]

/-- An exchange that is blamed takes the steps that it took. -/
theorem step?_blaming (h : exchange.Ended past) (act : Act α) :
    step? act (exchange.blaming fault turns past) =
      (step? act exchange).map (blaming fault turns past) := by
  have hrequest : (exchange.blaming fault turns past).scan.request? = exchange.scan.request? :=
    exchange.scan.request?_blaming fault
  cases act with
  | answer reply =>
    simp only [step?, answer?, hrequest]
    cases exchange.scan.request? with
    | none => rfl
    | some request =>
      by_cases hallowed : request.admits exchange.scan.plan.queues reply ∧ reply.isOutside
      · simp only [if_pos hallowed, answered_blaming h]
        exact if_pos hallowed
      · simp only [if_neg hallowed]
        exact if_neg hallowed
  | credit queue =>
    have hchannels : (exchange.blaming fault turns past).channels = exchange.channels := rfl
    simp only [step?, credit?, hrequest, hchannels]
    split
    · next wait channel hwait hchannel =>
      have hended : ∀ channel', (exchange.withChannel queue channel').Ended past :=
        fun _ => { h with }
      cases channel.takeCredit with
      | mk taken credit =>
        cases credit with
        | taken => exact congrArg some (answered_blaming (hended taken) _ _)
        | none => rfl
        | lost => exact congrArg some (answered_blaming h _ _)
    · rfl
  | offer =>
    have hchannels : (exchange.blaming fault turns past).channels = exchange.channels := rfl
    simp only [step?, offer?, hrequest, hchannels]
    split
    · next queue batch hsend =>
      cases exchange.channels[queue]? with
      | none => rfl
      | some channel =>
        have hended : (exchange.withChannel queue (channel.offer batch).1).Ended past :=
          { h with }
        exact congrArg some (answered_blaming hended _ _)
    · rfl
  | receive queue endpoint =>
    have hchannels : (exchange.blaming fault turns past).channels = exchange.channels := rfl
    simp only [step?, receive?, hchannels]
    cases exchange.channels[queue]? with
    | none => rfl
    | some channel =>
      dsimp only
      cases channel.receive endpoint with
      | mk received receipt => cases receipt <;> rfl
  | acknowledge queue endpoint =>
    have hchannels : (exchange.blaming fault turns past).channels = exchange.channels := rfl
    simp only [step?, acknowledge?, hchannels]
    cases exchange.channels[queue]? with
    | none => rfl
    | some channel =>
      dsimp only
      cases channel.acknowledge endpoint with
      | mk acknowledged acknowledgment =>
        cases acknowledgment with
        | sent =>
          show (if 0 < exchange.held queue then _ else _) = _
          by_cases hheld : 0 < exchange.held queue
          · simp only [if_pos hheld]
            rfl
          · simp only [if_neg hheld]
            rfl
        | blocked => rfl
        | gone => rfl
  | clone queue endpoint | drop queue endpoint =>
    simp only [step?, Option.map_map]
    rfl

/-- A step leaves the reading ended. -/
theorem ended_step (hkept : exchange.Kept plan routing) (h : exchange.Ended past)
    (hstep : Step exchange next) : next.Ended past := by
  rcases turned_of_step hkept hstep with ⟨turn, hturned⟩ | ⟨hscan, hlog⟩
  · obtain ⟨hreadable, -, hitem⟩ := h.hasEnded.reply_ne hturned.request hturned.admits
    refine ⟨?_, ?_, ?_, ?_⟩
    · rw [hturned.scan_eq]
      exact Scan.hasEnded_resume hturned.request hturned.admits h.hasEnded
    · rw [hturned.scan_eq, exchange.scan.readFault_resume hreadable]
      exact h.faultless
    · rw [hturned.log_eq]
      exact h.begins.trans (List.prefix_append _ _)
    · have hnone : turn.item? = none := by
        unfold Turn.item?
        split
        · exact absurd rfl (hitem _)
        · rfl
      rw [hturned.log_eq, itemsOf_append_of_none _ hnone]
      exact h.read
  · refine ⟨?_, ?_, ?_, ?_⟩
    · rw [hscan]
      exact h.hasEnded
    · rw [hscan]
      exact h.faultless
    · rw [hlog]
      exact h.begins
    · rw [hlog]
      exact h.read

/-- An exchange that is blamed follows the acts that it followed, and no others. -/
theorem follow?_blaming (hkept : exchange.Kept plan routing) (h : exchange.Ended past)
    (acts : List (Act α)) :
    follow? step? acts (exchange.blaming fault turns past) =
      (follow? step? acts exchange).map (blaming fault turns past) := by
  induction acts generalizing exchange with
  | nil => rfl
  | cons act rest ih =>
    rw [follow?_cons, follow?_cons, step?_blaming h]
    cases hact : step? act exchange with
    | none => rfl
    | some next =>
      have hstep := step?_sound hkept.linked.isRead hact
      exact ih (kept_step hkept hstep) (ended_step hkept h hstep)

theorem ended_follow {last : Exchange α} {acts : List (Act α)}
    (hkept : exchange.Kept plan routing) (h : exchange.Ended past)
    (hacts : follow? step? acts exchange = some last) : last.Ended past := by
  have hboth : last.Kept plan routing ∧ last.Ended past := by
    refine follow?_preserves (P := fun state => state.Kept plan routing ∧ state.Ended past)
      ?_ ⟨hkept, h⟩ hacts
    rintro act state next ⟨hstate, hended⟩ hact
    have hstep := step?_sound hstate.linked.isRead hact
    exact ⟨kept_step hstate hstep, ended_step hstate hended hstep⟩
  exact hboth.2

/-! ## Inputs that cannot be read any further -/

/-- A scan bears a fault only once it has ended the reading. -/
theorem blameless_follow {last : Exchange α} {acts : List (Act α)}
    (hkept : exchange.Kept plan routing) (h : exchange.scan.Blameless)
    (hacts : follow? step? acts exchange = some last) : last.scan.Blameless := by
  have hboth : last.Kept plan routing ∧ last.scan.Blameless := by
    refine follow?_preserves (P := fun state => state.Kept plan routing ∧ state.scan.Blameless)
      ?_ ⟨hkept, h⟩ hacts
    rintro act state next ⟨hstate, hblameless⟩ hact
    have hstep := step?_sound hstate.linked.isRead hact
    refine ⟨kept_step hstate hstep, ?_⟩
    rcases turned_of_step hstate hstep with ⟨turn, hturned⟩ | ⟨hscan, -⟩
    · rw [hturned.scan_eq]
      exact Scan.blameless_resume hturned.request hturned.admits hblameless
    · rw [hscan]
      exact hblameless
  exact hboth.2

/-- The ways in which an input ends: it gives no item, and is not read again if that is wanted. -/
def endings : List (List (Act α)) :=
  [[.answer (.item none)], [.answer (.item none), .answer (.rewound false)],
    [.answer (.rewound false)]]

theorem step?_answer {request : Request α} (reply : Reply α)
    (hrequest : exchange.scan.request? = some request)
    (hadmits : request.admits exchange.scan.plan.queues reply = true)
    (houtside : reply.isOutside = true) :
    step? (.answer reply) exchange = some (exchange.answered request reply) := by
  simp only [step?, answer?, hrequest]
  exact if_pos ⟨hadmits, houtside⟩

/-- The same exchange, if its input has ended by some turns. -/
def finished (exchange : Exchange α) (quiet : List (Turn α)) : Exchange α :=
  { exchange with
    scan := exchange.scan.finish
    log := exchange.log ++ quiet }

theorem ended_finished (hfaultless : exchange.scan.readFault = none) (quiet : List (Turn α)) :
    (exchange.finished quiet).Ended (exchange.finished quiet).log where
  hasEnded := exchange.scan.hasEnded_flushFrom 0
  faultless := (Scan.moved_flushFrom exchange.scan 0).readFault_eq.trans hfaultless
  begins := List.prefix_rfl
  read := rfl

/-- Silent turns move neither items nor batches. -/
theorem silent_append {quiet : List (Turn α)} (h : ∀ turn ∈ quiet, turn.Silent)
    (log : List (Turn α)) : itemsOf (log ++ quiet) = itemsOf log ∧
      ∀ queue, sentOn queue (log ++ quiet) = sentOn queue log := by
  refine ⟨?_, fun queue => ?_⟩
  · rw [itemsOf, List.filterMap_append, List.filterMap_eq_nil_iff.mpr fun turn hturn =>
      (h turn hturn).1, List.append_nil]
    rfl
  · rw [sentOn, List.filterMap_append, List.filterMap_eq_nil_iff.mpr fun turn hturn =>
      (h turn hturn).2.1 queue, List.append_nil]
    rfl

theorem blaming_finished (request : Request α) (quiet : List (Turn α))
    (hscan : exchange.scan.resume (.unreadable fault) = exchange.scan.finish.blaming fault) :
    exchange.answered request (.unreadable fault) =
      (exchange.finished quiet).blaming fault
        (exchange.log ++ [Turn.mk request (.unreadable fault)]) (exchange.finished quiet).log := by
  unfold answered blaming finished
  dsimp only
  rw [hscan, List.drop_length, List.append_nil]

/-- Instead of failing, an input could have ended by some turns that move nothing. -/
theorem exists_finished {failed : Exchange α} (hblameless : exchange.scan.Blameless)
    (hfault : step? (.answer (.unreadable fault)) exchange = some failed) :
    exchange.scan.readFault = none ∧ ∃ ending ∈ endings, ∃ quiet turn,
      follow? step? ending exchange = some (exchange.finished quiet) ∧
        failed = (exchange.finished quiet).blaming fault (exchange.log ++ [turn])
          (exchange.finished quiet).log ∧
        ∀ given ∈ turn :: quiet, given.Silent := by
  simp only [step?, answer?] at hfault
  split at hfault
  · next request hrequest =>
    split at hfault
    · next hallowed =>
      obtain rfl := Option.some.inj hfault
      obtain ⟨hnone, hscan, hphase⟩ :=
        Scan.resume_unreadable hblameless hrequest hallowed.1
      refine ⟨hnone, ?_⟩
      rcases hphase with ⟨hphase, rfl⟩ | ⟨hphase, rfl⟩
      · have hlast := step?_answer (.item none) hrequest rfl rfl
        by_cases hagain : exchange.scan.plan.isRepeated ∧ 0 < exchange.scan.passItems
        · -- The input would be read again, but cannot be.
          refine ⟨_, List.mem_cons_of_mem _ List.mem_cons_self,
            [⟨.item, .item none⟩, ⟨.rewind, .rewound false⟩], _, ?_,
            blaming_finished .item _ hscan, ?_⟩
          · have hended : exchange.scan.resume (.item none) =
                { exchange.scan with phase := .rewinding } := by
              simp only [Scan.resume, hphase, Scan.passEnded]
              exact if_pos hagain
            have hrewind : (exchange.answered .item (.item none)).scan.request? =
                some .rewind := by
              show (exchange.scan.resume (.item none)).request? = some .rewind
              rw [hended]
              rfl
            have hfinish : (exchange.scan.resume (.item none)).resume (.rewound false) =
                exchange.scan.finish := by
              rw [hended]
              rfl
            have hanew := step?_answer (.rewound false) hrewind rfl rfl
            rw [follow?_cons, hlast, Option.bind_some, follow?_cons, hanew, Option.bind_some,
              follow?_nil]
            unfold answered finished
            dsimp only
            rw [hfinish, List.append_assoc]
            rfl
          · simp [Turn.Silent, Turn.item?, Turn.sentOn?, Turn.isCreditOn]
        · refine ⟨_, List.mem_cons_self, [⟨.item, .item none⟩], _, ?_,
            blaming_finished .item _ hscan, ?_⟩
          · have hended : exchange.scan.resume (.item none) = exchange.scan.finish := by
              simp only [Scan.resume, hphase, Scan.passEnded]
              exact if_neg hagain
            rw [follow?_cons, hlast, Option.bind_some, follow?_nil, answered, hended]
            rfl
          · simp [Turn.Silent, Turn.item?, Turn.sentOn?, Turn.isCreditOn]
      · refine ⟨[.answer (.rewound false)], by simp [endings], [⟨.rewind, .rewound false⟩], _, ?_,
          blaming_finished .rewind _ hscan, ?_⟩
        · have hended : exchange.scan.resume (.rewound false) = exchange.scan.finish := by
            simp only [Scan.resume, hphase]
          have hlast := step?_answer (.rewound false) hrequest rfl rfl
          rw [follow?_cons, hlast, Option.bind_some, follow?_nil, answered, hended]
          rfl
        · simp [Turn.Silent, Turn.item?, Turn.sentOn?, Turn.isCreditOn]
    · cases hfault
  · cases hfault

/-- What an exchange whose input could not be read any further shares with one in which the input
ended behind the same items, at any moment behind that. -/
structure Spared (plan : ScanPlan) (routing : Routing α) (fault : Fault) (items : List α)
    (ended failed : Exchange α) : Prop where
  channels : failed.channels = ended.channels
  received : failed.received = ended.received
  acknowledged : failed.acknowledged = ended.acknowledged
  sent : ∀ queue, sentOn queue failed.log = sentOn queue ended.log
  filling : failed.scan.filling = ended.scan.filling
  waiting : failed.scan.waiting = ended.scan.waiting
  outstanding : failed.scan.outstanding = ended.scan.outstanding
  request : failed.scan.request? = ended.scan.request?
  read : itemsOf failed.log = items ∧ itemsOf ended.log = items
  /-- Nothing more is asked of the input. -/
  unread : failed.scan.request? ≠ some .item ∧ failed.scan.request? ≠ some .rewind
  /-- With a worker for each queue, the scan returns the fault once nothing is left of what it has
  read: where the other one returns a summary. -/
  settled : failed.IsHeld → ∀ result, failed.scan.result? = some result →
    result = .error (.unreadable fault) ∧ (∃ tally, ended.scan.result? = some (.ok tally)) ∧
      ∀ queue < plan.queues, failed.scan.waitingOf queue = [] ∧ failed.queuedOn queue = 0 ∧
        failed.held queue = 0 ∧ failed.acksOn queue = 0 ∧
        failed.received queue = sentOn queue failed.log ∧
        (failed.received queue).flatMap Batch.items = routing.share queue items
  /-- Until then there is always something that can be done. -/
  lively : failed.IsHeld → failed.scan.result? = none → ∃ act next,
    step? act failed = some next ∧ failed.deeds plan.queues < next.deeds plan.queues

/-- What the log of a blamed exchange shows is what that of the other shows, if it begins alike. -/
theorem sentOn_blaming (h : exchange.Ended past) {queue : Nat}
    (hsent : sentOn queue turns = sentOn queue past) :
    sentOn queue (exchange.blaming fault turns past).log = sentOn queue exchange.log := by
  obtain ⟨more, hmore⟩ := h.begins
  show sentOn queue (turns ++ exchange.log.drop past.length) = _
  rw [← hmore, List.drop_left]
  unfold sentOn at hsent ⊢
  rw [List.filterMap_append, List.filterMap_append, hsent]

theorem itemsOf_blaming (h : exchange.Ended past) (hitems : itemsOf turns = itemsOf past) :
    itemsOf (exchange.blaming fault turns past).log = itemsOf past := by
  obtain ⟨more, hmore⟩ := h.begins
  have hread := h.read
  rw [← hmore] at hread
  show itemsOf (turns ++ exchange.log.drop past.length) = _
  rw [← hmore, List.drop_left]
  unfold itemsOf at hitems hread ⊢
  rw [List.filterMap_append] at hread ⊢
  rw [hitems, hread]

/-- What has been shown of the twins comes to this. -/
theorem spared_of_ended (hslots : 0 < plan.slots) (h : exchange.Ended past)
    (hkept : exchange.Kept plan routing)
    (hblamed : (exchange.blaming fault turns past).Kept plan routing)
    (hsound : exchange.IsHeld → Scan.Sound plan routing exchange.scan exchange.log)
    (hsent : ∀ queue, sentOn queue turns = sentOn queue past)
    (hitems : itemsOf turns = itemsOf past) :
    Spared plan routing fault (itemsOf past) exchange (exchange.blaming fault turns past) := by
  have hended := Scan.hasEnded_blaming h.hasEnded fault
  refine
    { channels := rfl
      received := rfl
      acknowledged := rfl
      sent := fun queue => sentOn_blaming h (hsent queue)
      filling := rfl
      waiting := rfl
      outstanding := rfl
      request := exchange.scan.request?_blaming fault
      read := ⟨itemsOf_blaming h hitems, h.read⟩
      unread := hended.request_ne.2
      settled := ?_
      lively := fun hheld hgoing => exists_deed hblamed hslots hended hheld hgoing }
  intro hheld result hresult
  have hstands := (hsound hheld).stands
  rw [show (exchange.blaming fault turns past).scan = exchange.scan.blaming fault from rfl,
    Scan.result?_blaming, Option.map_eq_some_iff] at hresult
  obtain ⟨summary, hsummary, rfl⟩ := hresult
  -- A sound scan that bears no fault returns its summary.
  rw [Scan.phase_of_result? hsummary] at hstands
  have hverdict : summary = exchange.scan.verdict := hstands.2.2
  rw [Scan.verdict, h.faultless] at hverdict
  subst hverdict
  have hdelivered := hkept.delivered hsummary
  obtain ⟨-, -, hsettled⟩ := hkept.credited.settled _ hsummary
  refine ⟨rfl, ⟨_, hsummary⟩, fun queue hqueue => ?_⟩
  obtain ⟨hline, hqueued, hheldOn, hacks⟩ := hsettled queue hqueue
  refine ⟨hline, hqueued, hheldOn, hacks, ?_, ?_⟩
  · rw [sentOn_blaming h (hsent queue)]
    exact hdelivered.received queue hqueue
  · rw [← h.read, ← hdelivered.ordered queue hqueue, ← hdelivered.received queue hqueue]
    rfl

/-- An input that cannot be read any further costs nothing of what was read before: whatever the
workers do, the exchange goes on as if the input had ended, comes to an end, and returns the fault
then. -/
theorem spared_of_unreadable {channels : List (Channel (Batch α))} {before : List (Act α)}
    {failed : Exchange α} (hslots : 0 < plan.slots) (hwidth : channels.length = plan.queues)
    (hfresh : ∀ channel ∈ channels, channel.Fresh plan.slots)
    (hbefore : follow? step? before (start plan routing channels) = some exchange)
    (hfault : step? (.answer (.unreadable fault)) exchange = some failed) :
    ∃ ending ∈ endings, ∃ ended bound, follow? step? ending exchange = some ended ∧
      ∀ after, (follow? step? after failed).isSome = (follow? step? after ended).isSome ∧
        ∀ twin last, follow? step? after ended = some twin → follow? step? after failed = some last →
          Spared plan routing fault (itemsOf exchange.log) twin last ∧
            last.deeds plan.queues ≤ bound := by
  have hstart := kept_start routing hwidth hfresh
  have hkept := kept_follow hstart hbefore
  have hblamed := kept_step hkept (step?_sound hkept.linked.isRead hfault)
  have hblameless := blameless_follow hstart (Or.inl rfl) hbefore
  obtain ⟨hnone, ending, hending, quiet, turn, hacts, hfailed, hsilent⟩ :=
    exists_finished hblameless hfault
  have hfinished := kept_follow hkept hacts
  have hended := ended_finished hnone quiet
  obtain ⟨hturn, hquiet⟩ := List.forall_mem_cons.mp hsilent
  obtain ⟨hread, hsent⟩ := silent_append hquiet exchange.log
  obtain ⟨hread', hsent'⟩ := silent_append (List.forall_mem_singleton.mpr hturn) exchange.log
  have hsound := (hfinished.unfailed (Scan.finish_ne_fault hnone)).1
  have hfailing : failed.scan.HasEnded := by
    rw [hfailed]
    exact Scan.hasEnded_blaming hended.hasEnded fault
  refine ⟨ending, hending, _, 3 * (failed.log.length + failed.scan.weight), hacts,
    fun after => ?_⟩
  have htwins : follow? step? after failed = (follow? step? after (exchange.finished quiet)).map
      (blaming fault (exchange.log ++ [turn]) (exchange.finished quiet).log) := by
    rw [hfailed]
    exact follow?_blaming hfinished hended after
  refine ⟨by rw [htwins, Option.isSome_map], fun twin last htwin hlast => ⟨?_, ?_⟩⟩
  · have hkeptLast := kept_follow hblamed hlast
    rw [htwins, htwin, Option.map_some, Option.some.injEq] at hlast
    subst hlast
    have hspared := spared_of_ended hslots (ended_follow hfinished hended htwin)
      (kept_follow hfinished htwin) hkeptLast
      (sound_of_isHeld hfinished hended.hasEnded hsound htwin)
      (fun queue => (hsent' queue).trans (hsent queue).symm) (hread'.trans hread.symm)
    rwa [show itemsOf (exchange.finished quiet).log = itemsOf exchange.log from hread] at hspared
  · -- What has been done is bounded by the log, and that by what the scan had before it.
    have hlog := weight_follow hblamed hfailing hlast
    have hdeeds := deeds_le (kept_follow hblamed hlast).linked
    exact Nat.le_trans hdeeds (Nat.mul_le_mul_left 3 (Nat.le_trans (Nat.le_add_right _ _) hlog))

/-- Two items are read, then the input fails; both batches are received and acknowledged all the
same. -/
theorem spared_twoBatches : ∃ exchange failed last,
    follow? step? (twoBatches.take 10) (start ⟨1, 1, 1, 0, .once⟩ Routing.first [Channel.create 1]) =
        some exchange ∧
      step? (.answer (.unreadable ⟨.io, "broken"⟩)) exchange = some failed ∧
      follow? step? (twoBatches.drop 11) failed = some last ∧ last.IsHeld ∧
      last.scan.result? = some (.error (.unreadable ⟨.io, "broken"⟩)) ∧
      last.received 0 = [⟨1, [7]⟩, ⟨2, [8]⟩] ∧
      ∃ ending ∈ endings, ∃ ended twin, follow? step? ending exchange = some ended ∧
        follow? step? (twoBatches.drop 11) ended = some twin ∧
        Spared ⟨1, 1, 1, 0, .once⟩ Routing.first ⟨.io, "broken"⟩ [7, 8] twin last := by
  obtain ⟨ending, hending, ended, bound, hended, hafter⟩ :=
    spared_of_unreadable (show 0 < (⟨1, 1, 1, 0, .once⟩ : ScanPlan).slots from Nat.one_pos) rfl
      (List.forall_mem_singleton.mpr (Channel.fresh_create Nat.one_pos))
      (show follow? step? (twoBatches.take 10) (start _ Routing.first _) = _ from rfl)
      (show step? (.answer (.unreadable ⟨.io, "broken"⟩)) _ = _ from rfl)
  obtain ⟨hboth, hspared⟩ := hafter (twoBatches.drop 11)
  -- The acts that follow are those of the input that ended.
  obtain ⟨twin, htwin⟩ := Option.isSome_iff_exists.mp (hboth.symm.trans rfl)
  exact ⟨_, _, _, rfl, rfl, rfl, List.forall_mem_singleton.mpr rfl, rfl, rfl, ending, hending, ended,
    twin, hended, htwin, (hspared twin _ htwin rfl).1⟩

end Exchange

end LoadBench
