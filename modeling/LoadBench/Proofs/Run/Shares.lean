/-
  LoadBench.Proofs.Run.Shares

  What the workers of a queue get are the items that were read for that queue,
  each of them once and in the order in which they were read (`Shared`).  An item
  is never delivered again, whichever batch carried it before.
-/

import LoadBench.Proofs.Run.Queues
import LoadBench.Proofs.Run.Kept

namespace LoadBench

variable {α κ τ ω φ : Type}

/-! ## What was read -/

/-- The item that was read for a queue. -/
def Note.readFor? (queue : Nat) : Note α → Option α
  | .read item chosen => if chosen = queue then some item else none
  | _ => none

/-- The items that were read for a queue, in order. -/
def readFor (queue : Nat) (notes : List (Note α)) : List α := notes.filterMap (Note.readFor? queue)

/-! ## Exchanges -/

namespace Exchange

variable {plan : ScanPlan} {routing : Routing α} {exchange next : Exchange α} {turn : Turn α}

/-- Whether the batches that went into a queue hold the first items of its share. -/
def Shares (routing : Routing α) (exchange : Exchange α) (queue : Nat) : Prop :=
  (sentOn queue exchange.log).flatMap Batch.items <+: routing.share queue (itemsOf exchange.log)

/-- A scan that breaks off sends nothing. -/
theorem sentOn?_of_breaksOff {scan : Scan α} (h : scan.BreaksOff turn.reply) (queue : Nat) :
    turn.sentOn? queue = none := by
  obtain ⟨request, reply⟩ := turn
  cases reply with
  | offered offer =>
    cases offer with
    | refused => cases request <;> rfl
    | accepted | full => exact h.elim
  | _ => cases request <;> rfl

/-- More items make a share longer. -/
theorem isPrefix_share (routing : Routing α) (queue : Nat) (items more : List α) :
    routing.share queue items <+: routing.share queue (items ++ more) := by
  rw [Routing.share, Routing.share, List.zipIdx_append, List.filterMap_append]
  exact List.prefix_append _ _

/-- A scan that is answered sends of each share what comes next. -/
theorem shares_of_turned (hkept : exchange.Kept plan routing)
    (hturned : Turned plan exchange next turn) {queue : Nat} (hqueue : queue < plan.queues)
    (h : exchange.Shares routing queue) : next.Shares routing queue := by
  have hresumed := Scan.sound_resume (hkept.sound hturned.request) hturned.request hturned.admits
    hturned.expected
  rw [← hturned.scan_eq, ← hturned.log_eq] at hresumed
  rcases hresumed with hsound | ⟨-, hbreaks⟩
  · -- What has not gone out is in line or being filled.
    rw [Shares, ← hsound.accounts.conserved queue hqueue, List.flatMap_append, List.append_assoc]
    exact List.prefix_append _ _
  · rw [Shares, hturned.log_eq, sentOn_append_of_none _ (sentOn?_of_breaksOff hbreaks queue),
      itemsOf_append]
    exact h.trans (isPrefix_share routing queue _ _)

end Exchange

namespace Run

variable {workload : Workload α κ τ ω φ} {clock : Clock} {run next : Run α κ τ ω φ}
  {exchange : Exchange α} {occurrence : Occurrence} {notes : List (Note α)} {plan : ScanPlan}
  {routing : Routing α}

/-! ## What is noted of a turn -/

/-- A batch that is sent is noted. -/
theorem sentOn?_of_answers (hstage : run.stage = .scanning) {request : Request α}
    {reply : Reply α} {depot : Depot α} {input : φ} (hrequest : run.scan.request? = some request)
    (hanswers : Answers workload clock run request reply depot input) (queue : Nat) :
    (run.mainNote? workload).bind (Note.sentTo? queue) =
      (Turn.mk request reply).sentOn? queue := by
  cases hanswers with
  | @send chosen batch channel hchannel =>
    unfold mainNote?
    simp only [hstage, hrequest, hchannel, Option.map_some, Option.bind_some]
    cases (channel.offer batch).2 <;> rfl
  | @rewind _ again =>
    rw [mainNote?_unsent (by simp [hrequest])]
    cases again <;> rfl
  | _ =>
    rw [mainNote?_unsent (by simp [hrequest])]
    rfl

/-- An item that is read is noted for the queue that it goes to. -/
theorem share_of_answers (hkept : exchange.Kept plan routing) (hpicture : run.Pictured exchange)
    (hstage : run.stage = .scanning) {request : Request α} {reply : Reply α} {depot : Depot α}
    {input : φ} (hrequest : run.scan.request? = some request)
    (hanswers : Answers workload clock run request reply depot input) (queue : Nat) :
    routing.share queue (itemsOf (exchange.log ++ [⟨request, reply⟩])) =
      routing.share queue (itemsOf exchange.log) ++
        ((run.mainNote? workload).bind (Note.readFor? queue)).toList := by
  have hsilent : (Turn.mk request reply).item? = none →
      (run.mainNote? workload).bind (Note.readFor? queue) = none →
        routing.share queue (itemsOf (exchange.log ++ [⟨request, reply⟩])) =
          routing.share queue (itemsOf exchange.log) ++
            ((run.mainNote? workload).bind (Note.readFor? queue)).toList := by
    intro hitem hnote
    rw [itemsOf_append_of_none _ hitem, hnote, Option.toList_none, List.append_nil]
  cases hanswers with
  | @item _ item hnext =>
    have hsound := hkept.sound (by rw [hpicture.scan_eq]; exact hrequest)
    have hread := hsound.accounts.read
    have hrouting := hsound.accounts.routing_eq
    rw [hpicture.scan_eq] at hread hrouting
    have hnote : run.mainNote? workload =
        some (.read item (run.scan.routing (run.scan.itemsRead + 1) item)) := by
      unfold mainNote?
      simp only [hstage, hrequest, hnext]
    rw [itemsOf_append, hnote, hread, hrouting]
    show routing.share queue (itemsOf exchange.log ++ [item]) = _
    rw [Routing.share_append, Option.bind_some, Note.readFor?]
    split <;> rfl
  | ended hnext | unreadable hnext =>
    refine hsilent rfl ?_
    unfold mainNote?
    simp only [hstage, hrequest, hnext]
    rfl
  | @rewind _ again hagain =>
    refine hsilent (by cases again <;> rfl) ?_
    unfold mainNote?
    simp only [hstage, hrequest, hagain]
    cases again <;> rfl
  | @send chosen batch channel hchannel =>
    refine hsilent rfl ?_
    unfold mainNote?
    simp only [hstage, hrequest, hchannel]
    rfl
  | stop | draw | credit | desert | goOn =>
    refine hsilent rfl ?_
    unfold mainNote?
    simp only [hstage, hrequest]
    rfl

/-! ## The invariant -/

/-- Whether the batches that were sent hold what was read for their queues, in order and once. -/
structure Shared (plan : ScanPlan) (routing : Routing α) (notes : List (Note α))
    (run : Run α κ τ ω φ) : Prop where
  sent : ∀ queue < plan.queues,
    (sentTo queue notes).flatMap Batch.items <+: readFor queue notes
  /-- While the scan goes on, its log says what the notes say. -/
  shown : run.stage = .scanning → ∃ exchange : Exchange α, exchange.Kept plan routing ∧
    run.Pictured exchange ∧ ∀ queue < plan.queues,
      sentOn queue exchange.log = sentTo queue notes ∧
        routing.share queue (itemsOf exchange.log) = readFor queue notes

/-- A scan that is answered shares out what is read. -/
theorem Shared.turn (h : run.Shared plan routing notes) (hkept : run.Kept plan routing)
    (hstage : run.stage = .scanning) {request : Request α} {reply : Reply α} {depot : Depot α}
    {input : φ} (hrequest : run.scan.request? = some request)
    (hanswers : Answers workload clock run request reply depot input) :
    (run.served reply depot input).Shared plan routing
      (notes ++ (run.mainNote? workload).toList) := by
  obtain ⟨exchange, hexchange, hpicture, hnotes⟩ := h.shown hstage
  obtain ⟨shown, hshown, hpicture', hturned⟩ :=
    hkept.turned hexchange hpicture hrequest hanswers
  have hafter : ∀ queue < plan.queues,
      sentOn queue shown.log = sentTo queue (notes ++ (run.mainNote? workload).toList) ∧
        routing.share queue (itemsOf shown.log) =
          readFor queue (notes ++ (run.mainNote? workload).toList) := by
    intro queue hqueue
    obtain ⟨hsent, hread⟩ := hnotes queue hqueue
    rw [hturned.log_eq]
    refine ⟨?_, ?_⟩
    · rw [sentOn_append, hsent, sentTo, sentTo, filterMap_concat,
        sentOn?_of_answers hstage hrequest hanswers]
    · rw [share_of_answers hexchange hpicture hstage hrequest hanswers, hread, readFor, readFor,
        filterMap_concat]
  refine ⟨fun queue hqueue => ?_, fun _ => ⟨shown, hshown, hpicture', hafter⟩⟩
  obtain ⟨hsent, hread⟩ := hafter queue hqueue
  obtain ⟨hsentBefore, hreadBefore⟩ := hnotes queue hqueue
  have hshares : exchange.Shares routing queue := by
    rw [Exchange.Shares, hsentBefore, hreadBefore]
    exact h.sent queue hqueue
  rw [← hsent, ← hread]
  exact Exchange.shares_of_turned hexchange hturned hqueue hshares

/-- What is noted of other steps is neither sent nor read. -/
theorem Shared.silent (h : run.Shared plan routing notes) {note : Option (Note α)}
    (hsent : ∀ queue, note.bind (Note.sentTo? queue) = none)
    (hread : ∀ queue, note.bind (Note.readFor? queue) = none)
    (hshown : next.stage = .scanning → run.stage = .scanning ∧
      ∀ exchange : Exchange α, exchange.Kept plan routing → run.Pictured exchange →
        ∃ shown : Exchange α, shown.Kept plan routing ∧ next.Pictured shown ∧
          shown.log = exchange.log) :
    next.Shared plan routing (notes ++ note.toList) := by
  have hsentSame : ∀ queue, sentTo queue (notes ++ note.toList) = sentTo queue notes := by
    intro queue
    rw [sentTo, filterMap_concat, hsent, Option.toList_none, List.append_nil, sentTo]
  have hreadSame : ∀ queue, readFor queue (notes ++ note.toList) = readFor queue notes := by
    intro queue
    rw [readFor, filterMap_concat, hread, Option.toList_none, List.append_nil, readFor]
  refine ⟨fun queue hqueue => ?_, fun hscanning => ?_⟩
  · rw [hsentSame, hreadSame]
    exact h.sent queue hqueue
  · obtain ⟨hstage, hfollow⟩ := hshown hscanning
    obtain ⟨exchange, hexchange, hpicture, hnotes⟩ := h.shown hstage
    obtain ⟨shown, hkept, hpicture', hlog⟩ := hfollow exchange hexchange hpicture
    refine ⟨shown, hkept, hpicture', fun queue hqueue => ?_⟩
    rw [hlog, hsentSame, hreadSame]
    exact hnotes queue hqueue

/-- Whatever occurs, what is read is shared out. -/
theorem shared_occur (h : run.Shared plan routing notes) (hkept : run.Kept plan routing)
    (hoccur : run.occur? workload occurrence = some next) :
    next.Shared plan routing (notes ++ (run.note? workload occurrence).toList) := by
  cases occurrence with
  | period timestamp took previous =>
    obtain rfl := Option.some.inj hoccur
    exact h.silent (fun _ => rfl) (fun _ => rfl) fun hscanning => ⟨hscanning,
      fun exchange hexchange hpicture =>
        ⟨exchange, hexchange, ⟨hpicture.scan_eq, hpicture.channels_eq, hpicture.held_eq⟩, rfl⟩⟩
  | move clock move =>
    have hstep := step?_sound (show run.step? workload clock move = some next from hoccur)
    cases hstep with
    | turn hstage hrequest hanswers => exact h.turn hkept hstage hrequest hanswers
    | lose hstage hrequest hnext =>
      have hnote : run.mainNote? workload = some .lost := by
        unfold mainNote?
        simp only [hstage, hrequest, hnext]
      rw [note?, hnote]
      exact h.silent (fun _ => rfl) (fun _ => rfl) fun hcontra => by cases hcontra
    | scanned hstage hrequest =>
      have hnote : run.mainNote? workload = some (.returned run.scan.fault?) := by
        unfold mainNote?
        simp only [hstage, hrequest]
      rw [note?, hnote]
      refine h.silent (fun _ => rfl) (fun _ => rfl) fun hcontra => ?_
      rw [run.scanned_eq.1] at hcontra
      cases hcontra
    | close hstage =>
      rw [note?, mainNote?_behind (Or.inl hstage)]
      exact h.silent (fun _ => rfl) (fun _ => rfl) fun hcontra => by cases hcontra
    | join hstage hdone =>
      rw [note?, mainNote?_behind (Or.inr hstage)]
      exact h.silent (fun _ => rfl) (fun _ => rfl) fun hcontra => by cases hcontra
    | @work index worker worker' floor hworker hstep =>
      rw [note?, hworker, Option.bind_some]
      refine h.silent ?_ ?_ fun hscanning => ⟨hscanning, fun exchange hexchange hpicture => ?_⟩
      · intro queue
        cases worker.deed? workload.handler clock run.crew.floor <;> rfl
      · intro queue
        cases worker.deed? workload.handler clock run.crew.floor <;> rfl
      · obtain ⟨shown, hmirrors⟩ := hpicture.work hexchange.linked hworker
          (Worker.place_of_step hstep) (Worker.effect_of_step hstep)
        refine ⟨shown, ?_, hmirrors.pictured, hmirrors.log_eq⟩
        rcases hmirrors.moved with rfl | hmoved
        · exact hexchange
        · exact Exchange.kept_step hexchange hmoved

/-- A run that starts has read nothing, and sent nothing. -/
theorem Begins.shared (h : run.Begins plan routing) : run.Shared plan routing [] where
  sent := fun _ _ => List.nil_prefix
  shown := fun _ => ⟨_, Exchange.kept_start routing h.width h.fresh, h.pictured,
    fun _ _ => ⟨rfl, rfl⟩⟩

/-- What the workers of a queue have received is what was read for it, in order and once. -/
theorem Shared.received (h : run.Shared plan routing notes)
    (hcarried : run.Carried plan.queues notes) {queue : Nat} (hqueue : queue < plan.queues) :
    (receivedFrom queue notes).flatMap Batch.items <+: readFor queue notes := by
  have hchannel := List.getElem?_eq_getElem (by rw [hcarried.width]; exact hqueue)
  refine List.IsPrefix.trans ?_ (h.sent queue hqueue)
  rw [hcarried.queue_eq queue _ hchannel, List.flatMap_append]
  exact List.prefix_append _ _

end Run

end LoadBench
