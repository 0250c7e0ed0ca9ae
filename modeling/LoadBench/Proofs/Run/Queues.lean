/-
  LoadBench.Proofs.Run.Queues

  What goes into a queue comes out of it, in the same order and once: the batches
  that were sent are those that were received, and behind them those that wait
  (`Carried`).  A worker closes only when its queue is closed and empty, and
  nothing goes into that queue any more.
-/

import LoadBench.Proofs.Run.Chronicle

namespace LoadBench

variable {α κ τ ω φ : Type}

/-! ## Channels -/

/-- What becomes of a channel when a value or none is sent, and a value or none is received. -/
structure Channel.Passes (before after : Channel α) (sent received : Option α) : Prop where
  queue_eq : before.queue ++ sent.toList = received.toList ++ after.queue
  closed : before.isOpen = false → after.isOpen = false ∧ sent = none

theorem Channel.passes_of_queue {before after : Channel α} (hqueue : after.queue = before.queue)
    (hopen : before.isOpen = false → after.isOpen = false) : before.Passes after none none where
  queue_eq := by
    rw [hqueue]
    exact List.append_nil _
  closed := fun hclosed => ⟨hopen hclosed, rfl⟩

/-- Nothing goes into a channel that is closed and empty, and nothing comes out. -/
theorem Channel.Passes.emptied {before after : Channel α} {sent received : Option α}
    (h : before.Passes after sent received) (hqueue : before.queue = [])
    (hclosed : before.isOpen = false) : after.queue = [] ∧ after.isOpen = false := by
  obtain ⟨hopen, rfl⟩ := h.closed hclosed
  have hnothing := h.queue_eq
  rw [hqueue] at hnothing
  exact ⟨(List.append_eq_nil_iff.mp hnothing.symm).2, hopen⟩

/-- A value that is offered is sent if it is accepted, and an open channel only accepts one. -/
theorem Channel.passes_offer (channel : Channel α) (value : α) :
    channel.Passes (channel.offer value).1
      (if (channel.offer value).2 = .accepted then some value else none) none := by
  by_cases hopen : channel.isOpen = true
  · by_cases hheld : channel.isHeld = true
    · by_cases hfull : channel.isFull = true
      · simp only [offer, hopen, hheld, hfull]
        exact passes_of_queue rfl id
      · simp only [offer, hopen, hheld, hfull]
        exact ⟨rfl, fun hclosed => absurd (hopen.symm.trans hclosed) nofun⟩
    · simp only [offer, hopen, hheld]
      exact passes_of_queue rfl id
  · simp only [offer, hopen]
    exact passes_of_queue rfl id

/-- A channel changes, and the others stay. -/
theorem Channel.passes_set {channels : List (Channel α)} {i queue : Nat}
    {channel other after : Channel α} {sent received : Option α}
    (hchannel : channels[i]? = some channel) (hafter : (channels.set i other)[queue]? = some after)
    (hsame : i = queue → channel.Passes other sent received)
    (hothers : i ≠ queue → sent = none ∧ received = none) :
    ∃ before, channels[queue]? = some before ∧ before.Passes after sent received := by
  rcases eq_or_of_getElem?_set hafter with ⟨rfl, rfl⟩ | ⟨hqueue, hafter⟩
  · exact ⟨channel, hchannel, hsame rfl⟩
  · obtain ⟨rfl, rfl⟩ := hothers hqueue
    exact ⟨after, hafter, passes_of_queue rfl id⟩

namespace Worker

variable {handler : Handler α κ τ ω} {clock : Clock} {worker worker' : Worker α κ τ}
  {floor floor' : Floor α ω}

/-- What a worker receives is what it does by then. -/
theorem receipt_eq (hstep : Step handler clock worker floor worker' floor') :
    ((worker.deed? handler clock floor).bind Deed.receipt?).toList = worker.receipt worker' := by
  unfold receipt
  cases hstep with
  | receive hstage hchannel hholds hqueue =>
    rw [deed?_of_receive hstage hchannel hholds hqueue, hstage]
    rfl
  | exhaust hstage hchannel hqueue hclosed hholds =>
    rw [deed?_of_exhaust hstage hchannel hholds hqueue hclosed, hstage]
    rfl
  | acknowledge hstage =>
    rw [deed?_of_acknowledge hstage]
    rcases hstage with ⟨hstage, rfl⟩ | ⟨hstage, rfl⟩ <;> rw [hstage] <;> rfl
  | skip hstage hraised | start hstage hraised =>
    simp [deed?, hstage, hraised, Deed.receipt?]
  | go hstage hjob | finish hstage hjob | fail hstage hjob | crash hstage hjob =>
    simp [deed?, hstage, hjob, Deed.receipt?]
  | record hstage hrecord | overflow hstage hrecord =>
    simp [deed?, hstage, hrecord, Deed.receipt?]
  | prepare hstage | release hstage | leave hstage | close hstage =>
    simp [deed?, hstage, Deed.receipt?]

/-- What a worker does to the channels. -/
theorem passes_of_effect (h : Effect worker floor.depot worker' floor'.depot) {queue : Nat}
    {after : Channel (Batch α)} (hafter : floor'.depot.channels[queue]? = some after)
    {received : Option (Batch α)} (hreceived : received.toList = worker.receipt worker') :
    ∃ before, floor.depot.channels[queue]? = some before ∧
      before.Passes after none (if worker.queue = queue then received else none) := by
  have hnothing : worker.receipt worker' = [] → received = none := by
    intro hnil
    rw [hnil] at hreceived
    cases received with
    | none => rfl
    | some batch => cases hreceived
  cases h with
  | none hdone hdone' hholds hchannels =>
    rw [hnothing (receipt_eq_nil (Or.inr (Or.inr hholds.symm))), ite_self]
    exact ⟨after, hchannels ▸ hafter, Channel.passes_of_queue rfl id⟩
  | @receive channel batch rest hdone hdone' hstage hstage' hchannel hqueue hchannels =>
    rw [hchannels] at hafter
    refine Channel.passes_set hchannel hafter ?_ fun hne => ⟨rfl, if_neg hne⟩
    intro hsame
    have hbatch : received = some batch := by
      rw [receipt, hstage, hstage'] at hreceived
      cases received with
      | none => cases hreceived
      | some other => exact congrArg some (List.cons.inj hreceived).1
    rw [if_pos hsame, hbatch]
    exact ⟨by rw [hqueue]; exact List.append_nil _, fun hclosed => ⟨hclosed, rfl⟩⟩
  | acknowledge hdone hdone' hholds hidle hchannel hsent hchannels =>
    rw [hnothing (receipt_eq_nil (Or.inl hholds)), ite_self]
    rw [hchannels, Channel.acknowledge_eq hsent] at hafter
    exact Channel.passes_set hchannel hafter (fun _ => Channel.passes_of_queue rfl id)
      fun _ => ⟨rfl, rfl⟩
  | drop hdone hdone' hidle hidle' hchannels =>
    rw [hnothing (receipt_eq_nil (Or.inr (Or.inl hidle'))), ite_self]
    rw [hchannels, Depot.drop, Depot.modifyChannel, List.getElem?_modify] at hafter
    obtain ⟨before, hbefore, rfl⟩ := Option.map_eq_some_iff.mp hafter
    refine ⟨before, hbefore, ?_⟩
    split <;> exact Channel.passes_of_queue rfl id

/-- A worker comes to close only where its queue is closed and empty. -/
theorem closing_of_step (hstep : Step handler clock worker floor worker' floor')
    (hclosing : worker'.stage = .closing ∨ worker'.stage = .exited) :
    worker.stage = .closing ∨ floor'.depot = floor.depot ∧
      ∃ channel, floor.depot.channels[worker.queue]? = some channel ∧ channel.queue = [] ∧
        channel.isOpen = false := by
  cases hstep with
  | exhaust hstage hchannel hqueue hclosed hholds =>
    exact Or.inr ⟨rfl, _, hchannel, hqueue, hclosed⟩
  | close hstage => exact Or.inl hstage
  | acknowledge hstage =>
    rcases hstage with ⟨-, rfl⟩ | ⟨-, rfl⟩ <;> simp [goTo] at hclosing
  | _ => simp [goTo] at hclosing

end Worker

namespace Run

variable {workload : Workload α κ τ ω φ} {clock : Clock} {run next : Run α κ τ ω φ}
  {occurrence : Occurrence} {notes : List (Note α)}

/-! ## What a step does to the channels -/

/-- Only where a batch was offered something is sent. -/
theorem mainNote?_unsent (hsend : ∀ queue batch, run.scan.request? ≠ some (.send queue batch))
    (queue : Nat) :
    (run.mainNote? workload).bind (Note.sentTo? queue) = none := by
  unfold mainNote?
  split
  · split
    · rfl
    · split <;> rfl
    · split <;> rfl
    · next chosen batch hsent => exact absurd hsent (hsend chosen batch)
    · rfl
  · rfl

/-- What an answer to the scan does to the channels. -/
theorem passes_of_answers {request : Request α} {reply : Reply α} {depot : Depot α} {input : φ}
    (hstage : run.stage = .scanning) (hrequest : run.scan.request? = some request)
    (hanswers : Answers workload clock run request reply depot input) {queue : Nat}
    {after : Channel (Batch α)} (hafter : depot.channels[queue]? = some after) :
    ∃ before, run.crew.floor.depot.channels[queue]? = some before ∧
      before.Passes after ((run.mainNote? workload).bind (Note.sentTo? queue)) none := by
  cases hanswers with
  | @send chosen batch channel hchannel =>
    have hnote : run.mainNote? workload =
        some (.offered chosen batch (channel.offer batch).2) := by
      unfold mainNote?
      simp only [hstage, hrequest, hchannel, Option.map_some]
    rw [hnote, Option.bind_some]
    refine Channel.passes_set hchannel hafter ?_ ?_
    · rintro rfl
      have hoffer := channel.passes_offer batch
      cases houtcome : (channel.offer batch).2 <;> simpa [Note.sentTo?, houtcome] using hoffer
    · intro hne
      cases houtcome : (channel.offer batch).2 <;> simp [Note.sentTo?, hne]
  | credit hchannel hacks =>
    rw [mainNote?_unsent (by simp [hrequest])]
    exact Channel.passes_set hchannel hafter (fun _ => Channel.passes_of_queue rfl id)
      fun _ => ⟨rfl, rfl⟩
  | desert hchannel hlost =>
    rw [mainNote?_unsent (by simp [hrequest])]
    exact Channel.passes_set hchannel hafter (fun _ => Channel.passes_of_queue rfl id)
      fun _ => ⟨rfl, rfl⟩
  | stop | item | ended | unreadable | rewind | draw | goOn =>
    rw [mainNote?_unsent (by simp [hrequest])]
    exact ⟨after, hafter, Channel.passes_of_queue rfl id⟩

/-- What a step does to the channels. -/
theorem passes_step {move : Move} (hstep : Step workload clock run move next) {queue : Nat}
    {after : Channel (Batch α)} (hafter : next.crew.floor.depot.channels[queue]? = some after) :
    ∃ before, run.crew.floor.depot.channels[queue]? = some before ∧
      before.Passes after ((run.note? workload (.move clock move)).bind (Note.sentTo? queue))
        ((run.note? workload (.move clock move)).bind (Note.receivedFrom? queue)) := by
  have hreceived := (run.mainNote?_silent workload).2.1 queue
  have hdropped : ∀ {channels : List (Channel (Batch α))},
      (channels.map Channel.dropSender)[queue]? = some after →
        ∃ before, channels[queue]? = some before ∧ before.Passes after none none := by
    intro channels hafter
    rw [List.getElem?_map] at hafter
    obtain ⟨before, hbefore, rfl⟩ := Option.map_eq_some_iff.mp hafter
    exact ⟨before, hbefore, Channel.passes_of_queue rfl fun _ => rfl⟩
  cases hstep with
  | turn hstage hrequest hanswers =>
    rw [note?, hreceived]
    exact passes_of_answers hstage hrequest hanswers hafter
  | lose hstage hrequest hnext =>
    rw [note?, hreceived, mainNote?_unsent (by simp [hrequest])]
    exact hdropped hafter
  | scanned hstage hrequest =>
    rw [note?, hreceived, mainNote?_unsent (by simp [hrequest])]
    rw [run.scanned_eq.2.2.2] at hafter
    exact ⟨after, hafter, Channel.passes_of_queue rfl id⟩
  | close hstage =>
    rw [note?, mainNote?_behind (Or.inl hstage)]
    exact hdropped hafter
  | join hstage hdone =>
    rw [note?, mainNote?_behind (Or.inr hstage)]
    exact ⟨after, hafter, Channel.passes_of_queue rfl id⟩
  | @work index worker worker' floor hworker hstep =>
    obtain ⟨before, hbefore, hpasses⟩ := Worker.passes_of_effect (Worker.effect_of_step hstep)
      hafter (Worker.receipt_eq hstep)
    refine ⟨before, hbefore, ?_⟩
    rw [note?, hworker, Option.bind_some]
    cases hdeed : worker.deed? workload.handler clock run.crew.floor with
    | none => simpa [hdeed] using hpasses
    | some deed => simpa [hdeed, Note.sentTo?, Note.receivedFrom?] using hpasses

/-- No step makes a channel or takes one away. -/
theorem length_channels_step {move : Move} (hstep : Step workload clock run move next) :
    next.crew.floor.depot.channels.length = run.crew.floor.depot.channels.length := by
  cases hstep with
  | turn hstage hrequest hanswers =>
    cases hanswers with
    | send | credit | desert => exact List.length_set
    | _ => rfl
  | lose | close => exact List.length_map ..
  | scanned => rw [run.scanned_eq.2.2.2]
  | join => rfl
  | work hworker hstep =>
    have heffect := Worker.effect_of_step hstep
    cases heffect with
    | none _ _ _ hchannels => rw [hchannels]
    | receive _ _ _ _ _ _ hchannels | acknowledge _ _ _ _ _ _ hchannels =>
      rw [hchannels, List.length_set]
    | drop _ _ _ _ hchannels =>
      rw [hchannels, Depot.drop, Depot.modifyChannel, List.length_modify]

/-! ## The invariant -/

/-- Whether the channels of a run, one for each queue, carry what its notes say. -/
structure Carried (queues : Nat) (notes : List (Note α)) (run : Run α κ τ ω φ) : Prop where
  width : run.crew.floor.depot.channels.length = queues
  queue_eq : ∀ (queue : Nat) (channel : Channel (Batch α)),
    run.crew.floor.depot.channels[queue]? = some channel →
      sentTo queue notes = receivedFrom queue notes ++ channel.queue
  emptied : ∀ worker ∈ run.crew.workers, worker.stage = .closing ∨ worker.stage = .exited →
    ∀ channel : Channel (Batch α), run.crew.floor.depot.channels[worker.queue]? = some channel →
      channel.queue = [] ∧ channel.isOpen = false

variable {queues : Nat}

/-- A step carries on. -/
theorem Carried.step (h : run.Carried queues notes) {move : Move}
    (hstep : Step workload clock run move next) :
    next.Carried queues (notes ++ (run.note? workload (.move clock move)).toList) where
  width := (length_channels_step hstep).trans h.width
  queue_eq := by
    intro queue after hafter
    obtain ⟨before, hbefore, hpasses⟩ := passes_step hstep hafter
    rw [sentTo, receivedFrom, filterMap_concat, filterMap_concat, List.append_assoc,
      ← hpasses.queue_eq, ← List.append_assoc]
    exact congrArg (· ++ _) (h.queue_eq queue before hbefore)
  emptied := by
    intro worker hworker hclosing after hafter
    obtain ⟨before, hbefore, hpasses⟩ := passes_step hstep hafter
    -- A worker that closes has found its queue empty now, or did before.
    have hold : ∀ before ∈ run.crew.workers, before.queue = worker.queue →
        before.stage = .closing ∨ before.stage = .exited →
          after.queue = [] ∧ after.isOpen = false := by
      intro earlier hmem hqueue hearlier
      obtain ⟨hnil, hclosed⟩ := h.emptied earlier hmem hearlier before (hqueue ▸ hbefore)
      exact hpasses.emptied hnil hclosed
    cases move with
    | main pick =>
      rw [(main_step hstep).1] at hworker
      exact hold worker hworker rfl hclosing
    | worker index =>
      cases hstep with
      | @work _ stepped worker' floor hstepped hstep =>
        rcases List.mem_or_eq_of_mem_set hworker with hworker | rfl
        · exact hold worker hworker rfl hclosing
        · have hqueue : worker.queue = stepped.queue :=
            (Prod.mk.inj (Worker.place_of_step hstep)).1
          rcases Worker.closing_of_step hstep hclosing with hclosing | ⟨hdepot, hfound⟩
          · exact hold stepped (List.mem_of_getElem? hstepped) hqueue.symm (Or.inl hclosing)
          · obtain ⟨channel, hchannel, hnil, hclosed⟩ := hfound
            have hsame : floor.depot.channels[worker.queue]? = some after := hafter
            rw [hdepot, hqueue, hchannel] at hsame
            obtain rfl := Option.some.inj hsame
            exact ⟨hnil, hclosed⟩

/-- Whatever occurs, what goes into a queue comes out of it. -/
theorem carried_occur (h : run.Carried queues notes)
    (hoccur : run.occur? workload occurrence = some next) :
    next.Carried queues (notes ++ (run.note? workload occurrence).toList) := by
  cases occurrence with
  | move clock move => exact h.step (step?_sound hoccur)
  | period timestamp took previous =>
    obtain rfl := Option.some.inj hoccur
    have hsent : ∀ queue, sentTo queue (notes ++ [Note.period timestamp took previous]) =
        sentTo queue notes := fun queue => filterMap_concat_of_none notes rfl
    have hreceived : ∀ queue, receivedFrom queue (notes ++ [Note.period timestamp took previous]) =
        receivedFrom queue notes := fun queue => filterMap_concat_of_none notes rfl
    refine ⟨h.width, ?_, h.emptied⟩
    intro queue channel hchannel
    rw [note?, Option.toList_some, hsent, hreceived]
    exact h.queue_eq queue channel hchannel

end Run

end LoadBench
