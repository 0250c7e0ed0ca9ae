/-
  LoadBench.Proofs.Crew.Step

  The steps of a worker.  `Worker.Step` lists what one step of a worker can do,
  stage by stage, with everything it changes; `step?_sound` says that a worker
  does nothing else.  What follows about workers goes through this list.
-/

import LoadBench.Crew
import LoadBench.Proofs.Lists

namespace LoadBench

variable {α κ τ ω : Type}

namespace Worker

/-- What a step of a worker may do. -/
inductive Step (handler : Handler α κ τ ω) (clock : Clock) (worker : Worker α κ τ)
    (floor : Floor α ω) : Worker α κ τ → Floor α ω → Prop where
  | prepare {world : ω} {kept : κ} {fault : Option Fault} (hstage : worker.stage = .starting)
      (hprepare : handler.prepare worker.kept worker.post floor.surroundings.world =
        (world, kept, fault)) :
      Step handler clock worker floor { worker with kept, stage := .receiving }
        ((floor.withWorld world).raise? fault)
  | receive {channel : Channel (Batch α)} {batch : Batch α} {rest : List (Batch α)}
      (hstage : worker.stage = .receiving)
      (hchannel : floor.depot.channels[worker.queue]? = some channel)
      (hholds : channel.holds worker.endpoint = true) (hqueue : channel.queue = batch :: rest) :
      Step handler clock worker floor (worker.goTo (.holding batch))
        { floor with depot := floor.depot.setChannel worker.queue { channel with queue := rest } }
  | exhaust {channel : Channel (Batch α)} (hstage : worker.stage = .receiving)
      (hchannel : floor.depot.channels[worker.queue]? = some channel)
      (hqueue : channel.queue = []) (hclosed : channel.isOpen = false)
      (hholds : channel.holds worker.endpoint = true) :
      Step handler clock worker floor (worker.goTo .closing) floor
  | skip {batch : Batch α} (hstage : worker.stage = .holding batch)
      (hraised : floor.alarm.isRaised = true) :
      Step handler clock worker floor (worker.goTo (.releasing batch)) floor
  | start {batch : Batch α} (hstage : worker.stage = .holding batch)
      (hquiet : floor.alarm.isRaised = false) :
      Step handler clock worker floor
        (worker.goTo (.working batch (handler.start worker.kept batch worker.post.loadEnabled
          floor.surroundings.limit.isLimited))) floor
  | go {batch : Batch α} {job next : τ} {surroundings : Surroundings ω}
      (hstage : worker.stage = .working batch job)
      (hjob : handler.step clock job floor.surroundings = (surroundings, .going next)) :
      Step handler clock worker floor (worker.goTo (.working batch next))
        { floor with surroundings }
  | finish {batch : Batch α} {job : τ} {surroundings : Surroundings ω} {measured : Measurements}
      (hstage : worker.stage = .working batch job)
      (hjob : handler.step clock job floor.surroundings = (surroundings, .done measured)) :
      Step handler clock worker floor (worker.goTo (.recording batch measured))
        { floor with surroundings }
  | fail {batch : Batch α} {job : τ} {surroundings : Surroundings ω} {fault : Fault}
      (hstage : worker.stage = .working batch job)
      (hjob : handler.step clock job floor.surroundings = (surroundings, .failed fault)) :
      Step handler clock worker floor (worker.goTo (.releasing batch))
        (Floor.raise { floor with surroundings } fault)
  | crash {batch : Batch α} {job : τ} {surroundings : Surroundings ω}
      (hstage : worker.stage = .working batch job)
      (hjob : handler.step clock job floor.surroundings = (surroundings, .panicked)) :
      Step handler clock worker floor (worker.goTo .unwinding)
        (Floor.raise { floor with surroundings } (panicFault worker.post.worker))
  | record {batch : Batch α} {measured : Measurements} {ledger : Ledger}
      (hstage : worker.stage = .recording batch measured)
      (hrecord : floor.ledger.record measured = (ledger, true)) :
      Step handler clock worker floor (worker.goTo (.releasing batch)) { floor with ledger }
  | overflow {batch : Batch α} {measured : Measurements} {ledger : Ledger}
      (hstage : worker.stage = .recording batch measured)
      (hrecord : floor.ledger.record measured = (ledger, false)) :
      Step handler clock worker floor (worker.goTo .unwinding)
        (Floor.raise { floor with ledger } (panicFault worker.post.worker))
  | release {batch : Batch α} (hstage : worker.stage = .releasing batch) :
      Step handler clock worker floor (worker.goTo .crediting)
        { floor with depot := floor.depot.release batch }
  | acknowledge {next : WorkerStage α τ} {channel acknowledged : Channel (Batch α)}
      (hstage : worker.stage = .crediting ∧ next = .receiving ∨
        worker.stage = .unwinding ∧ next = .leaving)
      (hchannel : floor.depot.channels[worker.queue]? = some channel)
      (hsent : channel.acknowledge worker.endpoint = (acknowledged, .sent)) :
      Step handler clock worker floor (worker.goTo next)
        { floor with depot := floor.depot.setChannel worker.queue acknowledged }
  | leave (hstage : worker.stage = .leaving) :
      Step handler clock worker floor (worker.goTo .panicked) (worker.dropEndpoint floor)
  | close {world : ω} {kept : κ} (hstage : worker.stage = .closing)
      (hfinish : handler.finish worker.kept floor.surroundings.world = (world, kept)) :
      Step handler clock worker floor { worker with kept, stage := .exited }
        (worker.dropEndpoint (floor.withWorld world))

variable {handler : Handler α κ τ ω} {clock : Clock} {worker worker' : Worker α κ τ}
  {floor floor' : Floor α ω}

/-- An acknowledgment that has been sent. -/
theorem acknowledge?_eq_some {next : WorkerStage α τ}
    (h : worker.acknowledge? floor next = some (worker', floor')) :
    ∃ channel acknowledged, floor.depot.channels[worker.queue]? = some channel ∧
      channel.acknowledge worker.endpoint = (acknowledged, .sent) ∧ worker' = worker.goTo next ∧
      floor' = { floor with depot := floor.depot.setChannel worker.queue acknowledged } := by
  unfold acknowledge? Depot.acknowledge at h
  cases hchannel : floor.depot.channels[worker.queue]? with
  | none => simp [hchannel] at h
  | some channel =>
    simp only [hchannel] at h
    cases hsent : channel.acknowledge worker.endpoint with
    | mk acknowledged outcome =>
      cases outcome with
      | sent =>
        simp only [hsent, Option.some.injEq, Prod.mk.injEq] at h
        exact ⟨channel, acknowledged, rfl, hsent, h.1.symm, h.2.symm⟩
      | blocked => simp [hsent] at h
      | gone => simp [hsent] at h

/-- A worker makes no other steps. -/
theorem step?_sound (h : worker.step? handler clock floor = some (worker', floor')) :
    Step handler clock worker floor worker' floor' := by
  -- Stage by stage, in the order in which `step?` has them.
  unfold step? at h
  split at h
  · next hstage =>
    obtain ⟨rfl, rfl⟩ := Prod.mk.inj (Option.some.inj h)
    exact .prepare hstage rfl
  · next hstage =>
    unfold Depot.receive at h
    cases hchannel : floor.depot.channels[worker.queue]? with
    | none => simp [hchannel] at h
    | some channel =>
      simp only [hchannel] at h
      unfold Channel.receive at h
      by_cases hholds : channel.holds worker.endpoint = true
      · rw [if_neg (not_not_intro hholds)] at h
        cases hqueue : channel.queue with
        | cons batch rest =>
          simp only [hqueue, Option.some.injEq, Prod.mk.injEq] at h
          obtain ⟨rfl, rfl⟩ := h
          exact .receive hstage hchannel hholds hqueue
        | nil =>
          by_cases hopen : channel.isOpen = true
          · simp [hqueue, hopen] at h
          · simp only [hqueue, hopen, Bool.false_eq_true, if_false, Option.some.injEq,
              Prod.mk.injEq] at h
            obtain ⟨rfl, rfl⟩ := h
            exact .exhaust hstage hchannel hqueue (Bool.eq_false_iff.mpr hopen) hholds
      · rw [if_pos hholds] at h
        cases h
  · next batch hstage =>
    by_cases hraised : floor.alarm.isRaised = true
    · rw [if_pos hraised] at h
      obtain ⟨rfl, rfl⟩ := Prod.mk.inj (Option.some.inj h)
      exact .skip hstage hraised
    · rw [if_neg hraised] at h
      obtain ⟨rfl, rfl⟩ := Prod.mk.inj (Option.some.inj h)
      exact .start hstage (Bool.eq_false_iff.mpr hraised)
  · next batch job hstage =>
    unfold work at h
    cases hjob : handler.step clock job floor.surroundings with
    | mk surroundings progress =>
      simp only [hjob] at h
      cases progress with
      | going next =>
        obtain ⟨rfl, rfl⟩ := Prod.mk.inj (Option.some.inj h)
        exact .go hstage hjob
      | done measured =>
        obtain ⟨rfl, rfl⟩ := Prod.mk.inj (Option.some.inj h)
        exact .finish hstage hjob
      | failed fault =>
        obtain ⟨rfl, rfl⟩ := Prod.mk.inj (Option.some.inj h)
        exact .fail hstage hjob
      | panicked =>
        obtain ⟨rfl, rfl⟩ := Prod.mk.inj (Option.some.inj h)
        exact .crash hstage hjob
  · next batch measured hstage =>
    cases hrecord : floor.ledger.record measured with
    | mk ledger complete =>
      cases complete with
      | true =>
        simp only [hrecord, Option.some.injEq, Prod.mk.injEq] at h
        obtain ⟨rfl, rfl⟩ := h
        exact .record hstage hrecord
      | false =>
        simp only [hrecord, Option.some.injEq] at h
        obtain ⟨rfl, rfl⟩ := Prod.mk.inj h
        exact .overflow hstage hrecord
  · next batch hstage =>
    obtain ⟨rfl, rfl⟩ := Prod.mk.inj (Option.some.inj h)
    exact .release hstage
  · next hstage =>
    obtain ⟨channel, acknowledged, hchannel, hsent, rfl, rfl⟩ := acknowledge?_eq_some h
    exact .acknowledge (Or.inl ⟨hstage, rfl⟩) hchannel hsent
  · next hstage =>
    obtain ⟨channel, acknowledged, hchannel, hsent, rfl, rfl⟩ := acknowledge?_eq_some h
    exact .acknowledge (Or.inr ⟨hstage, rfl⟩) hchannel hsent
  · next hstage =>
    obtain ⟨rfl, rfl⟩ := Prod.mk.inj (Option.some.inj h)
    exact .leave hstage
  · next hstage =>
    obtain ⟨rfl, rfl⟩ := Prod.mk.inj (Option.some.inj h)
    exact .close hstage rfl
  · cases h
  · cases h

end Worker

end LoadBench
