/-
  LoadBench.Proofs.Run.Kept

  The invariant of a run.  Until its channels are dropped a run is an exchange
  (`Run.Pictured`): its scan and its channels are those of the exchange, and the
  batches that its workers hold are those that the workers of the exchange have
  received and not acknowledged.  Each step of the run is a step of the exchange
  or none, so the run inherits what holds of exchanges.
-/

import LoadBench.Proofs.Exchange.Kept
import LoadBench.Proofs.Run.Step

namespace LoadBench

variable {α κ τ ω φ : Type}

namespace Run

/-- Whether an exchange shows what the scan and the workers of a run have done. -/
structure Pictured (run : Run α κ τ ω φ) (exchange : Exchange α) : Prop where
  scan_eq : exchange.scan = run.scan
  channels_eq : exchange.channels = run.crew.floor.depot.channels
  held_eq : ∀ queue, exchange.held queue = run.crew.heldOn queue

variable {workload : Workload α κ τ ω φ} {clock : Clock} {run next : Run α κ τ ω φ}
  {exchange : Exchange α} {plan : ScanPlan} {routing : Routing α}

/-! ## Steps of the scan -/

/-- What a depot leaves when it answers the scan: the endpoints are as before, and batches that
nobody uses have no items. -/
theorem Answers.depot {request : Request α} {reply : Reply α} {depot : Depot α} {input : φ}
    (h : Answers workload clock run request reply depot input)
    (hclean : run.crew.floor.depot.pool.Clean) :
    (∀ queue endpoint, depot.holds queue endpoint = run.crew.floor.depot.holds queue endpoint) ∧
      depot.pool.Clean := by
  cases h with
  | draw => exact ⟨fun _ _ => rfl, BatchPool.clean_acquire hclean⟩
  | @send queue batch channel hchannel =>
    have hendpoints : (channel.offer batch).1.endpoints = channel.endpoints := by
      rcases channel.offer_cases batch with hoffer | ⟨offer, hoffer, -⟩ <;> rw [hoffer]
    exact ⟨Depot.holds_set hchannel hendpoints rfl, hclean⟩
  | credit hchannel hacks => exact ⟨Depot.holds_set hchannel (by rfl) rfl, hclean⟩
  | desert hchannel hlost => exact ⟨Depot.holds_set hchannel (by rfl) rfl, hclean⟩
  | _ => exact ⟨fun _ _ => rfl, hclean⟩

/-- An answer to the scan is a turn of the exchange. -/
theorem Pictured.served (h : run.Pictured exchange) (shown : Exchange α)
    (hscan : shown.scan = exchange.scan) (hheld : shown.held = exchange.held) {depot : Depot α}
    (hchannels : shown.channels = depot.channels) (request : Request α) (reply : Reply α)
    (input : φ) :
    (run.served reply depot input).Pictured (shown.answered request reply) where
  scan_eq := by
    show shown.scan.resume reply = run.scan.resume reply
    rw [hscan, h.scan_eq]
  channels_eq := hchannels
  held_eq := by
    intro queue
    show shown.held queue = run.crew.heldOn queue
    rw [hheld]
    exact h.held_eq queue

/-- An answer to the scan of a run is an answer to that of the exchange. -/
theorem Pictured.turn (h : run.Pictured exchange) (hclean : run.crew.floor.depot.pool.Clean)
    {request : Request α} {reply : Reply α} {depot : Depot α} {input : φ}
    (hrequest : run.scan.request? = some request)
    (hanswers : Answers workload clock run request reply depot input) :
    ∃ shown, Exchange.Step exchange shown ∧ (run.served reply depot input).Pictured shown ∧
      shown.log = exchange.log ++ [⟨request, reply⟩] ∧ shown.received = exchange.received := by
  rw [← h.scan_eq] at hrequest
  -- What comes from outside leaves the channels as they are.
  have houtside : depot.channels = run.crew.floor.depot.channels →
      request.admits exchange.scan.plan.queues reply = true → reply.isOutside = true →
      ∃ shown, Exchange.Step exchange shown ∧ (run.served reply depot input).Pictured shown ∧
        shown.log = exchange.log ++ [⟨request, reply⟩] ∧ shown.received = exchange.received := by
    intro hchannels hadmits hreply
    exact ⟨exchange.answered request reply, .answer hrequest hadmits hreply,
      h.served exchange rfl rfl (h.channels_eq.trans hchannels.symm) request reply input, rfl, rfl⟩
  cases hanswers with
  | stop => exact houtside rfl rfl rfl
  | item hnext => exact houtside rfl rfl rfl
  | ended hnext => exact houtside rfl rfl rfl
  | unreadable hnext => exact houtside rfl rfl rfl
  | @rewind _ again hagain => cases again <;> exact houtside rfl rfl rfl
  | goOn => exact houtside rfl rfl rfl
  | draw => exact houtside rfl (List.isEmpty_iff.mpr (BatchPool.items_acquire hclean)) rfl
  | @send queue batch channel hchannel =>
    rw [← h.channels_eq] at hchannel
    refine ⟨_, .offer hrequest hchannel,
      h.served (exchange.withChannel queue _) rfl rfl ?_ (.send queue batch) _ _, rfl, rfl⟩
    exact congrArg (fun channels => List.set channels queue _) h.channels_eq
  | @credit wait queue channel hchannel hacks =>
    rw [← h.channels_eq] at hchannel
    refine ⟨_, .credit hrequest hchannel hacks,
      h.served (exchange.withChannel queue _) rfl rfl ?_ (.acknowledgment wait) _ _, rfl, rfl⟩
    exact congrArg (fun channels => List.set channels queue _) h.channels_eq
  | @desert wait queue channel hchannel hlost =>
    have hsame :
        run.crew.floor.depot.channels.set queue channel = run.crew.floor.depot.channels := by
      obtain ⟨hlt, hget⟩ := List.getElem?_eq_some_iff.mp hchannel
      rw [← hget, List.set_getElem_self]
    rw [← h.channels_eq] at hchannel
    refine ⟨_, .desert hrequest hchannel hlost,
      h.served exchange rfl rfl ?_ (.acknowledgment wait) _ _, rfl, rfl⟩
    exact h.channels_eq.trans hsame.symm

/-! ## Steps of the workers -/

/-- Whether an exchange follows a worker to another that shows what the run is then. -/
structure Mirrors (exchange : Exchange α) (worker worker' : Worker α κ τ) (next : Run α κ τ ω φ)
    (shown : Exchange α) : Prop where
  moved : shown = exchange ∨ Exchange.Step exchange shown
  pictured : next.Pictured shown
  log_eq : shown.log = exchange.log
  received_eq : ∀ queue, shown.received queue = exchange.received queue ++
    if worker.queue = queue then worker.receipt worker' else []

section Workers

variable {index : Nat} {worker worker' : Worker α κ τ} {floor : Floor α ω}
  {channel : Channel (Batch α)}

/-- The batches held change with the worker, in the queue it works at. -/
theorem Pictured.held_set (h : run.Pictured exchange)
    (hworker : run.crew.workers[index]? = some worker) (hqueue : worker'.queue = worker.queue)
    (floor : Floor α ω) (queue : Nat) :
    Crew.heldOn ⟨run.crew.workers.set index worker', floor⟩ queue +
        (if worker.queue = queue ∧ worker.holdsBatch = true then 1 else 0) =
      exchange.held queue +
        if worker.queue = queue ∧ worker'.holdsBatch = true then 1 else 0 := by
  rw [h.held_eq]
  exact Crew.heldOn_set hworker hqueue queue

/-- What a worker does that holds as many batches as before, and receives none. -/
theorem Pictured.mirrors_of_holdsBatch (h : run.Pictured exchange)
    (hworker : run.crew.workers[index]? = some worker) (hqueue : worker'.queue = worker.queue)
    (hholds : worker'.holdsBatch = worker.holdsBatch) {shown : Exchange α}
    (hmoved : shown = exchange ∨ Exchange.Step exchange shown) (hscan : shown.scan = exchange.scan)
    (hlog : shown.log = exchange.log) (hheld : shown.held = exchange.held)
    (hreceived : shown.received = exchange.received)
    (hchannels : shown.channels = floor.depot.channels) :
    Mirrors exchange worker worker' { run with crew := ⟨run.crew.workers.set index worker', floor⟩ }
      shown := by
  refine ⟨hmoved, ⟨hscan.trans h.scan_eq, hchannels, ?_⟩, hlog, ?_⟩
  · intro queue
    have hset := h.held_set hworker hqueue floor queue
    rw [hholds] at hset
    rw [hheld]
    exact (Nat.add_right_cancel hset).symm
  · intro queue
    rw [hreceived, Worker.receipt_eq_nil (Or.inr (Or.inr hholds.symm)), ite_self, List.append_nil]

/-- A worker receives a batch, and a worker of the exchange does. -/
theorem Pictured.mirrors_receive (h : run.Pictured exchange) (hlinked : exchange.Linked plan)
    (hworker : run.crew.workers[index]? = some worker) (hqueue : worker'.queue = worker.queue)
    {batch : Batch α} {rest : List (Batch α)} (hstage : worker.stage = .receiving)
    (hstage' : worker'.stage = .holding batch)
    (hchannel : exchange.channels[worker.queue]? = some channel)
    (hbatch : channel.queue = batch :: rest)
    (hchannels : floor.depot.channels =
      exchange.channels.set worker.queue { channel with queue := rest }) :
    Mirrors exchange worker worker' { run with crew := ⟨run.crew.workers.set index worker', floor⟩ }
      ((exchange.withChannel worker.queue { channel with queue := rest }).receiving
        worker.queue batch) := by
  have howed := (hlinked.link worker.queue channel hchannel).owed
  have hidle : worker.holdsBatch = false := by rw [Worker.holdsBatch, hstage]
  have hholds : worker'.holdsBatch = true := by rw [Worker.holdsBatch, hstage']
  refine ⟨Or.inr (.receive hchannel hbatch), ⟨h.scan_eq, hchannels.symm, ?_⟩, rfl, ?_⟩
  · intro queue
    have hset := h.held_set hworker hqueue floor queue
    rw [hidle, hholds] at hset
    show (exchange.receiving worker.queue batch).held queue = _
    by_cases hsame : queue = worker.queue
    · subst hsame
      rw [Exchange.held_receiving howed]
      simpa using hset.symm
    · rw [Exchange.held_receiving_ne hsame]
      simpa [Ne.symm hsame] using hset.symm
  · intro queue
    show (exchange.receiving worker.queue batch).received queue = _
    rw [Worker.receipt, hstage, hstage']
    by_cases hsame : queue = worker.queue
    · subst hsame
      simp [Exchange.receiving]
    · simp [Exchange.receiving, hsame, Ne.symm hsame]

/-- A worker acknowledges its batch, and a worker of the exchange does. -/
theorem Pictured.mirrors_acknowledge (h : run.Pictured exchange) (hlinked : exchange.Linked plan)
    (hworker : run.crew.workers[index]? = some worker) (hqueue : worker'.queue = worker.queue)
    (hholds : worker.holdsBatch = true) (hidle : worker'.holdsBatch = false)
    (hchannel : exchange.channels[worker.queue]? = some channel)
    (hchannels : floor.depot.channels =
      exchange.channels.set worker.queue { channel with acks := channel.acks + 1 }) :
    Mirrors exchange worker worker' { run with crew := ⟨run.crew.workers.set index worker', floor⟩ }
      ((exchange.withChannel worker.queue { channel with acks := channel.acks + 1 }).acknowledging
        worker.queue) := by
  have hread := (hlinked.link worker.queue channel hchannel).isRead
  -- The worker itself is one of those that hold a batch.
  have hheld : 0 < exchange.held worker.queue := by
    rw [h.held_eq]
    refine List.countP_pos_iff.mpr ⟨worker, List.mem_of_getElem? hworker, ?_⟩
    rw [hholds, decide_eq_true rfl]
    rfl
  refine ⟨Or.inr (.acknowledge hchannel hread hheld), ⟨h.scan_eq, hchannels.symm, ?_⟩, rfl, ?_⟩
  · intro queue
    have hset := h.held_set hworker hqueue floor queue
    rw [hidle, hholds] at hset
    show (exchange.acknowledging worker.queue).held queue =
      Crew.heldOn ⟨run.crew.workers.set index worker', floor⟩ queue
    by_cases hsame : queue = worker.queue
    · subst hsame
      rw [Exchange.held_acknowledging]
      simp only [true_and, if_true, Bool.false_eq_true, and_false, if_false] at hset
      omega
    · rw [Exchange.held_acknowledging_ne hsame]
      simpa [Ne.symm hsame] using hset.symm
  · intro queue
    rw [Worker.receipt_eq_nil (Or.inl hholds), ite_self, List.append_nil]
    rfl

/-- What a worker does is done in the exchange. -/
theorem Pictured.work (h : run.Pictured exchange) (hlinked : exchange.Linked plan)
    (hworker : run.crew.workers[index]? = some worker) (hplace : worker'.place = worker.place)
    (heffect : Worker.Effect worker run.crew.floor.depot worker' floor.depot) :
    ∃ shown, Mirrors exchange worker worker'
      { run with crew := ⟨run.crew.workers.set index worker', floor⟩ } shown := by
  have hqueue : worker'.queue = worker.queue := (Prod.mk.inj hplace).1
  cases heffect with
  | none hdone hdone' hholds hchannels =>
    exact ⟨exchange, h.mirrors_of_holdsBatch hworker hqueue hholds (Or.inl rfl) rfl rfl rfl rfl
      (h.channels_eq.trans hchannels.symm)⟩
  | receive hdone hdone' hstage hstage' hchannel hbatch hchannels =>
    rw [← h.channels_eq] at hchannel hchannels
    exact ⟨_, h.mirrors_receive hlinked hworker hqueue hstage hstage' hchannel hbatch hchannels⟩
  | acknowledge hdone hdone' hholds hidle hchannel hsent hchannels =>
    rw [← h.channels_eq] at hchannel hchannels
    have hread := (hlinked.link worker.queue _ hchannel).isRead
    rw [Channel.acknowledge_sent hsent hread] at hchannels
    exact ⟨_, h.mirrors_acknowledge hlinked hworker hqueue hholds hidle hchannel hchannels⟩
  | drop hdone hdone' hidle hidle' hchannels =>
    -- To the exchange a dropped endpoint is a change of endpoints; a queue that does not exist has
    -- none.
    have hholds : worker'.holdsBatch = worker.holdsBatch := hidle'.trans hidle.symm
    have hmodify : floor.depot.channels =
        exchange.channels.modify worker.queue fun channel => channel.drop worker.endpoint := by
      rw [hchannels, h.channels_eq]
      rfl
    cases hchannel : exchange.channels[worker.queue]? with
    | none =>
      refine ⟨exchange, h.mirrors_of_holdsBatch hworker hqueue hholds (Or.inl rfl) rfl rfl rfl rfl
        ?_⟩
      rw [hmodify, List.modify_eq_self (List.getElem?_eq_none_iff.mp hchannel)]
    | some channel =>
      refine ⟨_, h.mirrors_of_holdsBatch hworker hqueue hholds
        (Or.inr (.endpoints (channel.endpoints.set worker.endpoint false) hchannel
          Channel.isHeld_of_drop))
        rfl rfl rfl rfl ?_⟩
      show exchange.channels.set _ _ = floor.depot.channels
      rw [hmodify, List.modify_eq_set_getElem?, hchannel]
      rfl

end Workers

/-! ## The invariant -/

/-- The invariant of a run. -/
structure Kept (plan : ScanPlan) (routing : Routing α) (run : Run α κ τ ω φ) : Prop where
  staffed : run.crew.Staffed
  clean : run.crew.floor.depot.pool.Clean
  pictured : run.stage = .scanning ∨ run.stage = .closing →
    ∃ exchange : Exchange α, exchange.Kept plan routing ∧ run.Pictured exchange
  dropped : run.stage = .joining ∨ run.stage = .panicked →
    ∀ channel ∈ run.crew.floor.depot.channels, channel.isOpen = false ∧ channel.isRead = false

/-- An exchange that shows a run follows an answer to its scan, and gives its own scan the same
answer. -/
theorem Kept.turned (h : run.Kept plan routing) (hkept : exchange.Kept plan routing)
    (hpicture : run.Pictured exchange) {request : Request α} {reply : Reply α} {depot : Depot α}
    {input : φ} (hrequest : run.scan.request? = some request)
    (hanswers : Answers workload clock run request reply depot input) :
    ∃ shown : Exchange α, shown.Kept plan routing ∧ (run.served reply depot input).Pictured shown ∧
      Exchange.Turned plan exchange shown ⟨request, reply⟩ := by
  obtain ⟨shown, hstep, hshown, hlog, -⟩ := hpicture.turn h.clean hrequest hanswers
  exact ⟨shown, Exchange.kept_step hkept hstep, hshown, Exchange.turned_of_log hkept hstep hlog⟩

/-- A run whose scan takes an answer keeps the invariant. -/
theorem Kept.answered (h : run.Kept plan routing) (hstage : run.stage = .scanning)
    {request : Request α} {reply : Reply α} {depot : Depot α} {input : φ}
    (hrequest : run.scan.request? = some request)
    (hanswers : Answers workload clock run request reply depot input) :
    (run.served reply depot input).Kept plan routing where
  staffed := h.staffed.withFloor (hanswers.depot h.clean).1
  clean := (hanswers.depot h.clean).2
  pictured := by
    intro _
    obtain ⟨exchange, hkept, hpicture⟩ := h.pictured (Or.inl hstage)
    obtain ⟨shown, hshown, hpicture', -⟩ := h.turned hkept hpicture hrequest hanswers
    exact ⟨shown, hshown, hpicture'⟩
  dropped := by
    intro hgone
    have hcontra : run.stage = .joining ∨ run.stage = .panicked := hgone
    rw [hstage] at hcontra
    rcases hcontra with hcontra | hcontra <;> cases hcontra

/-- A scan gets answers to what it asked, and stands where its phase says it does. -/
theorem Kept.turn (h : run.Kept plan routing) (hstage : run.stage = .scanning)
    {request : Request α} {reply : Reply α} {depot : Depot α} {input : φ}
    (hrequest : run.scan.request? = some request)
    (hanswers : Answers workload clock run request reply depot input) :
    request.admits plan.queues reply = true ∧ run.scan.plan = plan ∧
      run.scan.phase.Stands run.scan := by
  obtain ⟨exchange, hkept, hpicture⟩ := h.pictured (Or.inl hstage)
  obtain ⟨shown, -, -, hturned⟩ := h.turned hkept hpicture hrequest hanswers
  rw [← hpicture.scan_eq] at hrequest ⊢
  have hsound := hkept.sound hrequest
  exact ⟨hturned.admits, hsound.accounts.plan_eq, hsound.stands⟩

/-- What changes when the scan has returned. -/
theorem scanned_eq (run : Run α κ τ ω φ) : run.scanned.stage = .closing ∧
    run.scanned.scan = run.scan ∧ run.scanned.crew.workers = run.crew.workers ∧
      run.scanned.crew.floor.depot = run.crew.floor.depot := by
  unfold scanned
  dsimp only
  split <;> exact ⟨rfl, rfl, rfl, rfl⟩

/-- A run that goes on behind its scan keeps the invariant. -/
theorem Kept.behind (h : run.Kept plan routing) (hworkers : next.crew.workers = run.crew.workers)
    (hdepot : next.crew.floor.depot = run.crew.floor.depot)
    (hpictured : next.stage = .scanning ∨ next.stage = .closing →
      ∃ exchange : Exchange α, exchange.Kept plan routing ∧ next.Pictured exchange)
    (hdropped : next.stage = .joining ∨ next.stage = .panicked →
      ∀ channel ∈ next.crew.floor.depot.channels, channel.isOpen = false ∧ channel.isRead = false) :
    next.Kept plan routing where
  staffed := by
    have hstaffed : Crew.Staffed ⟨run.crew.workers, next.crew.floor⟩ :=
      h.staffed.withFloor fun _ _ => by rw [hdepot]
    rw [← hworkers] at hstaffed
    exact hstaffed
  clean := by
    rw [hdepot]
    exact h.clean
  pictured := hpictured
  dropped := hdropped

/-- A run that lets go of its channels keeps the invariant. -/
theorem Kept.letGo (h : run.Kept plan routing) (input : φ) {stage : RunStage}
    (hstage : ¬(stage = .scanning ∨ stage = .closing)) :
    (Run.letGo { run with input } stage).Kept plan routing where
  staffed := h.staffed.withFloor fun queue endpoint => by
    show Option.any _ (run.crew.floor.depot.channels.map Channel.dropSender)[queue]? = _
    rw [List.getElem?_map, Depot.holds]
    cases run.crew.floor.depot.channels[queue]? <;> rfl
  clean := h.clean
  pictured := fun hgoing => absurd hgoing hstage
  dropped := by
    intro _ channel hmem
    obtain ⟨before, -, rfl⟩ := List.mem_map.mp hmem
    exact ⟨rfl, rfl⟩

/-- A step keeps the invariant. -/
theorem kept_step (h : run.Kept plan routing) {move : Move}
    (hstep : Step workload clock run move next) : next.Kept plan routing := by
  cases hstep with
  | turn hstage hrequest hanswers => exact h.answered hstage hrequest hanswers
  | lose hstage hrequest hnext => exact h.letGo _ (by rintro (hgone | hgone) <;> cases hgone)
  | scanned hstage hrequest =>
    -- The exchange shows the run as before, for neither its scan nor its depot changes.
    obtain ⟨hstage', hscan, hworkers, hdepot⟩ := run.scanned_eq
    refine h.behind hworkers (by rw [hdepot]) ?_ ?_
    · intro _
      obtain ⟨exchange, hkept, hpicture⟩ := h.pictured (Or.inl hstage)
      refine ⟨exchange, hkept, hpicture.scan_eq.trans hscan.symm, ?_, fun queue => ?_⟩
      · rw [hdepot]
        exact hpicture.channels_eq
      · rw [Crew.heldOn, hworkers]
        exact hpicture.held_eq queue
    · intro hgone
      rw [hstage'] at hgone
      rcases hgone with hgone | hgone <;> cases hgone
  | close hstage => exact h.letGo run.input (by rintro (hgone | hgone) <;> cases hgone)
  | join hstage hdone =>
    refine ⟨h.staffed, h.clean, ?_, ?_⟩ <;> rintro (hgone | hgone) <;> cases hgone
  | @work index worker worker' floor hworker hstep =>
    have heffect := Worker.effect_of_step hstep
    have hplace := Worker.place_of_step hstep
    refine ⟨h.staffed.step hworker hplace heffect, Worker.clean_of_step hstep h.clean, ?_, ?_⟩
    · intro hgoing
      obtain ⟨exchange, hkept, hpicture⟩ := h.pictured hgoing
      obtain ⟨shown, hmirrors⟩ := hpicture.work hkept.linked hworker hplace heffect
      refine ⟨shown, ?_, hmirrors.pictured⟩
      rcases hmirrors.moved with rfl | hstep
      · exact hkept
      · exact Exchange.kept_step hkept hstep
    · intro hgone channel hmem
      obtain ⟨before, hbefore, hopen, hread⟩ := heffect.flags hmem
      rw [hopen, hread]
      exact h.dropped hgone before hbefore

/-! ## The start -/

/-- What a run starts with: a scan at its start, a fresh channel for each queue, and workers that
hold their endpoints and nothing else. -/
structure Begins (plan : ScanPlan) (routing : Routing α) (run : Run α κ τ ω φ) : Prop where
  queues_pos : 0 < plan.queues
  slots_pos : 0 < plan.slots
  stage_eq : run.stage = .scanning
  scan_eq : run.scan = Scan.start plan routing
  width : run.crew.floor.depot.channels.length = plan.queues
  fresh : ∀ channel ∈ run.crew.floor.depot.channels, channel.Fresh plan.slots
  clean : run.crew.floor.depot.pool.Clean
  staffed : run.crew.Staffed
  idle : ∀ worker ∈ run.crew.workers, worker.holdsBatch = false

theorem Begins.pictured (h : run.Begins plan routing) :
    run.Pictured (Exchange.start plan routing run.crew.floor.depot.channels) where
  scan_eq := h.scan_eq.symm
  channels_eq := rfl
  held_eq := by
    intro queue
    refine (List.countP_eq_zero.mpr fun worker hworker => ?_).symm
    rw [h.idle worker hworker, Bool.and_false]
    exact Bool.false_ne_true

theorem Begins.kept (h : run.Begins plan routing) : run.Kept plan routing where
  staffed := h.staffed
  clean := h.clean
  pictured := fun _ => ⟨_, Exchange.kept_start routing h.width h.fresh, h.pictured⟩
  dropped := by
    intro hgone
    rw [h.stage_eq] at hgone
    rcases hgone with hgone | hgone <;> cases hgone

/-- Makes the steps of a list of moves, each at the time its clock shows. -/
def follow? (workload : Workload α κ τ ω φ) (moves : List (Clock × Move)) (run : Run α κ τ ω φ) :
    Option (Run α κ τ ω φ) :=
  LoadBench.follow? (fun move run => run.step? workload move.1 move.2) moves run

/-- Every move keeps the invariant. -/
theorem kept_follow {moves : List (Clock × Move)} (h : run.Kept plan routing)
    (hmoves : run.follow? workload moves = some next) : next.Kept plan routing :=
  follow?_preserves (fun _ _ _ hkept hstep => kept_step hkept (step?_sound hstep)) h hmoves

end Run

end LoadBench
