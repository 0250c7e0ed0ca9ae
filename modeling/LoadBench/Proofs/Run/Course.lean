/-
  LoadBench.Proofs.Run.Course

  Runs in which nothing goes wrong.  An assignment says what a run is to do: which
  items its input gives, and which samples they come to.  A run that is on course
  (`Run.OnCourse`) is in one of three states.

    * It scans: its exchange is calm, what was read and what the input has left
      are all items, and what the workers received is recorded or owed.
    * It has scanned: no batch waits, and what is recorded or owed is what all
      items up to the limit come to.
    * It is over, and all of that is recorded.

  Every step of such a run leads to such a run again, and nearer to its end
  (`OnCourse.step`), whoever makes it.
-/

import LoadBench.Proofs.Crew.Balance
import LoadBench.Proofs.Exchange.Calm
import LoadBench.Proofs.Run.Progress
import LoadBench.Proofs.Scan.Weight

namespace LoadBench

variable {α κ τ ω φ : Type}

/-! ## Assignments -/

/-- What a run is to do. -/
structure Assignment (α κ τ φ : Type) where
  plan : ScanPlan
  routing : Routing α
  contract : Contract α κ τ
  /-- All items of the input. -/
  items : List α
  /-- Whether an input has certain items left. -/
  left : φ → List α → Prop

namespace Assignment

/-- The items that are read: all of them, or the first ones up to the limit. -/
def portion (task : Assignment α κ τ φ) : List α :=
  if task.plan.limit = 0 then task.items else task.items.take task.plan.limit

/-- The samples to be recorded. -/
def samples (task : Assignment α κ τ φ) : Multiset Sample := task.contract.total task.portion

end Assignment

/-- Whether a workload can do what it is assigned: its handler meets the contract, every item has a
queue, and the input gives its items one after another and cannot be had again. -/
structure Workload.Suits (workload : Workload α κ τ ω φ) (task : Assignment α κ τ φ) : Prop where
  meets : workload.handler.Meets task.contract
  routed : ∀ position item, task.routing position item < task.plan.queues
  item : ∀ {input item rest}, task.left input (item :: rest) →
    ∃ after, workload.next input = (after, .item item) ∧ task.left after rest
  ended : ∀ {input}, task.left input [] →
    ∃ after, workload.next input = (after, .ended) ∧ task.left after []
  again : ∀ {input rest}, task.left input rest →
    ∃ after, workload.again input = (after, .ok false) ∧ task.left after rest
  countable : Sample.Countable task.samples

/-- An input of a workload that suits can be read. -/
theorem Workload.Suits.readable {workload : Workload α κ τ ω φ} {task : Assignment α κ τ φ}
    (h : workload.Suits task) {input after : φ} {rest : List α} (hleft : task.left input rest)
    {reading : Reading α} (hnext : workload.next input = (after, reading)) :
    reading = .ended ∨ ∃ item, reading = .item item := by
  cases rest with
  | nil =>
    obtain ⟨other, hended, -⟩ := h.ended hleft
    exact Or.inl (Prod.mk.inj (hnext.symm.trans hended)).2
  | cons item rest =>
    obtain ⟨other, hitem, -⟩ := h.item hleft
    exact Or.inr ⟨item, (Prod.mk.inj (hnext.symm.trans hitem)).2⟩

/-! ## On course -/

namespace Run

/-- Whether what an exchange has read and what is left are all items. -/
structure Reads (items : List α) (rest : List α) (exchange : Exchange α) : Prop where
  items_eq : items = itemsOf exchange.log ++ rest
  answered : answersOf exchange.log <+: items.map some ++ [none]

/-- A run that scans, and goes well. -/
structure Scanning (task : Assignment α κ τ φ) (rest : List α) (run : Run α κ τ ω φ) : Prop where
  stage_eq : run.stage = .scanning
  left : task.left run.input rest
  /-- All workers listen to their queues. -/
  listening : ∀ worker ∈ run.crew.workers, worker.isDone = false ∧ worker.stage ≠ .closing
  shown : ∃ exchange : Exchange α, exchange.Calm task.plan task.routing ∧ run.Pictured exchange ∧
    Reads task.items rest exchange ∧
    run.crew.Balanced task.contract (exchange.receivedItems task.plan.queues)

/-- A run that has scanned, and went well. -/
structure Scanned (task : Assignment α κ τ φ) (run : Run α κ τ ω φ) : Prop where
  stage_eq : run.stage = .closing ∨ run.stage = .joining
  returned : ∃ tally, run.scan.result? = some (.ok tally)
  empty : run.crew.floor.depot.waiting = 0
  balanced : run.crew.Balanced task.contract task.portion

/-- A run that is over, and went well. -/
structure Finished (task : Assignment α κ τ φ) (run : Run α κ τ ω φ) : Prop where
  stage_eq : ∃ tally, run.stage = .over (.ok tally)
  isDone : run.crew.isDone = true
  recorded : run.crew.floor.ledger.Holds task.samples

/-- A run in which nothing has gone wrong, with what its input has left while it scans. -/
structure OnCourse (task : Assignment α κ τ φ) (rest : List α) (run : Run α κ τ ω φ) : Prop where
  kept : run.Kept task.plan task.routing
  timeless : run.duration = none
  served : ∀ queue < task.plan.queues, ∃ worker ∈ run.crew.workers, worker.queue = queue
  stands : Scanning task rest run ∨ Scanned task run ∨ Finished task run

variable {workload : Workload α κ τ ω φ} {task : Assignment α κ τ φ} {clock : Clock}
  {run next : Run α κ τ ω φ} {exchange : Exchange α} {rest : List α}

/-! ## What is read -/

/-- What a calm exchange has read is a part of the portion. -/
theorem Reads.prefix_portion (h : Reads task.items rest exchange)
    (hcalm : exchange.Calm task.plan task.routing) : itemsOf exchange.log <+: task.portion := by
  have hbegins : itemsOf exchange.log <+: task.items := ⟨rest, h.items_eq.symm⟩
  have haccounts := hcalm.sound.accounts
  have hwithin := hcalm.reading.read.within
  rw [haccounts.plan_eq, haccounts.read] at hwithin
  unfold Assignment.portion
  split
  · exact hbegins
  · next hlimit =>
    exact List.prefix_take_iff.mpr ⟨hbegins, hwithin (Nat.pos_of_ne_zero hlimit)⟩

/-- The samples of what was received are among those to be recorded. -/
theorem Reads.countable (h : Reads task.items rest exchange)
    (hcalm : exchange.Calm task.plan task.routing)
    (hrouted : ∀ position item, task.routing position item < task.plan.queues)
    (hcountable : Sample.Countable task.samples) :
    Sample.Countable (task.contract.total (exchange.receivedItems task.plan.queues)) := by
  refine hcountable.mono ?_
  -- What was received was read, and what was read belongs to the portion.
  have hpart : exchange.receivedItems task.plan.queues ≤ task.portion :=
    le_trans (hcalm.received_le hrouted)
      (Multiset.coe_le.mpr (h.prefix_portion hcalm).sublist.subperm)
  obtain ⟨others, hothers⟩ := Multiset.le_iff_exists_add.mp hpart
  rw [Assignment.samples, hothers, Contract.total, Contract.total, Multiset.add_bind]
  exact Multiset.le_add_right _ _

/-- A turn that answers for no item leaves what is read. -/
theorem Reads.turn (h : Reads task.items rest exchange) {shown : Exchange α} {turn : Turn α}
    (hlog : shown.log = exchange.log ++ [turn]) (hturn : turn.answer? = none) :
    Reads task.items rest shown where
  items_eq := by
    rw [hlog, itemsOf_append_of_none _ (by rw [Turn.item?_eq, hturn]; rfl)]
    exact h.items_eq
  answered := by
    rw [hlog, answersOf_append_of_none _ hturn]
    exact h.answered

/-- An item is the first one that the input had left. -/
theorem Reads.item {item : α} (h : Reads task.items (item :: rest) exchange)
    (hanswered : Answered exchange.log) {shown : Exchange α}
    (hlog : shown.log = exchange.log ++ [⟨.item, .item (some item)⟩]) :
    Reads task.items rest shown := by
  have hitems : itemsOf shown.log = itemsOf exchange.log ++ [item] := by
    rw [hlog, itemsOf_append]
    rfl
  have hanswers : answersOf shown.log = (itemsOf exchange.log ++ [item]).map some := by
    rw [hlog, answersOf_append, hanswered, List.map_append]
    rfl
  refine ⟨?_, ?_⟩
  · rw [hitems, List.append_assoc]
    exact h.items_eq
  · rw [hanswers, h.items_eq]
    refine ⟨rest.map some ++ [none], ?_⟩
    simp

/-- There is no item only when the input has none left. -/
theorem Reads.ended (h : Reads task.items [] exchange) (hanswered : Answered exchange.log)
    {shown : Exchange α} (hlog : shown.log = exchange.log ++ [⟨.item, .item none⟩]) :
    Reads task.items [] shown := by
  have hitems : itemsOf shown.log = itemsOf exchange.log := by
    rw [hlog]
    exact itemsOf_append_of_none _ rfl
  have hanswers : answersOf shown.log = (itemsOf exchange.log).map some ++ [none] := by
    rw [hlog, answersOf_append, hanswered]
    rfl
  refine ⟨hitems ▸ h.items_eq, ?_⟩
  rw [hanswers, h.items_eq, List.append_nil]

/-- As long as a scan asks for items, every answer was one. -/
theorem answered_of_request (hcalm : exchange.Calm task.plan task.routing)
    (hrequest : exchange.scan.request? = some .item) : Answered exchange.log := by
  refine hcalm.reading.read.answered hcalm.undisturbed ?_
  unfold Scan.request? at hrequest
  cases hphase : exchange.scan.phase with
  | fetching => rfl
  | awaiting purpose => cases purpose <;> simp [hphase] at hrequest
  | _ => simp [hphase] at hrequest

/-- What an input gives a scan is what it had left. -/
theorem Reads.answers (hsuits : workload.Suits task) (hleft : task.left run.input rest)
    (h : Reads task.items rest exchange) (hcalm : exchange.Calm task.plan task.routing)
    {request : Request α} {reply : Reply α} {depot : Depot α} {input : φ}
    (hrequest : exchange.scan.request? = some request)
    (hanswers : Answers workload clock run request reply depot input) {shown : Exchange α}
    (hlog : shown.log = exchange.log ++ [⟨request, reply⟩]) :
    ∃ rest', task.left input rest' ∧ Reads task.items rest' shown ∧
      rest'.length + reply.items = rest.length := by
  cases hanswers with
  | @item after found hnext =>
    cases rest with
    | nil =>
      obtain ⟨other, hended, -⟩ := hsuits.ended hleft
      rw [hnext] at hended
      cases hended
    | cons item rest =>
      obtain ⟨other, hitem, hafter⟩ := hsuits.item hleft
      rw [hnext] at hitem
      obtain ⟨rfl, hfound⟩ := Prod.mk.inj hitem
      obtain rfl := Reading.item.inj hfound
      exact ⟨rest, hafter, h.item (answered_of_request hcalm hrequest) hlog, rfl⟩
  | @ended after hnext =>
    cases rest with
    | nil =>
      obtain ⟨other, hended, hafter⟩ := hsuits.ended hleft
      rw [hnext] at hended
      obtain ⟨rfl, -⟩ := Prod.mk.inj hended
      exact ⟨[], hafter, h.ended (answered_of_request hcalm hrequest) hlog, rfl⟩
    | cons item rest =>
      obtain ⟨other, hitem, -⟩ := hsuits.item hleft
      rw [hnext] at hitem
      cases hitem
  | @unreadable after fault hnext =>
    rcases hsuits.readable hleft hnext with hcontra | ⟨item, hcontra⟩ <;> cases hcontra
  | @rewind after again hagain =>
    obtain ⟨other, hagain', hafter⟩ := hsuits.again hleft
    rw [hagain] at hagain'
    obtain ⟨rfl, rfl⟩ := Prod.mk.inj hagain'
    exact ⟨rest, hafter, h.turn hlog rfl, rfl⟩
  | stop | draw | send | credit | desert | goOn => exact ⟨rest, hleft, h.turn hlog rfl, rfl⟩

/-! ## What the scan is answered -/

/-- As long as all workers listen, every queue has somebody who does. -/
theorem OnCourse.isHeld (h : run.OnCourse task rest) (hscanning : run.Scanning task rest)
    {queue : Nat} {channel : Channel (Batch α)}
    (hchannel : run.crew.floor.depot.channels[queue]? = some channel) : channel.isHeld = true := by
  obtain ⟨exchange, hcalm, hpicture, -, -⟩ := hscanning.shown
  have hqueue : queue < task.plan.queues :=
    hcalm.kept.linked.lt (by rw [hpicture.channels_eq]; exact hchannel)
  -- Each queue has a worker, and that holds its endpoint.
  obtain ⟨worker, hmem, rfl⟩ := h.served queue hqueue
  have hholds := h.kept.staffed.held worker hmem (hscanning.listening worker hmem).1
  rw [Depot.holds_of_channel hchannel, Channel.holds, List.getD_eq_getElem?_getD] at hholds
  cases hflag : channel.endpoints[worker.endpoint]? with
  | none => simp [hflag] at hholds
  | some flag =>
    rw [hflag, Option.getD_some] at hholds
    exact List.any_eq_true.mpr ⟨flag, List.mem_of_getElem? hflag, hholds⟩

/-- No answer makes the scan break off or ends its reading early. -/
theorem OnCourse.answers_calm (hsuits : workload.Suits task) (h : run.OnCourse task rest)
    (hscanning : run.Scanning task rest) {exchange : Exchange α}
    (hcalm : exchange.Calm task.plan task.routing) (hpicture : run.Pictured exchange)
    (hquiet : run.crew.floor.alarm = Alarm.quiet) {request : Request α} {reply : Reply α}
    {depot : Depot α} {input : φ}
    (hanswers : Answers workload clock run request reply depot input) :
    ¬exchange.scan.BreaksOff reply ∧ reply.disturbs = false := by
  cases hanswers with
  | stop =>
    refine ⟨id, ?_⟩
    show run.isStopped clock = false
    rw [isStopped, hquiet, h.timeless]
    rfl
  | @item after found hnext =>
    refine ⟨?_, rfl⟩
    show ¬exchange.scan.plan.queues ≤ exchange.scan.routing _ found
    have haccounts := hcalm.sound.accounts
    rw [haccounts.plan_eq, haccounts.routing_eq, Nat.not_le]
    exact hsuits.routed _ found
  | @unreadable after fault hnext =>
    rcases hsuits.readable hscanning.left hnext with hcontra | ⟨item, hcontra⟩ <;> cases hcontra
  | @rewind after again hagain =>
    obtain ⟨other, hagain', -⟩ := hsuits.again hscanning.left
    rw [hagain] at hagain'
    obtain ⟨rfl, rfl⟩ := Prod.mk.inj hagain'
    exact ⟨id, rfl⟩
  | @send queue batch channel hchannel =>
    -- An open channel with a worker takes the batch or is full.
    have hopen := (hcalm.kept.linked.link queue channel
      (by rw [hpicture.channels_eq]; exact hchannel)).isOpen
    have hheld := h.isHeld hscanning hchannel
    refine ⟨?_, rfl⟩
    cases hoffer : (channel.offer batch).2 with
    | refused fault => exact absurd hoffer (Channel.offer_ne_refused hopen hheld batch fault)
    | accepted => exact id
    | full => exact id
  | desert hchannel hlost =>
    rw [h.isHeld hscanning hchannel] at hlost
    cases hlost
  | ended | draw | credit | goOn => exact ⟨id, rfl⟩

/-! ## Steps -/

/-- How far a run is from its end: while it scans, by what the input has left and the scan has
before it, and then by what the workers have still to do. -/
def distance (rest : List α) (run : Run α κ τ ω φ) : Nat × (Nat × Multiset τ) :=
  (match run.stage with
    | .scanning => 9 * rest.length + run.scan.weight + 1
    | _ => 0, run.remaining)

/-- Whether a distance is smaller than another. -/
def Nearer (handler : Handler α κ τ ω) :
    Nat × (Nat × Multiset τ) → Nat × (Nat × Multiset τ) → Prop :=
  Prod.Lex (· < ·) (Crew.Less handler.Winds)

theorem nearer_wellFounded (handler : Handler α κ τ ω) : WellFounded (Nearer handler) :=
  WellFounded.prod_lex Nat.lt_wfRel.wf (Crew.less_wellFounded handler.winds_wellFounded)

/-- A scan that is answered stays on course and has less before it. -/
theorem OnCourse.turn (hsuits : workload.Suits task) (h : run.OnCourse task rest)
    (hscanning : run.Scanning task rest) {request : Request α} {reply : Reply α} {depot : Depot α}
    {input : φ} (hrequest : run.scan.request? = some request)
    (hanswers : Answers workload clock run request reply depot input) :
    ∃ rest', (run.served reply depot input).OnCourse task rest' ∧
      Nearer workload.handler ((run.served reply depot input).distance rest')
        (run.distance rest) := by
  obtain ⟨exchange, hcalm, hpicture, hreads, hbalanced⟩ := hscanning.shown
  obtain ⟨shown, hstep, hshown, hlog, hreceived⟩ := hpicture.turn h.kept.clean hrequest hanswers
  obtain ⟨hwhole, hundisturbed⟩ :=
    h.answers_calm hsuits hscanning hcalm hpicture hbalanced.quiet hanswers
  have hrequest' : exchange.scan.request? = some request := by
    rw [hpicture.scan_eq]
    exact hrequest
  obtain ⟨rest', hleft, hreads', hlength⟩ :=
    hreads.answers hsuits hscanning.left hcalm hrequest' hanswers hlog
  have hcalm' : shown.Calm task.plan task.routing := by
    refine Exchange.calm_step hcalm hstep fun turn hlogged => ?_
    rw [← List.singleton_injective (List.append_cancel_left (hlog.symm.trans hlogged))]
    exact ⟨hwhole, hundisturbed⟩
  have hsame : shown.receivedItems task.plan.queues = exchange.receivedItems task.plan.queues := by
    rw [Exchange.receivedItems, hreceived]
    rfl
  refine ⟨rest', ⟨h.kept.answered hscanning.stage_eq hrequest hanswers, h.timeless, h.served,
    Or.inl ⟨hscanning.stage_eq, hleft, hscanning.listening, shown, hcalm', hshown, hreads', ?_⟩⟩,
    ?_⟩
  · rw [hsame]
    exact hbalanced.withDepot depot
  · -- The reply makes the scan lighter, or gives it an item that the input had left.
    have hlighter : (run.scan.resume reply).weight < run.scan.weight + 9 * reply.items := by
      have hturned := Exchange.turned_of_log hcalm.kept hstep hlog
      rw [← hpicture.scan_eq]
      refine Scan.weight_resume ?_ hturned.request hturned.admits ?_
      · intro hphase
        have hstands := hcalm.sound.stands
        rw [hphase] at hstands
        exact hstands
      · rintro hanew
        rw [hanew] at hundisturbed
        cases hundisturbed
    refine Prod.Lex.left _ _ ?_
    show (match run.stage with | .scanning => _ | _ => 0) <
      match run.stage with | .scanning => _ | _ => 0
    rw [hscanning.stage_eq]
    show 9 * rest'.length + (run.scan.resume reply).weight + 1 <
      9 * rest.length + run.scan.weight + 1
    omega

/-- While a run scans, no worker stops listening. -/
theorem Scanning.listening_step (hscanning : run.Scanning task rest) {index : Nat}
    {worker worker' : Worker α κ τ} {floor : Floor α ω}
    (hworker : run.crew.workers[index]? = some worker)
    (hstep : Worker.Step workload.handler clock worker run.crew.floor worker' floor) :
    worker'.isDone = false ∧ worker'.stage ≠ .closing := by
  have hmem := List.mem_of_getElem? hworker
  obtain ⟨exchange, hcalm, hpicture, -, hbalanced⟩ := hscanning.shown
  cases hstep with
  | exhaust hstage hchannel hqueue hclosed =>
    -- The channels are open until the scan has returned.
    rw [← hpicture.channels_eq] at hchannel
    rw [(hcalm.kept.linked.link _ _ hchannel).isOpen] at hclosed
    cases hclosed
  | leave hstage =>
    obtain ⟨owed, -, howes⟩ := hbalanced.owes hmem
    rw [hstage] at howes
    exact howes.elim
  | close hstage hfinish => exact absurd hstage (hscanning.listening worker hmem).2
  | acknowledge hstage hchannel hsent =>
    rcases hstage with ⟨-, rfl⟩ | ⟨-, rfl⟩ <;> exact ⟨rfl, nofun⟩
  | _ => exact ⟨rfl, nofun⟩

/-- Workers stay with their queues. -/
theorem OnCourse.served_set (h : run.OnCourse task rest) {index : Nat}
    {worker worker' : Worker α κ τ}
    (hworker : run.crew.workers[index]? = some worker) (hqueue : worker'.queue = worker.queue) :
    ∀ queue < task.plan.queues,
      ∃ other ∈ run.crew.workers.set index worker', other.queue = queue := by
  intro queue hlt
  obtain ⟨other, hother, rfl⟩ := h.served queue hlt
  obtain ⟨i, hi⟩ := List.getElem?_of_mem hother
  by_cases hsame : index = i
  · subst hsame
    obtain rfl : worker = other := Option.some.inj (hworker.symm.trans hi)
    have hbound := (List.getElem?_eq_some_iff.mp hworker).1
    exact ⟨worker', List.mem_of_getElem? (List.getElem?_set_self hbound), hqueue⟩
  · exact ⟨other, List.mem_of_getElem? ((List.getElem?_set_ne hsame).trans hi), rfl⟩

/-- A worker that makes a step while the run scans stays on course. -/
theorem Scanning.work (hsuits : workload.Suits task) (h : run.OnCourse task rest)
    (hscanning : run.Scanning task rest) {index : Nat} {worker worker' : Worker α κ τ}
    {floor : Floor α ω} (hworker : run.crew.workers[index]? = some worker)
    (hstep : Worker.Step workload.handler clock worker run.crew.floor worker' floor) :
    Scanning task rest { run with crew := ⟨run.crew.workers.set index worker', floor⟩ } := by
  have hmem := List.mem_of_getElem? hworker
  obtain ⟨exchange, hcalm, hpicture, hreads, hbalanced⟩ := hscanning.shown
  obtain ⟨shown, hstep', hshown, hlog, hreceived⟩ := hpicture.work hcalm.kept.linked hworker
    (Worker.place_of_step hstep) (Worker.effect_of_step hstep)
  have hqueue : worker.queue < task.plan.queues := by
    obtain ⟨channel, hchannel, -⟩ :=
      h.kept.channel_of_worker hmem (hscanning.listening worker hmem).1
    exact hcalm.kept.linked.lt (by rw [hpicture.channels_eq]; exact hchannel)
  have hcalm' : shown.Calm task.plan task.routing := by
    rcases hstep' with rfl | hstep'
    · exact hcalm
    · refine Exchange.calm_step hcalm hstep' fun turn hturn => ?_
      rw [hlog] at hturn
      simp at hturn
  refine ⟨hscanning.stage_eq, hscanning.left, ?_, shown, hcalm', hshown, ⟨?_, ?_⟩, ?_⟩
  · intro other hother
    rcases List.mem_or_eq_of_mem_set hother with hother | rfl
    · exact hscanning.listening other hother
    · exact hscanning.listening_step hworker hstep
  · rw [hlog]
    exact hreads.items_eq
  · rw [hlog]
    exact hreads.answered
  · rw [Exchange.receivedItems_eq hqueue hreceived]
    exact hbalanced.step hsuits.meets
      (hreads.countable hcalm hsuits.routed hsuits.countable) hworker hstep

/-- A scan that needs nothing has returned. -/
theorem exists_result {scan : Scan α} (h : scan.request? = none) :
    ∃ result, scan.result? = some result := by
  unfold Scan.request? at h
  unfold Scan.result?
  cases hphase : scan.phase with
  | returned result => exact ⟨result, rfl⟩
  | awaiting purpose => cases purpose <;> simp [hphase] at h
  | _ => simp [hphase] at h

/-- A run whose scan has returned has delivered its portion. -/
theorem Scanning.scanned (hsuits : workload.Suits task) (hscanning : run.Scanning task rest)
    (hrequest : run.scan.request? = none) :
    run.scanned = { run with stage := .closing } ∧ Scanned task run.scanned := by
  obtain ⟨exchange, hcalm, hpicture, hreads, hbalanced⟩ := hscanning.shown
  obtain ⟨result, hresult⟩ := exists_result hrequest
  rw [← hpicture.scan_eq] at hresult
  obtain ⟨tally, htally⟩ := hcalm.exists_tally hresult
  have hreturned : run.scan.result? = some (.ok tally) := by
    rw [← hpicture.scan_eq]
    exact htally
  have hscanned : run.scanned = { run with stage := .closing } := by
    unfold Run.scanned
    simp only [hreturned]
  -- The workers have received all of the portion, so the balance is that of the portion.
  have hdelivered := hcalm.kept.delivered htally
  have hportion : itemsOf exchange.log = task.portion := hcalm.items_eq htally hreads.answered
  rw [hscanned]
  refine ⟨rfl, Or.inl rfl, ⟨tally, hreturned⟩, ?_, ?_⟩
  · -- What was sent has been received, so nothing waits in between.
    refine List.sum_eq_zero fun length hmem => ?_
    obtain ⟨channel, hchannel, rfl⟩ := List.mem_map.mp hmem
    obtain ⟨queue, hqueue⟩ := List.getElem?_of_mem hchannel
    dsimp only at hqueue
    rw [← hpicture.channels_eq] at hqueue
    have hsent := (hcalm.kept.linked.link queue channel hqueue).delivered
    rw [hdelivered.received queue (hcalm.kept.linked.lt hqueue)] at hsent
    exact List.length_eq_zero_iff.mpr (List.append_right_eq_self.mp hsent.symm)
  · rw [hcalm.received_eq hsuits.routed htally, hportion] at hbalanced
    exact hbalanced

/-! ### Behind the scan -/

/-- When no batch waits, a worker receives none. -/
theorem receipt_of_empty {worker worker' : Worker α κ τ} {floor : Floor α ω}
    (hempty : run.crew.floor.depot.waiting = 0)
    (hstep : Worker.Step workload.handler clock worker run.crew.floor worker' floor) :
    worker.receipt worker' = [] ∧ floor.depot.waiting = 0 := by
  rcases Crew.waiting_of_effect (Worker.effect_of_step hstep) with ⟨-, -, hless⟩ | ⟨hnone, hsame⟩
  · exact absurd hless (by omega)
  · refine ⟨?_, hsame.trans hempty⟩
    unfold Worker.receipt
    split
    · next batch hreceiving hholding => exact absurd ⟨hreceiving, batch, hholding⟩ hnone
    · rfl

/-- A worker that makes a step behind the scan stays on course. -/
theorem Scanned.work (hsuits : workload.Suits task) (hscanned : run.Scanned task) {index : Nat}
    {worker worker' : Worker α κ τ} {floor : Floor α ω}
    (hworker : run.crew.workers[index]? = some worker)
    (hstep : Worker.Step workload.handler clock worker run.crew.floor worker' floor) :
    Scanned task { run with crew := ⟨run.crew.workers.set index worker', floor⟩ } := by
  obtain ⟨hreceipt, hempty⟩ := receipt_of_empty hscanned.empty hstep
  have hbalanced := hscanned.balanced.step hsuits.meets hsuits.countable hworker hstep
  rw [hreceipt] at hbalanced
  exact ⟨hscanned.stage_eq, hscanned.returned, hempty, by simpa using hbalanced⟩

/-- When all workers have ended, the run ends well. -/
theorem Scanned.join (hscanned : run.Scanned task) (hdone : run.crew.isDone = true) :
    Finished task { run with stage := .over run.verdict } := by
  obtain ⟨tally, hreturned⟩ := hscanned.returned
  have hjoined : run.crew.workers.countP Worker.hasPanicked = 0 := by
    refine List.countP_eq_zero.mpr fun worker hmem => ?_
    rw [hscanned.balanced.hasPanicked hmem]
    exact Bool.false_ne_true
  -- No fault was raised and no worker has panicked, so the verdict is what the scan has returned.
  have hverdict : run.verdict = .ok tally := by
    unfold verdict Crew.joined
    rw [hscanned.balanced.quiet, hjoined, hreturned]
    rfl
  exact ⟨⟨tally, by rw [hverdict]⟩, hdone, hscanned.balanced.ended hdone⟩

/-! ### All steps -/

theorem OnCourse.scanning (h : run.OnCourse task rest) (hstage : run.stage = .scanning) :
    run.Scanning task rest := by
  rcases h.stands with hscanning | hscanned | hfinished
  · exact hscanning
  · rcases hscanned.stage_eq with hcontra | hcontra <;> rw [hstage] at hcontra <;> cases hcontra
  · obtain ⟨tally, hcontra⟩ := hfinished.stage_eq
    rw [hstage] at hcontra
    cases hcontra

theorem OnCourse.scanned (h : run.OnCourse task rest)
    (hstage : run.stage = .closing ∨ run.stage = .joining) : run.Scanned task := by
  rcases h.stands with hscanning | hscanned | hfinished
  · rw [hscanning.stage_eq] at hstage
    rcases hstage with hcontra | hcontra <;> cases hcontra
  · exact hscanned
  · obtain ⟨tally, hcontra⟩ := hfinished.stage_eq
    rw [hcontra] at hstage
    rcases hstage with hcontra | hcontra <;> cases hcontra

/-- The jobs of a run that is on course come to an end. -/
theorem OnCourse.winds (hsuits : workload.Suits task) (h : run.OnCourse task rest) :
    ∀ worker ∈ run.crew.workers, ∀ job next, worker.job? = some job →
      workload.handler.Continues next job → workload.handler.Winds next job := by
  intro worker hmem job next hjob hgoing
  refine ⟨hgoing, ?_⟩
  rcases h.stands with hscanning | hscanned | hfinished
  · obtain ⟨exchange, -, -, -, hbalanced⟩ := hscanning.shown
    exact hbalanced.acc hsuits.meets hmem hjob
  · exact hscanned.balanced.acc hsuits.meets hmem hjob
  · -- A worker that has ended is at no job.
    have hdone := List.all_eq_true.mp hfinished.isDone worker hmem
    unfold Worker.job? at hjob
    split at hjob
    · next batch found hstage =>
      rw [Worker.isDone, hstage] at hdone
      cases hdone
    · cases hjob

theorem distance_of_ne (rest : List α) (hstage : run.stage ≠ .scanning) :
    run.distance rest = (0, run.remaining) := by
  unfold distance
  split
  · next hcontra => exact absurd hcontra hstage
  · rfl

/-- Every step of a run that is on course leads to such a run, nearer to its end. -/
theorem OnCourse.step (hsuits : workload.Suits task) (h : run.OnCourse task rest)
    {move : Move} (hstep : Step workload clock run move next) :
    ∃ rest', next.OnCourse task rest' ∧
      Nearer workload.handler (next.distance rest') (run.distance rest) := by
  have hkept := kept_step h.kept hstep
  -- Behind the scan only the workers are left.
  have hbehind : run.stage ≠ .scanning →
      Nearer workload.handler (next.distance rest) (run.distance rest) := by
    intro hstage
    obtain ⟨hnext, hless⟩ := remaining_step hstage (h.winds hsuits) hstep
    rw [distance_of_ne rest hstage, distance_of_ne rest hnext]
    exact Prod.Lex.right _ hless
  cases hstep with
  | turn hstage hrequest hanswers => exact h.turn hsuits (h.scanning hstage) hrequest hanswers
  | lose hstage hrequest hnext =>
    rcases hsuits.readable (h.scanning hstage).left hnext with hcontra | ⟨item, hcontra⟩ <;>
      cases hcontra
  | scanned hstage hrequest =>
    obtain ⟨heq, hscanned⟩ := (h.scanning hstage).scanned hsuits hrequest
    rw [heq] at hkept hscanned ⊢
    refine ⟨rest, ⟨hkept, h.timeless, h.served, Or.inr (Or.inl hscanned)⟩, ?_⟩
    rw [distance, distance, hstage]
    exact Prod.Lex.left _ _ (Nat.succ_pos _)
  | close hstage =>
    have hscanned := h.scanned (Or.inl hstage)
    refine ⟨rest, ⟨hkept, h.timeless, h.served, Or.inr (Or.inl
      ⟨Or.inr rfl, hscanned.returned, ?_, hscanned.balanced.withDepot _⟩)⟩, hbehind ?_⟩
    · exact (Crew.waiting_dropSenders _).trans hscanned.empty
    · rw [hstage]
      exact nofun
  | join hstage hdone =>
    have hscanned := h.scanned (Or.inr hstage)
    refine ⟨rest, ⟨hkept, h.timeless, h.served, Or.inr (Or.inr (hscanned.join hdone))⟩, hbehind ?_⟩
    rw [hstage]
    exact nofun
  | @work index worker worker' floor hworker hstep =>
    have hqueue : worker'.queue = worker.queue :=
      (Prod.mk.inj (Worker.place_of_step hstep)).1
    have hserved := h.served_set hworker hqueue
    rcases h.stands with hscanning | hscanned | hfinished
    · have hwork := hscanning.work hsuits h hworker hstep
      have hwinds := h.winds hsuits worker (List.mem_of_getElem? hworker)
      exact ⟨rest, ⟨hkept, h.timeless, hserved, Or.inl hwork⟩,
        Prod.Lex.right _ (remaining_work hworker hwinds hstep)⟩
    · have hwork := hscanned.work hsuits hworker hstep
      refine ⟨rest, ⟨hkept, h.timeless, hserved, Or.inr (Or.inl hwork)⟩, hbehind ?_⟩
      rcases hscanned.stage_eq with hstage | hstage <;> rw [hstage] <;> exact nofun
    · have hdone := List.all_eq_true.mp hfinished.isDone worker (List.mem_of_getElem? hworker)
      rw [(Worker.effect_of_step hstep).isDone] at hdone
      cases hdone

end Run

end LoadBench
