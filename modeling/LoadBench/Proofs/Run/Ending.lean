/-
  LoadBench.Proofs.Run.Ending

  What a run makes of its faults, whoever raises them and whatever the schedule:

    * `Flawless` — what a run has done that ends with its report;
    * `Run.Heeds` — a run ends with its report if nothing has failed, and with the
      fault that was raised first otherwise, and its workers leave as they should;
    * `Run.Ceases` — no job is started behind a fault.

  `heeds_of_elapse` is assembled from the invariants of the chronicle
  (`Chronicled`): what is told (`Told`), what the queues carry (`Carried`), what is
  judged (`Judged`) and where it is (`Placed`).
-/

import LoadBench.Numbers
import LoadBench.Run.Outcome
import LoadBench.Proofs.Run.Batches
import LoadBench.Proofs.Run.Faults

namespace LoadBench

variable {α κ τ ω φ : Type}

/-! ## What a run is to do -/

/-- Whether a run has done all there was to do, and nothing went wrong. -/
structure Flawless (settings : Settings) (notes : List (Note α)) (ledger : Ledger) : Prop where
  unfailed : ∀ note ∈ notes, note.isFailure settings.queueCount = false
  /-- The batches that were sent are those that were recorded, each as many times. -/
  once : (sentBatches notes).Perm (recordedBatches notes)
  /-- Each queue has given out what went into it, in the same order. -/
  delivered : ∀ queue < settings.queueCount, receivedFrom queue notes = sentTo queue notes
  /-- Each worker has processed and recorded what it received, batch by batch, and closed. -/
  processed : ∀ index < settings.workers, ∃ batches : List (Batch α × Measurements),
    journalOf index notes = recordedJournal batches
  /-- The ledger holds all that was recorded. -/
  entered : (Ledger.create settings.burnIn).replay (eventsOf notes) = (ledger, true)

namespace Run

variable {workload : Workload α κ τ ω φ} {settings : Settings} {run next first mid : Run α κ τ ω φ}
  {occurrence : Occurrence} {occurrences : List Occurrence} {notes : List (Note α)}
  {routing : Routing α}

/-! ## The start -/

theorem worker_of_hire {handler : Handler α κ τ ω} {queues workers index : Nat} {loadEnabled : Bool}
    {worker : Worker α κ τ}
    (h : (Crew.hire handler queues workers loadEnabled)[index]? = some worker) :
    worker.post.worker = index ∧ worker.queue = index % queues ∧ worker.stage = .starting := by
  rw [Crew.hire, List.getElem?_map] at h
  obtain ⟨number, hnumber, rfl⟩ := Option.map_eq_some_iff.mp h
  obtain ⟨hlt, rfl⟩ := List.getElem?_eq_some_iff.mp hnumber
  rw [List.getElem_range]
  exact ⟨rfl, rfl, rfl⟩

/-- Whatever a chronicle is about holds of it. -/
structure Chronicled (settings : Settings) (routing : Routing α) (notes : List (Note α))
    (run : Run α κ τ ω φ) : Prop where
  kept : run.Kept settings.plan routing
  told : run.Told settings.burnIn notes
  carried : run.Carried settings.queueCount notes
  judged : run.Judged settings.queueCount notes
  placed : Placed settings notes
  places : run.crew.workers.map Worker.queue =
    (List.range settings.workers).map settings.queueOf

theorem chronicled_start {world : ω} {input : φ}
    (h : start workload settings world input = .ok first) :
    first.Chronicled settings (workload.routing settings.queueCount) [] := by
  have hbegins := begins_start h
  obtain ⟨-, -, hworkers, halarm, hledger⟩ := start_eq h
  have hhired : ∀ index worker, first.crew.workers[index]? = some worker →
      worker.post.worker = index ∧ worker.queue = index % settings.queueCount ∧
        worker.stage = .starting := by
    intro index worker hworker
    rw [hworkers] at hworker
    exact worker_of_hire hworker
  have hstarting : ∀ worker ∈ first.crew.workers, worker.stage = .starting := by
    intro worker hworker
    obtain ⟨index, hindex⟩ := List.getElem?_of_mem hworker
    exact (hhired index worker hindex).2.2
  refine ⟨hbegins.kept, ?_, ?_, ?_, ⟨nofun, nofun⟩, ?_⟩
  · refine ⟨halarm, hledger.symm, fun _ => rfl, fun index worker h => (hhired index worker h).1, ?_,
      nofun, nofun⟩
    intro index worker hworker
    rw [(hhired index worker hworker).2.2]
    exact .starting
  · refine ⟨hbegins.width, ?_, ?_⟩
    · intro queue channel hchannel
      rw [(hbegins.fresh channel (List.mem_of_getElem? hchannel)).queue_eq]
      rfl
    · intro worker hworker hclosing
      rw [hstarting worker hworker] at hclosing
      rcases hclosing with hcontra | hcontra <;> cases hcontra
  · refine ⟨nofun, fun hscanned => absurd hbegins.stage_eq hscanned, ?_, ?_⟩
    · intro hgone
      rw [hbegins.stage_eq] at hgone
      cases hgone
    · intro result hover
      rw [hbegins.stage_eq] at hover
      cases hover
  · rw [hworkers, Crew.hire, List.map_map]
    rfl

theorem queues_occur (hoccur : run.occur? workload occurrence = some next) :
    next.crew.workers.map Worker.queue = run.crew.workers.map Worker.queue := by
  cases occurrence with
  | period =>
    obtain rfl := Option.some.inj hoccur
    rfl
  | move clock move =>
    have hstep := step?_sound (show run.step? workload clock move = some next from hoccur)
    cases move with
    | main pick => rw [(main_step hstep).1]
    | worker index =>
      cases hstep with
      | work hworker hstep =>
        have hplaces := Crew.places_set hworker (Worker.place_of_step hstep)
        simpa [List.map_map, Function.comp_def, Worker.place] using
          congrArg (List.map Prod.fst) hplaces

theorem kept_occur {plan : ScanPlan} {routing : Routing α} (h : run.Kept plan routing)
    (hoccur : run.occur? workload occurrence = some next) : next.Kept plan routing := by
  cases occurrence with
  | period =>
    obtain rfl := Option.some.inj hoccur
    exact h.withLedger _
  | move clock move => exact kept_step h (step?_sound hoccur)

theorem chronicled_occur {routing : Routing α} (h : run.Chronicled settings routing notes)
    (hoccur : run.occur? workload occurrence = some next) :
    next.Chronicled settings routing (notes ++ (run.note? workload occurrence).toList) where
  kept := kept_occur h.kept hoccur
  told := told_occur h.told hoccur
  carried := carried_occur h.carried hoccur
  judged :=
    have hjudged : run.Judged settings.plan.queues notes := h.judged
    judged_occur hjudged h.kept hoccur
  placed := placed_occur h.placed h.places h.carried.width
  places := (queues_occur hoccur).trans h.places

/-- Whatever the schedule, the chronicle of a run is that of its start. -/
theorem chronicled_elapse {world : ω} {input : φ}
    (hstart : start workload settings world input = .ok first)
    (helapse : first.elapse? workload occurrences = some run) :
    run.Chronicled settings (workload.routing settings.queueCount)
      (first.chronicle workload occurrences) := by
  have hnoted : run.Chronicled settings (workload.routing settings.queueCount)
      ([] ++ first.chronicle workload occurrences) :=
    follow?_noted
      (P := fun notes run => run.Chronicled settings (workload.routing settings.queueCount) notes)
      (fun notes occurrence run next h hoccur => chronicled_occur h hoccur)
      (chronicled_start hstart) helapse
  exact hnoted

/-! ## Behind a fault -/

/-- What the workers of a run have done since a moment at which it was over. -/
structure Stops (mid : Run α κ τ ω φ) (notes : List (Note α)) (run : Run α κ τ ω φ) : Prop where
  isRaised : run.crew.floor.alarm.isRaised = true
  late : ∀ (index : Nat) (worker : Worker α κ τ), run.crew.workers[index]? = some worker →
    ∃ before : Worker α κ τ, mid.crew.workers[index]? = some before ∧
      Late before.stage worker.stage (journalOf index notes)

theorem stops_occur (h : mid.Stops notes run)
    (hoccur : run.occur? workload occurrence = some next) :
    mid.Stops (notes ++ (run.note? workload occurrence).toList) next := by
  cases occurrence with
  | period timestamp took previous =>
    obtain rfl := Option.some.inj hoccur
    refine ⟨h.isRaised, ?_⟩
    intro index worker hworker
    have hsame : journalOf index (notes ++ [Note.period timestamp took previous]) =
        journalOf index notes := filterMap_concat_of_none notes rfl
    rw [note?, Option.toList_some, hsame]
    exact h.late index worker hworker
  | move clock move =>
    have hstep := step?_sound (show run.step? workload clock move = some next from hoccur)
    cases move with
    | main pick =>
      obtain ⟨hworkers, -, halarm⟩ := main_step hstep
      refine ⟨?_, ?_⟩
      · rw [halarm]
        cases (run.mainNote? workload).bind Note.fault? with
        | none => exact h.isRaised
        | some fault => rfl
      · intro index worker hworker
        rw [hworkers] at hworker
        rw [note?, journalOf, filterMap_concat, (run.mainNote?_silent workload).1 index,
          Option.toList_none, List.append_nil]
        exact h.late index worker hworker
    | worker index =>
      cases hstep with
      | @work _ worker worker' floor hworker hstep =>
        refine ⟨Worker.isRaised_step h.isRaised hstep, ?_⟩
        intro i other hother
        rw [note?, hworker, Option.bind_some, journalOf_concat_did]
        rcases eq_or_of_getElem?_set hother with ⟨rfl, rfl⟩ | ⟨hsame, hother⟩
        · obtain ⟨before, hbefore, hlate⟩ := h.late index worker hworker
          rw [if_pos rfl]
          exact ⟨before, hbefore, Worker.late_step hlate h.isRaised hstep⟩
        · rw [if_neg hsame, List.append_nil]
          exact h.late i other hother

theorem stops_elapse (hraised : mid.crew.floor.alarm.isRaised = true)
    (helapse : mid.elapse? workload occurrences = some run) :
    mid.Stops (mid.chronicle workload occurrences) run := by
  have hstart : mid.Stops ([] : List (Note α)) mid :=
    ⟨hraised, fun index worker hworker => ⟨worker, hworker, late_now worker.stage⟩⟩
  have hnoted : mid.Stops ([] ++ mid.chronicle workload occurrences) run :=
    follow?_noted (P := fun notes run => mid.Stops notes run)
      (fun notes occurrence run next h hoccur => stops_occur h hoccur) hstart helapse
  exact hnoted

/-! ## What a run makes of its faults -/

/-- What the workers of a run have done since a moment at which a fault had been raised: they have
started no job, and have passed over what they received. -/
structure Ceases (mid : Run α κ τ ω φ) (notes : List (Note α)) (run : Run α κ τ ω φ) : Prop where
  isRaised : run.crew.floor.alarm.isRaised = true
  started : ∀ index (before : Worker α κ τ), mid.crew.workers[index]? = some before →
    ∀ batch, .began batch ∉ journalOf index notes
  /-- A worker goes on with one job at most, the one it was at. -/
  processed : ∀ index (before : Worker α κ τ), mid.crew.workers[index]? = some before →
    ∀ deed ∈ journalOf index notes, ∀ batch, deed.job? = some batch →
      ∃ job, before.stage = .working batch job
  passed : run.crew.isDone = true →
    ∀ index (before : Worker α κ τ), mid.crew.workers[index]? = some before →
      ∀ front batch rest, journalOf index notes = front ++ .received batch :: rest →
        ∃ later, rest = .skipped batch :: .released batch :: .acknowledged :: later

/-- What holds of a run at a moment, with all that is noted of it so far. -/
structure Heeds (workload : Workload α κ τ ω φ) (settings : Settings) (notes : List (Note α))
    (run : Run α κ τ ω φ) : Prop where
  /-- The alarm shows the fault that was raised first. -/
  alarm : run.crew.floor.alarm = alarmOf (faultsOf notes)
  /-- A run that is over ends with that fault. If there is none, nothing has failed, and it ends
  with its report. -/
  result : ∀ verdict, run.stage = .over verdict → ∀ configuration took,
    (faultsOf notes = [] ∧ Flawless settings notes run.crew.floor.ledger ∧
        (run.outcome settings configuration took).result = some (.ok
          (Report.compose run.crew.floor.ledger (settings.facts configuration took)))) ∨
      ∃ fault later, faultsOf notes = fault :: later ∧
        (run.outcome settings configuration took).result = some (.error fault)
  /-- There is no result before. -/
  unended : (∀ verdict, run.stage ≠ .over verdict) → ∀ configuration took,
    (run.outcome settings configuration took).result = none
  joined : ∀ verdict, run.stage = .over verdict → run.crew.isDone = true
  departed : run.crew.isDone = true → ∀ index < settings.workers, Departed (journalOf index notes)
  /-- A recording is lost only over a batch with more bytes than 64 bits hold. -/
  overflows : ∀ index batch measured, .overflowed batch measured ∈ journalOf index notes →
    ¬Sample.Countable measured.samples
  placed : Placed settings notes
  /-- A run without a result has lost its reader. -/
  lost : run.stage = .panicked → .lost ∈ notes
  /-- Where nobody can go on, the run is over, and its workers are done. -/
  rests : ∀ clock, (∀ move, run.step? workload clock move = none) →
    run.IsOver ∧ run.crew.isDone = true
  /-- A run comes to its end once something has failed or the scan has returned, if jobs end. -/
  ends : workload.handler.Ends →
    (∃ note ∈ notes, note.isFailure settings.queueCount = true) ∨ run.stage ≠ .scanning →
      Acc (Comes workload) run

/-- Each worker of the settings has its place in the crew. -/
theorem Chronicled.worker (h : run.Chronicled settings routing notes) {index : Nat}
    (hindex : index < settings.workers) :
    ∃ worker, run.crew.workers[index]? = some worker ∧ worker.queue = settings.queueOf index := by
  have hplace : (run.crew.workers.map Worker.queue)[index]? = some (settings.queueOf index) := by
    rw [h.places, List.getElem?_map, List.getElem?_range hindex]
    rfl
  rw [List.getElem?_map] at hplace
  obtain ⟨worker, hworker, hqueue⟩ := Option.map_eq_some_iff.mp hplace
  exact ⟨worker, hworker, hqueue⟩

/-- The journal of a worker of a run whose workers are done is whole. -/
theorem Chronicled.whole (h : run.Chronicled settings routing notes)
    (hdone : run.crew.isDone = true) {index : Nat} {worker : Worker α κ τ}
    (hworker : run.crew.workers[index]? = some worker) :
    ∃ ending, Whole (journalOf index notes) ending ∧
      (worker.hasPanicked = true ↔ ending ≠ .closed) :=
  (h.told.journals index worker hworker).whole
    (List.all_eq_true.mp hdone worker (List.mem_of_getElem? hworker))

/-- Without a fault every worker has closed. -/
theorem Chronicled.closed (h : run.Chronicled settings routing notes)
    (hdone : run.crew.isDone = true) (hfaults : faultsOf notes = []) {index : Nat}
    {worker : Worker α κ τ} (hworker : run.crew.workers[index]? = some worker) :
    Whole (journalOf index notes) .closed ∧ worker.hasPanicked = false := by
  obtain ⟨ending, hwhole, hpanicked⟩ := h.whole hdone hworker
  obtain rfl := hwhole.closed_of_faultless fun deed hmem => fault?_of_mem_journalOf hfaults hmem
  exact ⟨hwhole, Bool.eq_false_iff.mpr fun hcontra => hpanicked.mp hcontra rfl⟩

/-- A worker that is done and has not panicked has exited. -/
theorem exited_of_isDone {worker : Worker α κ τ} (hdone : worker.isDone = true)
    (hcalm : worker.hasPanicked = false) : worker.stage = .exited := by
  unfold Worker.isDone at hdone
  unfold Worker.hasPanicked at hcalm
  split at hdone
  · assumption
  · next hstage => rw [hstage] at hcalm; cases hcalm
  · cases hdone

/-- A run that is over without a fault is flawless. -/
theorem Chronicled.flawless (h : run.Chronicled settings routing notes)
    (hqueues : 0 < settings.queueCount) (hworkers : settings.queueCount ≤ settings.workers)
    {verdict : Except Fault ScanTally} (hover : run.stage = .over verdict)
    (hfaults : faultsOf notes = []) : Flawless settings notes run.crew.floor.ledger := by
  have hdone := (h.judged.ended verdict hover).1
  have hdelivered : ∀ queue < settings.queueCount,
      receivedFrom queue notes = sentTo queue notes := by
    intro queue hqueue
    -- The first worker of the queue has exited, so the queue is empty.
    obtain ⟨worker, hworker, hplace⟩ := h.worker (Nat.lt_of_lt_of_le hqueue hworkers)
    rw [Settings.queueOf, Nat.mod_eq_of_lt hqueue] at hplace
    have hmem := List.mem_of_getElem? hworker
    have hexited := exited_of_isDone (List.all_eq_true.mp hdone worker hmem)
      (h.closed hdone hfaults hworker).2
    obtain ⟨channel, hchannel⟩ : ∃ channel, run.crew.floor.depot.channels[queue]? = some channel :=
      ⟨_, List.getElem?_eq_getElem (h.carried.width ▸ hqueue)⟩
    obtain ⟨hnil, -⟩ := h.carried.emptied worker hmem (Or.inr hexited) channel (hplace ▸ hchannel)
    have hcarried := h.carried.queue_eq queue channel hchannel
    rw [hnil, List.append_nil] at hcarried
    exact hcarried.symm
  have hprocessed : ∀ index < settings.workers, ∃ batches : List (Batch α × Measurements),
      journalOf index notes = recordedJournal batches := by
    intro index hindex
    obtain ⟨worker, hworker, -⟩ := h.worker hindex
    refine (h.closed hdone hfaults hworker).1.processed
      (fun deed hmem => fault?_of_mem_journalOf hfaults hmem) ?_
    exact fun batch hmem => h.told.skips index batch hmem hfaults
  refine ⟨?_, ?_, hdelivered, hprocessed, Prod.ext h.told.ledger_eq (h.told.complete hfaults)⟩
  · intro note hmem
    by_contra hfails
    have hfails : note.isFailure settings.queueCount = true := by simpa using hfails
    rcases h.judged.failed note hmem hfails with hraised | ⟨hcontra, -⟩ | hcontra
    · exact hraised hfaults
    · rw [hover] at hcontra
      cases hcontra
    · rw [hover] at hcontra
      cases hcontra
  · refine h.placed.sent_perm_recorded hqueues hdelivered fun index hindex => ?_
    obtain ⟨batches, hjournal⟩ := hprocessed index hindex
    rw [hjournal]
    exact receipts_recordedJournal batches

/-! ### The result -/

/-- Where a fault has been raised, the verdict on a run is the fault that was raised first. -/
theorem Chronicled.verdict_of_faults (h : run.Chronicled settings routing notes) {fault : Fault}
    {later : List Fault} (hfaults : faultsOf notes = fault :: later) :
    run.verdict = .error fault := by
  have hfirst : run.crew.floor.alarm.first = some fault := by
    rw [h.told.alarm_eq, hfaults]
    rfl
  rw [verdict, hfirst]

/-- Without a fault a run that is over has ended well. -/
theorem Chronicled.verdict_of_no_faults (h : run.Chronicled settings routing notes)
    {verdict : Except Fault ScanTally} (hover : run.stage = .over verdict)
    (hfaults : faultsOf notes = []) : ∃ tally, run.verdict = .ok tally := by
  have hdone := (h.judged.ended verdict hover).1
  have hfirst : run.crew.floor.alarm.first = none := by
    rw [h.told.alarm_eq, hfaults]
    rfl
  have hjoined : run.crew.joined = .ok () := by
    have hnobody : run.crew.workers.countP Worker.hasPanicked = 0 := by
      refine List.countP_eq_zero.mpr fun worker hmem => ?_
      obtain ⟨index, hindex⟩ := List.getElem?_of_mem hmem
      rw [(h.closed hdone hfaults hindex).2]
      exact Bool.false_ne_true
    rw [Crew.joined, hnobody]
    rfl
  obtain ⟨result, hresult, hraised⟩ := h.judged.returned
    (by rw [hover]; exact nofun) (by rw [hover]; exact nofun)
  cases result with
  | error fault => exact absurd hfaults (hraised fault rfl)
  | ok tally => exact ⟨tally, by rw [Run.verdict, hfirst, hjoined, hresult]⟩

/-- What holds of the chronicle of a run holds of what the run makes of its faults. -/
theorem Chronicled.heeds (h : run.Chronicled settings (workload.routing settings.queueCount) notes)
    (hqueues : 0 < settings.queueCount) (hworkers : settings.queueCount ≤ settings.workers)
    (hfile : settings.reportFile = none) : run.Heeds workload settings notes where
  alarm := h.told.alarm_eq
  result := by
    intro verdict hover configuration took
    have hverdict := (h.judged.ended verdict hover).2
    cases hfaults : faultsOf notes with
    | cons fault later =>
      rw [h.verdict_of_faults hfaults] at hverdict
      refine Or.inr ⟨fault, later, rfl, ?_⟩
      rw [outcome, hover, hverdict]
    | nil =>
      obtain ⟨tally, htally⟩ := h.verdict_of_no_faults hover hfaults
      rw [htally] at hverdict
      refine Or.inl ⟨rfl, h.flawless hqueues hworkers hover hfaults, ?_⟩
      rw [outcome, hover, hverdict, hfile]
      rfl
  unended := by
    intro hgoing configuration took
    unfold outcome
    split
    · next tally hover => exact absurd hover (hgoing _)
    · next fault hover => exact absurd hover (hgoing _)
    · rfl
  joined := fun verdict hover => (h.judged.ended verdict hover).1
  departed := by
    intro hdone index hindex
    obtain ⟨worker, hworker, -⟩ := h.worker hindex
    obtain ⟨ending, hwhole, -⟩ := h.whole hdone hworker
    exact hwhole.departed
  overflows := h.told.overflows
  placed := h.placed
  lost := h.judged.lost
  rests := by
    intro clock hstuck
    have hover : run.IsOver := by
      by_contra hgoing
      have hgoesOn : ∃ move, (run.step? workload clock move).isSome = true :=
        h.kept.exists_move hqueues (Nat.le_max_right _ _) clock hgoing
      obtain ⟨move, hmove⟩ := hgoesOn
      rw [hstuck move] at hmove
      cases hmove
    refine ⟨hover, ?_⟩
    rcases hover with hgone | ⟨verdict, hover⟩
    · -- The channels went with the reader, so every worker could go on until it was done.
      refine List.all_eq_true.mpr fun worker hmem => ?_
      by_contra hgoing
      have hgoesOn : (worker.step? workload.handler clock run.crew.floor).isSome = true :=
        h.kept.isSome_step?_of_dropped clock (Or.inr hgone) hmem (Bool.eq_false_iff.mpr hgoing)
      obtain ⟨move, hmove⟩ := exists_move_of_worker hmem hgoesOn
      rw [hstuck move] at hmove
      cases hmove
    · exact (h.judged.ended verdict hover).1
  ends := by
    intro hends hstops
    refine acc_of_stopping hends (rfl : settings.plan.mode = _) h.kept ?_
    intro hstage
    obtain ⟨note, hmem, hfails⟩ := hstops.resolve_right (not_not_intro hstage)
    rcases h.judged.failed note hmem hfails with hfaults | ⟨-, hspoiled⟩ | hgone
    · left
      rw [h.told.alarm_eq]
      cases hall : faultsOf notes with
      | nil => exact absurd hall hfaults
      | cons fault later => rfl
    · exact Or.inr hspoiled
    · rw [hstage] at hgone
      cases hgone

/-- From the moment on at which a fault has been raised the workers start nothing. -/
theorem ceases_of_elapse {world : ω} {input : φ} {past later : List Occurrence}
    (hstart : start workload settings world input = .ok first)
    (hpast : first.elapse? workload past = some mid)
    (hlater : mid.elapse? workload later = some run)
    (hraised : mid.crew.floor.alarm.isRaised = true) :
    mid.Ceases (mid.chronicle workload later) run := by
  have hstops := stops_elapse hraised hlater
  have hmid := chronicled_elapse hstart hpast
  have hall : first.elapse? workload (past ++ later) = some run := by
    rw [elapse?, follow?_append]
    rw [elapse?] at hpast hlater
    rw [hpast]
    exact hlater
  have hrun := chronicled_elapse hstart hall
  have hnotes : first.chronicle workload (past ++ later) =
      first.chronicle workload past ++ mid.chronicle workload later := noted_append hpast later
  -- A worker there was at that moment is there still.
  have hlate : ∀ index (before : Worker α κ τ), mid.crew.workers[index]? = some before →
      ∃ worker, run.crew.workers[index]? = some worker ∧
        Late before.stage worker.stage (journalOf index (mid.chronicle workload later)) := by
    intro index before hbefore
    have hindex : index < settings.workers := by
      have hlength := congrArg List.length hmid.places
      rw [List.length_map, List.length_map, List.length_range] at hlength
      rw [← hlength]
      exact (List.getElem?_eq_some_iff.mp hbefore).1
    obtain ⟨worker, hworker, -⟩ := hrun.worker hindex
    obtain ⟨earlier, hearlier, hlate⟩ := hstops.late index worker hworker
    obtain rfl := Option.some.inj (hearlier.symm.trans hbefore)
    exact ⟨worker, hworker, hlate⟩
  refine ⟨hstops.isRaised, ?_, ?_, ?_⟩
  · intro index before hbefore
    obtain ⟨worker, -, hlate⟩ := hlate index before hbefore
    exact hlate.started
  · intro index before hbefore
    obtain ⟨worker, -, hlate⟩ := hlate index before hbefore
    exact hlate.processed
  · intro hdone index before hbefore front batch rest hsplit
    obtain ⟨worker, hworker, hlate⟩ := hlate index before hbefore
    obtain ⟨ending, hwhole, -⟩ := hrun.whole hdone hworker
    rw [hnotes, journalOf, List.filterMap_append] at hwhole
    exact hlate.passed hwhole hsplit

/-- Whatever its workers and its input do, and whatever the schedule, a run heeds its faults: it
ends with its report only if nothing has failed, and otherwise with the fault that was raised first;
behind that fault no job is started; and every worker closes, unless it is lost. -/
theorem heeds_of_elapse (workload : Workload α κ τ ω φ) (world : ω) (input : φ)
    (hvalid : settings.validate = .ok ()) (hfile : settings.reportFile = none) :
    ∃ first, start workload settings world input = .ok first ∧
      ∀ occurrences run, first.elapse? workload occurrences = some run →
        run.Heeds workload settings (first.chronicle workload occurrences) ∧
          ∀ past later mid, occurrences = past ++ later →
            first.elapse? workload past = some mid → mid.crew.floor.alarm.isRaised = true →
              mid.Ceases (mid.chronicle workload later) run := by
  obtain ⟨-, hqueues, hworkers⟩ := Settings.valid hvalid
  obtain ⟨first, hstart⟩ := exists_start workload hqueues world input
  refine ⟨first, hstart, fun occurrences run helapse => ⟨?_, ?_⟩⟩
  · exact (chronicled_elapse hstart helapse).heeds hqueues hworkers hfile
  · rintro past later mid rfl hpast hraised
    refine ceases_of_elapse hstart hpast ?_ hraised
    rw [elapse?, follow?_append] at helapse
    rw [elapse?] at hpast
    rw [hpast] at helapse
    exact helapse

/-! ### Runs of numbers -/

/-- Steps in a row of one who makes them. -/
def inTurn (move : Move) (steps : Nat) : List Occurrence :=
  List.replicate steps (.move ⟨0, 0, 0⟩ move)

/-- One worker, and batches of `size` items. -/
def oneWorker (size : Nat) : Settings := { Settings.standard 1 with batchSize := size }

/-- Numbers are measured, and the seven is rejected. -/
def withoutSeven : Workload Nat Unit NumberJob (List Post) NumberInput :=
  NumberRules.workload ⟨some 7, none, none⟩ fun _ => Routing.first

/-- The scan goes on as long as it can, and then the worker until it fails. -/
def untilRejected : List Occurrence := inTurn (.main 0) 14 ++ inTurn (.worker 0) 4

/-- Behind the fault the worker passes over the batch that waits. -/
def untilOver : List Occurrence :=
  inTurn (.worker 0) 2 ++ inTurn (.main 0) 2 ++ inTurn (.worker 0) 4 ++ inTurn (.main 0) 3 ++
    inTurn (.worker 0) 2 ++ inTurn (.main 0) 1

theorem heeds_withoutSeven : ∃ first mid run,
    start withoutSeven (oneWorker 1) [] (NumberInput.ofText ['7', ' ', '8']) = .ok first ∧
    first.elapse? withoutSeven untilRejected = some mid ∧
    mid.crew.floor.alarm.isRaised = true ∧
    first.elapse? withoutSeven (untilRejected ++ untilOver) = some run ∧
    run.stage = .over (.error ⟨.execution, "item 7 rejected"⟩) ∧
    run.Heeds withoutSeven (oneWorker 1)
      (first.chronicle withoutSeven (untilRejected ++ untilOver)) ∧
    mid.Ceases (mid.chronicle withoutSeven untilOver) run := by
  obtain ⟨first, hfirst, hheeds⟩ := heeds_of_elapse withoutSeven []
    (NumberInput.ofText ['7', ' ', '8']) (show (oneWorker 1).validate = .ok () from rfl) rfl
  obtain rfl := Except.ok.inj ((show start withoutSeven (oneWorker 1) []
    (NumberInput.ofText ['7', ' ', '8']) = .ok _ from rfl).symm.trans hfirst)
  obtain ⟨hrun, hbehind⟩ := hheeds (untilRejected ++ untilOver) _ rfl
  exact ⟨_, _, _, rfl, rfl, rfl, rfl, rfl, hrun, hbehind untilRejected untilOver _ rfl rfl rfl⟩

/-- Two numbers whose bytes together are too many for 64 bits. -/
def tooLarge : List Char := "9223372036854775808 9223372036854775808".toList

/-- The two numbers are one batch, which the worker processes and cannot record. -/
def untilLost : List Occurrence :=
  inTurn (.main 0) 12 ++ inTurn (.worker 0) 6 ++ inTurn (.main 0) 3 ++ inTurn (.worker 0) 1 ++
    inTurn (.main 0) 1

/-- A worker of which no job has panicked is lost all the same, and has not closed when the run is
over: its recording panics. -/
theorem not_closed_untilLost : ∃ first run journal,
    start withoutSeven (oneWorker 2) [] (NumberInput.ofText tooLarge) = .ok first ∧
    first.elapse? withoutSeven untilLost = some run ∧
    run.stage = .over (.error (panicFault 0)) ∧
    journalOf 0 (first.chronicle withoutSeven untilLost) = journal ∧
    (∀ batch, .crashed batch ∉ journal) ∧ .closed ∉ journal := by
  obtain ⟨first, run, batch, measured, hstart, helapse, hover, hjournal⟩ :
      ∃ first run batch measured,
        start withoutSeven (oneWorker 2) [] (NumberInput.ofText tooLarge) = .ok first ∧
        first.elapse? withoutSeven untilLost = some run ∧
        run.stage = .over (.error (panicFault 0)) ∧
        journalOf 0 (first.chronicle withoutSeven untilLost) =
          [.prepared none, .received batch, .began batch, .finished batch measured,
            .overflowed batch measured, .acknowledged, .left] :=
    ⟨_, _, _, _, rfl, rfl, rfl, rfl⟩
  refine ⟨first, run, _, hstart, helapse, hover, hjournal, fun other hmem => ?_, fun hmem => ?_⟩
  · simp at hmem
  · simp at hmem

end Run

end LoadBench
