/-
  LoadBench.Proofs.Run.Chronicle

  What is told of a run.  Steps are made and reporting periods end, in any order
  (`Run.Occurrence`), and what matters of each of them is noted (`Run.note?`).
  The notes in order are the chronicle of a run, and its readings say what the run
  was about:

    * `faultsOf notes` — the faults that were raised, in order;
    * `journalOf index notes` — what a worker did;
    * `sentTo queue notes`, `receivedFrom queue notes` — the batches that went into a
      queue, and that its workers received;
    * `eventsOf notes` — what was entered into the ledger.

  The state of a run is what its chronicle says (`Told`), whatever the schedule.
-/

import LoadBench.Proofs.Crew.Departure
import LoadBench.Proofs.Ledger.Views
import LoadBench.Proofs.Run.Schedule

namespace LoadBench

variable {α κ τ ω φ : Type}

/-! ## Notes -/

/-- What is noted of a run. -/
inductive Note (α : Type) where
  /-- A worker of a queue did something. -/
  | did (worker queue : Nat) (deed : Deed α)
  /-- An item was read, and was to go to a queue. -/
  | read (item : α) (queue : Nat)
  /-- The input could not be read, or not be had again. -/
  | unread (fault : Fault)
  /-- The reader panicked. -/
  | lost
  | offered (queue : Nat) (batch : Batch α) (offer : Channel.Offer)
  /-- The scan returned, with a fault or well. -/
  | returned (fault : Option ScanFault)
  | period (timestamp : UInt64) (took : TimeSpan) (previous : Counts)

namespace Note

/-- The fault that was raised. -/
def fault? : Note α → Option Fault
  | .did worker _ deed => deed.fault? worker
  | .returned fault => fault.map ScanFault.fault
  | _ => none

/-- What a worker did. -/
def deedOf? (index : Nat) : Note α → Option (Deed α)
  | .did worker _ deed => if worker = index then some deed else none
  | _ => none

/-- The batch that went into a queue. -/
def sentTo? (queue : Nat) : Note α → Option (Batch α)
  | .offered chosen batch .accepted => if chosen = queue then some batch else none
  | _ => none

/-- The batch that a worker of a queue received. -/
def receivedFrom? (queue : Nat) : Note α → Option (Batch α)
  | .did _ chosen deed => if chosen = queue then deed.receipt? else none
  | _ => none

/-- What was entered into the ledger. -/
def event? : Note α → Option Ledger.Event
  | .did _ _ deed => deed.entry?.map .record
  | .period timestamp took previous => some (.endPeriod timestamp took previous)
  | _ => none

/-- Whether something went wrong, where there are `queues` queues: a worker could not be prepared
or its batch not be processed or recorded, the input could not be read, an item was to go to no
queue that there is, a batch was refused, or the scan returned a fault. -/
def isFailure (queues : Nat) : Note α → Bool
  | .did worker _ deed => (deed.fault? worker).isSome
  | .read _ queue => queues ≤ queue
  | .unread _ | .lost => true
  | .offered _ _ (.refused _) => true
  | .offered _ _ _ => false
  | .returned fault => fault.isSome
  | .period .. => false

end Note

/-! ## Readings of a chronicle -/

def faultsOf (notes : List (Note α)) : List Fault := notes.filterMap Note.fault?

def journalOf (index : Nat) (notes : List (Note α)) : List (Deed α) :=
  notes.filterMap (Note.deedOf? index)

def sentTo (queue : Nat) (notes : List (Note α)) : List (Batch α) :=
  notes.filterMap (Note.sentTo? queue)

def receivedFrom (queue : Nat) (notes : List (Note α)) : List (Batch α) :=
  notes.filterMap (Note.receivedFrom? queue)

def eventsOf (notes : List (Note α)) : List Ledger.Event := notes.filterMap Note.event?

/-- One note more, or none, is one more in a reading, or none. -/
theorem filterMap_concat {β γ : Type} (f : β → Option γ) (notes : List β) (note : Option β) :
    (notes ++ note.toList).filterMap f = notes.filterMap f ++ (note.bind f).toList := by
  rw [List.filterMap_append]
  cases note with
  | none => rfl
  | some note =>
    rw [Option.toList_some, Option.bind_some]
    cases hnote : f note with
    | none => rw [List.filterMap_cons_none hnote]; rfl
    | some value => rw [List.filterMap_cons_some hnote]; rfl

/-- A note of which nothing is read off changes no reading. -/
theorem filterMap_concat_of_none {β γ : Type} {f : β → Option γ} (notes : List β) {note : β}
    (h : f note = none) : (notes ++ [note]).filterMap f = notes.filterMap f := by
  rw [List.filterMap_append, List.filterMap_cons_none h]
  exact List.append_nil _

theorem faultsOf_append (notes more : List (Note α)) :
    faultsOf (notes ++ more) = faultsOf notes ++ faultsOf more :=
  List.filterMap_append

/-- Faults that were raised stay raised. -/
theorem faultsOf_append_ne_nil {notes : List (Note α)} (h : faultsOf notes ≠ [])
    (more : List (Note α)) : faultsOf (notes ++ more) ≠ [] := by
  rw [faultsOf_append]
  exact fun hnil => h (List.append_eq_nil_iff.mp hnil).1

section Did

variable (notes : List (Note α)) (index queue : Nat) (deed : Option (Deed α))

theorem faultsOf_concat_did :
    faultsOf (notes ++ (deed.map (Note.did index queue)).toList) =
      faultsOf notes ++ (deed.bind (Deed.fault? index)).toList := by
  rw [faultsOf, filterMap_concat, faultsOf]
  cases deed <;> rfl

theorem eventsOf_concat_did :
    eventsOf (notes ++ (deed.map (Note.did index queue)).toList) =
      eventsOf notes ++ ((deed.bind Deed.entry?).map Ledger.Event.record).toList := by
  rw [eventsOf, filterMap_concat, eventsOf]
  cases deed <;> rfl

/-- A deed is written into the journal of its worker, and into no other. -/
theorem journalOf_concat_did (i : Nat) :
    journalOf i (notes ++ (deed.map (Note.did index queue)).toList) =
      journalOf i notes ++ if index = i then deed.toList else [] := by
  rw [journalOf, filterMap_concat, journalOf]
  cases deed with
  | none => simp
  | some deed => by_cases hsame : index = i <;> simp [Note.deedOf?, hsame]

variable {notes index queue deed}

theorem mem_journalOf_concat_did {i : Nat} {done : Deed α}
    (h : done ∈ journalOf i (notes ++ (deed.map (Note.did index queue)).toList)) :
    done ∈ journalOf i notes ∨ deed = some done := by
  rw [journalOf_concat_did] at h
  rcases List.mem_append.mp h with hold | hnew
  · exact Or.inl hold
  · split at hnew
    · exact Or.inr (Option.mem_toList.mp hnew)
    · cases hnew

end Did

/-- One event more is handled behind the others. -/
theorem Ledger.replay_concat (ledger : Ledger) (events : List Event) (event : Event) :
    ledger.replay (events ++ [event]) =
      (((ledger.replay events).1.handle event).1,
        (ledger.replay events).2 && ((ledger.replay events).1.handle event).2) := by
  induction events generalizing ledger with
  | nil => simp [replay]
  | cons first rest ih => simp [replay, ih, Bool.and_assoc]

/-- The fault that a scan has returned. -/
def Scan.fault? (scan : Scan α) : Option ScanFault :=
  match scan.result? with
  | some (.error fault) => some fault
  | _ => none

namespace Run

/-! ## Occurrences -/

/-- What occurs in a run: somebody makes a step at the time a clock shows, or a reporting period
ends. -/
inductive Occurrence where
  | move (clock : Clock) (move : Move)
  | period (timestamp : UInt64) (took : TimeSpan) (previous : Counts)

/-- What a run becomes by an occurrence; nothing if the step cannot be made. -/
def occur? (workload : Workload α κ τ ω φ) (occurrence : Occurrence) (run : Run α κ τ ω φ) :
    Option (Run α κ τ ω φ) :=
  match occurrence with
  | .move clock move => run.step? workload clock move
  | .period timestamp took previous =>
    some (run.withLedger (run.crew.floor.ledger.endPeriod timestamp took previous).1)

/-- What a run becomes by occurrences in a row. -/
def elapse? (workload : Workload α κ τ ω φ) (occurrences : List Occurrence)
    (run : Run α κ τ ω φ) : Option (Run α κ τ ω φ) :=
  LoadBench.follow? (occur? workload) occurrences run

/-- What is noted of a step of the scan. -/
def mainNote? (workload : Workload α κ τ ω φ) (run : Run α κ τ ω φ) : Option (Note α) :=
  match run.stage with
  | .scanning =>
    match run.scan.request? with
    | none => some (.returned run.scan.fault?)
    | some .item =>
      match (workload.next run.input).2 with
      | .item item => some (.read item (run.scan.routing (run.scan.itemsRead + 1) item))
      | .ended => none
      | .unreadable fault => some (.unread fault)
      | .panicked => some .lost
    | some .rewind =>
      match (workload.again run.input).2 with
      | .error fault => some (.unread fault)
      | .ok _ => none
    | some (.send queue batch) =>
      (run.crew.floor.depot.channels[queue]?).map fun channel =>
        .offered queue batch (channel.offer batch).2
    | _ => none
  | _ => none

/-- What is noted of an occurrence. -/
def note? (workload : Workload α κ τ ω φ) (occurrence : Occurrence) (run : Run α κ τ ω φ) :
    Option (Note α) :=
  match occurrence with
  | .move _ (.main _) => run.mainNote? workload
  | .move clock (.worker index) =>
    (run.crew.workers[index]?).bind fun worker =>
      (worker.deed? workload.handler clock run.crew.floor).map (.did index worker.queue)
  | .period timestamp took previous => some (.period timestamp took previous)

/-- All that is noted of occurrences in a row. -/
def chronicle (workload : Workload α κ τ ω φ) (occurrences : List Occurrence)
    (run : Run α κ τ ω φ) : List (Note α) :=
  noted (occur? workload) (note? workload) occurrences run

variable {workload : Workload α κ τ ω φ} {clock : Clock} {run next : Run α κ τ ω φ}
  {occurrence : Occurrence} {notes : List (Note α)}

/-- The scan notes nothing about the workers and the ledger. -/
theorem mainNote?_silent (workload : Workload α κ τ ω φ) (run : Run α κ τ ω φ) :
    (∀ index, (run.mainNote? workload).bind (Note.deedOf? index) = none) ∧
      (∀ queue, (run.mainNote? workload).bind (Note.receivedFrom? queue) = none) ∧
      (run.mainNote? workload).bind Note.event? = none := by
  unfold mainNote?
  split
  · split
    · exact ⟨fun _ => rfl, fun _ => rfl, rfl⟩
    · split <;> exact ⟨fun _ => rfl, fun _ => rfl, rfl⟩
    · split <;> exact ⟨fun _ => rfl, fun _ => rfl, rfl⟩
    · next queue batch _ =>
      cases run.crew.floor.depot.channels[queue]? <;> exact ⟨fun _ => rfl, fun _ => rfl, rfl⟩
    · exact ⟨fun _ => rfl, fun _ => rfl, rfl⟩
  · exact ⟨fun _ => rfl, fun _ => rfl, rfl⟩

/-- A scan that has not returned raises no fault. -/
theorem mainNote?_fault {request : Request α} (hrequest : run.scan.request? = some request) :
    (run.mainNote? workload).bind Note.fault? = none := by
  unfold mainNote?
  split
  · split
    · next hreturned =>
      rw [hrequest] at hreturned
      cases hreturned
    · split <;> rfl
    · split <;> rfl
    · next queue batch _ => cases run.crew.floor.depot.channels[queue]? <;> rfl
    · rfl
  · rfl

/-- Behind the scan nothing is noted of it. -/
theorem mainNote?_behind (hstage : run.stage = .closing ∨ run.stage = .joining) :
    run.mainNote? workload = none := by
  rcases hstage with hstage | hstage <;> rw [mainNote?, hstage]

/-! ## The alarm and the ledger -/

/-- What a step of the scan does to the floor, the channels aside. -/
theorem main_step {pick : Nat} (hstep : Step workload clock run (.main pick) next) :
    next.crew.workers = run.crew.workers ∧ next.crew.floor.ledger = run.crew.floor.ledger ∧
      next.crew.floor.alarm =
        (run.crew.floor.raise? ((run.mainNote? workload).bind Note.fault?)).alarm := by
  cases hstep with
  | turn hstage hrequest hanswers | lose hstage hrequest hnext =>
    rw [mainNote?_fault hrequest]
    exact ⟨rfl, rfl, rfl⟩
  | scanned hstage hrequest =>
    unfold scanned mainNote? Scan.fault?
    simp only [hstage, hrequest]
    cases hresult : run.scan.result? with
    | none => exact ⟨rfl, rfl, rfl⟩
    | some result => cases result <;> exact ⟨rfl, rfl, rfl⟩
  | close hstage =>
    rw [mainNote?_behind (Or.inl hstage)]
    exact ⟨rfl, rfl, rfl⟩
  | join hstage hdone =>
    rw [mainNote?_behind (Or.inr hstage)]
    exact ⟨rfl, rfl, rfl⟩

/-- The alarm with the faults that were raised. -/
def alarmOf (faults : List Fault) : Alarm := ⟨faults.head?, !faults.isEmpty⟩

/-- The fault that was raised first stays. -/
theorem alarmOf_concat (faults : List Fault) (fault : Option Fault) {floor : Floor α ω}
    (h : floor.alarm = alarmOf faults) :
    (floor.raise? fault).alarm = alarmOf (faults ++ fault.toList) := by
  cases fault with
  | none =>
    rw [Option.toList_none, List.append_nil]
    exact h
  | some fault =>
    show floor.alarm.raise fault = _
    rw [h]
    cases faults <;> rfl

/-- Whether the alarm, the ledger and the workers of a run are as its notes say. -/
structure Told (burnIn : Nat) (notes : List (Note α)) (run : Run α κ τ ω φ) : Prop where
  alarm_eq : run.crew.floor.alarm = alarmOf (faultsOf notes)
  ledger_eq : ((Ledger.create burnIn).replay (eventsOf notes)).1 = run.crew.floor.ledger
  complete : faultsOf notes = [] → ((Ledger.create burnIn).replay (eventsOf notes)).2 = true
  posts : ∀ index (worker : Worker α κ τ), run.crew.workers[index]? = some worker →
    worker.post.worker = index
  journals : ∀ index (worker : Worker α κ τ), run.crew.workers[index]? = some worker →
    Journaled (journalOf index notes) worker.stage
  /-- A batch is passed over only behind a fault. -/
  skips : ∀ index batch, .skipped batch ∈ journalOf index notes → faultsOf notes ≠ []
  /-- A recording panics only over a batch with more bytes than 64 bits hold. -/
  overflows : ∀ index batch measured, .overflowed batch measured ∈ journalOf index notes →
    ¬Sample.Countable measured.samples

variable {burnIn : Nat}

/-- A step of the scan is told. -/
theorem Told.main (h : run.Told burnIn notes) {pick : Nat}
    (hstep : Step workload clock run (.main pick) next) :
    next.Told burnIn (notes ++ (run.mainNote? workload).toList) := by
  obtain ⟨hworkers, hledger, halarm⟩ := main_step hstep
  obtain ⟨hdeeds, -, hevents⟩ := run.mainNote?_silent workload
  have hsame : eventsOf (notes ++ (run.mainNote? workload).toList) = eventsOf notes := by
    rw [eventsOf, filterMap_concat, hevents, Option.toList_none, List.append_nil, eventsOf]
  have hjournal : ∀ index, journalOf index (notes ++ (run.mainNote? workload).toList) =
      journalOf index notes := by
    intro index
    rw [journalOf, filterMap_concat, hdeeds index, Option.toList_none, List.append_nil, journalOf]
  refine ⟨?_, ?_, ?_, ?_, ?_, ?_, ?_⟩
  · rw [halarm, alarmOf_concat _ _ h.alarm_eq, faultsOf, faultsOf, filterMap_concat]
  · rw [hsame, hledger]
    exact h.ledger_eq
  · intro hnone
    rw [hsame]
    exact h.complete (List.append_eq_nil_iff.mp (faultsOf_append .. ▸ hnone)).1
  · rw [hworkers]
    exact h.posts
  · intro index worker hworker
    rw [hworkers] at hworker
    rw [hjournal]
    exact h.journals index worker hworker
  · intro index batch hmem
    rw [hjournal] at hmem
    exact faultsOf_append_ne_nil (h.skips index batch hmem) _
  · intro index batch measured hmem
    rw [hjournal] at hmem
    exact h.overflows index batch measured hmem

/-- The end of a reporting period is told. -/
theorem Told.period (h : run.Told burnIn notes) (timestamp : UInt64) (took : TimeSpan)
    (previous : Counts) :
    (run.withLedger (run.crew.floor.ledger.endPeriod timestamp took previous).1).Told burnIn
      (notes ++ [.period timestamp took previous]) := by
  have hevents : eventsOf (notes ++ [Note.period timestamp took previous]) =
      eventsOf notes ++ [.endPeriod timestamp took previous] := by
    rw [eventsOf, List.filterMap_append]
    rfl
  have hfaults : faultsOf (notes ++ [Note.period timestamp took previous]) = faultsOf notes :=
    filterMap_concat_of_none notes rfl
  have hjournal : ∀ index, journalOf index (notes ++ [Note.period timestamp took previous]) =
      journalOf index notes := fun index => filterMap_concat_of_none notes rfl
  refine ⟨?_, ?_, ?_, h.posts, ?_, ?_, ?_⟩
  · rw [hfaults]
    exact h.alarm_eq
  · rw [hevents, Ledger.replay_concat, h.ledger_eq]
    rfl
  · intro hnone
    rw [hfaults] at hnone
    rw [hevents, Ledger.replay_concat, h.complete hnone]
    rfl
  · intro index worker hworker
    rw [hjournal]
    exact h.journals index worker hworker
  · intro index batch hmem
    rw [hjournal] at hmem
    rw [hfaults]
    exact h.skips index batch hmem
  · intro index batch measured hmem
    rw [hjournal] at hmem
    exact h.overflows index batch measured hmem

/-- What a worker enters into the ledger is an event. -/
theorem replay_entry (ledger : Ledger) (events : List Ledger.Event) (entry : Option Measurements) :
    (ledger.replay (events ++ (entry.map Ledger.Event.record).toList)).1 =
        entry.elim (ledger.replay events).1 (fun measured =>
          ((ledger.replay events).1.record measured).1) ∧
      ((ledger.replay events).2 = true →
        (∀ measured, entry = some measured → ((ledger.replay events).1.record measured).2 = true) →
          (ledger.replay (events ++ (entry.map Ledger.Event.record).toList)).2 = true) := by
  cases entry with
  | none =>
    rw [Option.map_none, Option.toList_none, List.append_nil]
    exact ⟨rfl, fun hall _ => hall⟩
  | some measured =>
    rw [Option.map_some, Option.toList_some, Ledger.replay_concat]
    refine ⟨rfl, fun hall hrecord => ?_⟩
    rw [hall]
    exact hrecord measured rfl

/-- A recording is lost only over a batch with more bytes than 64 bits hold. -/
theorem not_countable_of_deed? {handler : Handler α κ τ ω} {worker : Worker α κ τ}
    {floor : Floor α ω} {batch : Batch α} {measured : Measurements}
    (h : worker.deed? handler clock floor = some (.overflowed batch measured)) :
    ¬Sample.Countable measured.samples := by
  intro hcountable
  have hlost : (floor.ledger.record measured).2 = false := Worker.record_of_deed? h rfl
  -- What is left behind the burn-in has no more bytes than all of it.
  have hmore : Sample.Countable
      (measured.samples.drop (floor.ledger.burnIn - floor.ledger.seen)) :=
    hcountable.mono (Multiset.coe_le.mpr (List.drop_sublist _ _).subperm)
  rw [(Ledger.record_snd _ _).mpr hmore] at hlost
  cases hlost

/-- A step of a worker is told. -/
theorem Told.work (h : run.Told burnIn notes) {index : Nat} {worker worker' : Worker α κ τ}
    {floor : Floor α ω} (hworker : run.crew.workers[index]? = some worker)
    (hstep : Worker.Step workload.handler clock worker run.crew.floor worker' floor) :
    Told burnIn (notes ++ ((worker.deed? workload.handler clock run.crew.floor).map
        (Note.did index worker.queue)).toList)
      { run with crew := ⟨run.crew.workers.set index worker', floor⟩ } := by
  obtain ⟨halarm, hledger⟩ := Worker.floor_of_step hstep
  rw [h.posts index worker hworker] at halarm
  have hjournal := Worker.journaled_step (h.journals index worker hworker) hstep
  have hpost : worker'.post = worker.post := by cases hstep <;> rfl
  have hrecord : ∀ deed measured,
      worker.deed? workload.handler clock run.crew.floor = some deed →
        deed.entry? = some measured →
          (run.crew.floor.ledger.record measured).2 = !deed.isLoss :=
    fun deed measured hdeed hentry => Worker.record_of_deed? hdeed hentry
  have hskip : ∀ batch, worker.deed? workload.handler clock run.crew.floor = some (.skipped batch) →
      run.crew.floor.alarm.isRaised = true := fun batch hdeed => Worker.isRaised_of_deed? hdeed
  have hoverflow : ∀ batch measured, worker.deed? workload.handler clock run.crew.floor =
      some (.overflowed batch measured) → ¬Sample.Countable measured.samples :=
    fun batch measured hdeed => not_countable_of_deed? hdeed
  generalize worker.deed? workload.handler clock run.crew.floor = deed at *
  have hfaults := faultsOf_concat_did notes index worker.queue deed
  have hevents := eventsOf_concat_did notes index worker.queue deed
  obtain ⟨hreplay, hcomplete⟩ :=
    replay_entry (Ledger.create burnIn) (eventsOf notes) (deed.bind Deed.entry?)
  rw [h.ledger_eq] at hreplay hcomplete
  refine ⟨?_, ?_, ?_, ?_, ?_, ?_, ?_⟩
  · show floor.alarm = _
    rw [halarm, alarmOf_concat _ _ h.alarm_eq, hfaults]
  · rw [hevents, hreplay]
    exact hledger.symm
  · intro hnone
    rw [hfaults, List.append_eq_nil_iff] at hnone
    rw [hevents]
    refine hcomplete (h.complete hnone.1) ?_
    intro measured hentry
    obtain ⟨deed, rfl, hentry⟩ := Option.bind_eq_some_iff.mp hentry
    rw [hrecord deed measured rfl hentry, Bool.not_eq_true']
    by_contra hloss
    rw [Option.bind_some, Deed.fault?_of_isLoss (Bool.not_eq_false _ ▸ hloss)] at hnone
    cases hnone.2
  · intro i other hother
    rcases eq_or_of_getElem?_set hother with ⟨rfl, rfl⟩ | ⟨-, hother⟩
    · rw [hpost]
      exact h.posts index worker hworker
    · exact h.posts i other hother
  · intro i other hother
    rw [journalOf_concat_did]
    rcases eq_or_of_getElem?_set hother with ⟨rfl, rfl⟩ | ⟨hsame, hother⟩
    · rw [if_pos rfl]
      exact hjournal
    · rw [if_neg hsame, List.append_nil]
      exact h.journals i other hother
  · intro i batch hmem
    rw [hfaults]
    intro hnil
    have hquiet := (List.append_eq_nil_iff.mp hnil).1
    rcases mem_journalOf_concat_did hmem with hmem | hdeed
    · exact h.skips i batch hmem hquiet
    · -- The alarm was raised before.
      have hraised := hskip batch hdeed
      rw [h.alarm_eq, hquiet] at hraised
      cases hraised
  · intro i batch measured hmem
    rcases mem_journalOf_concat_did hmem with hmem | hdeed
    · exact h.overflows i batch measured hmem
    · exact hoverflow batch measured hdeed

/-- Whatever occurs is told. -/
theorem told_occur (h : run.Told burnIn notes)
    (hoccur : run.occur? workload occurrence = some next) :
    next.Told burnIn (notes ++ (run.note? workload occurrence).toList) := by
  cases occurrence with
  | period timestamp took previous =>
    obtain rfl := Option.some.inj hoccur
    exact h.period timestamp took previous
  | move clock move =>
    have hstep := step?_sound (show run.step? workload clock move = some next from hoccur)
    cases move with
    | main pick => exact h.main hstep
    | worker index =>
      cases hstep with
      | work hworker hstep =>
        rw [note?, hworker]
        exact h.work hworker hstep

end Run

end LoadBench
