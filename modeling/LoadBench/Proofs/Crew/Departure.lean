/-
  LoadBench.Proofs.Crew.Departure

  How workers leave.  The journal of a worker that is done is whole: all its
  rounds have come to their ends, and then it has closed, or it was lost with a
  batch (`Whole`).  It has closed unless its job panicked, or the recording of what
  the job measured (`Departed`).

  In a run that is over a worker starts no job any more (`Late`), and passes over
  what it receives.
-/

import Mathlib.Data.Set.List
import LoadBench.Proofs.Crew.Journal

namespace LoadBench

variable {α κ τ ω : Type}

/-! ## Workers that are done -/

/-- Whether a journal is whole: all its rounds have come to their ends, and the worker has closed
or was lost. -/
def Whole (journal : List (Deed α)) (ending : Ending α) : Prop :=
  ∃ fault rounds, journal = history fault rounds ++ ending.deeds

/-- The journal of a worker that is done is whole, and says whether the worker panicked. -/
theorem Journaled.whole {worker : Worker α κ τ} {journal : List (Deed α)}
    (h : Journaled journal worker.stage) (hdone : worker.isDone = true) :
    ∃ ending, Whole journal ending ∧ (worker.hasPanicked = true ↔ ending ≠ .closed) := by
  cases hstage : worker.stage with
  | exited =>
    rw [hstage] at h
    cases h with
    | behind fault rounds hpending =>
      refine ⟨.closed, ⟨fault, rounds, by rw [hpending]⟩, ?_⟩
      simp [Worker.hasPanicked, hstage]
  | panicked =>
    rw [hstage] at h
    cases h with
    | behind fault rounds hpending =>
      obtain ⟨batch, loss, rfl⟩ := hpending
      refine ⟨.lost batch loss, ⟨fault, rounds, rfl⟩, ?_⟩
      simp [Worker.hasPanicked, hstage]
  | _ => simp [Worker.isDone, hstage] at hdone

/-- In a round a worker neither closes nor is lost. -/
theorem Round.stays (round : Round α) :
    .closed ∉ round.deeds ∧ ∀ deed ∈ round.deeds, deed.isLoss = false := by
  cases round with
  | mk batch treatment => cases treatment <;> simp [Round.deeds, Treatment.deeds, Deed.isLoss]

theorem closed_notMem_history (fault : Option Fault) (rounds : List (Round α)) :
    .closed ∉ history fault rounds := by
  intro hmem
  rcases List.mem_cons.mp hmem with hcontra | hmem
  · cases hcontra
  · obtain ⟨round, -, hmem⟩ := List.mem_flatMap.mp hmem
    exact round.stays.1 hmem

/-- A worker that has closed has done so once, as the last thing it did. -/
theorem Whole.closed {journal : List (Deed α)} (h : Whole journal .closed) :
    ∃ before, journal = before ++ [.closed] ∧ .closed ∉ before := by
  obtain ⟨fault, rounds, rfl⟩ := h
  refine ⟨history fault rounds ++ [.exhausted], by simp [Ending.deeds], ?_⟩
  intro hmem
  rcases List.mem_append.mp hmem with hmem | hmem
  · exact closed_notMem_history fault rounds hmem
  · simp at hmem

/-- A worker that was lost has not closed. -/
theorem Whole.lost {journal : List (Deed α)} {batch : Batch α} {loss : Loss}
    (h : Whole journal (.lost batch loss)) :
    .closed ∉ journal ∧ ∃ deed ∈ journal, deed.isLoss = true := by
  obtain ⟨fault, rounds, rfl⟩ := h
  refine ⟨?_, ?_⟩
  · intro hmem
    rcases List.mem_append.mp hmem with hmem | hmem
    · exact closed_notMem_history fault rounds hmem
    · cases loss <;> simp [Ending.deeds, Loss.deeds] at hmem
  · cases loss with
    | crashed => exact ⟨.crashed batch, by simp [Ending.deeds, Loss.deeds], rfl⟩
    | overflowed measured =>
      exact ⟨.overflowed batch measured, by simp [Ending.deeds, Loss.deeds], rfl⟩

/-- A batch is received at the beginning of its round only. -/
theorem Round.split {round : Round α} {front rest : List (Deed α)} {batch : Batch α}
    (h : round.deeds = front ++ .received batch :: rest) :
    front = [] ∧ round.batch = batch ∧
      rest = round.treatment.deeds round.batch ++ [.released round.batch, .acknowledged] := by
  cases front with
  | nil =>
    obtain ⟨hbatch, hrest⟩ := List.cons.inj h
    exact ⟨rfl, Deed.received.inj hbatch, hrest.symm⟩
  | cons deed front =>
    have htail : round.treatment.deeds round.batch ++ [.released round.batch, .acknowledged] =
        front ++ .received batch :: rest := (List.cons.inj h).2
    have hmem : Deed.received batch ∈
        round.treatment.deeds round.batch ++ [.released round.batch, .acknowledged] := by
      rw [htail]
      simp
    cases htreatment : round.treatment <;> simp [Treatment.deeds, htreatment] at hmem

theorem Ending.split {ending : Ending α} {front rest : List (Deed α)} {batch : Batch α}
    (h : ending.deeds = front ++ .received batch :: rest) :
    ∃ loss : Loss, ending = .lost batch loss ∧
      rest = loss.deeds batch ++ [.acknowledged, .left] := by
  have hmem : Deed.received batch ∈ ending.deeds := by
    rw [h]
    simp
  cases ending with
  | closed => simp [Ending.deeds] at hmem
  | lost other loss =>
    cases front with
    | nil =>
      obtain ⟨hbatch, hrest⟩ := List.cons.inj h
      obtain rfl := Deed.received.inj hbatch
      exact ⟨loss, rfl, hrest.symm⟩
    | cons deed front =>
      have htail : loss.deeds other ++ [.acknowledged, .left] =
          front ++ .received batch :: rest := (List.cons.inj h).2
      have hmem : Deed.received batch ∈ loss.deeds other ++ [.acknowledged, .left] := by
        rw [htail]
        simp
      cases loss <;> simp [Loss.deeds] at hmem

/-- What comes behind a batch that was received: the rest of its round, or the worker was lost
with it. -/
theorem Whole.received {journal front rest : List (Deed α)} {ending : Ending α} {batch : Batch α}
    (h : Whole journal ending) (hsplit : journal = front ++ .received batch :: rest) :
    (∃ treatment : Treatment, ∃ later,
        rest = treatment.deeds batch ++ .released batch :: .acknowledged :: later) ∨
      ∃ loss : Loss, ending = .lost batch loss ∧
        rest = loss.deeds batch ++ [.acknowledged, .left] := by
  obtain ⟨fault, rounds, rfl⟩ := h
  -- By induction on the rounds: the batch is that of the first one, or of a later one.
  obtain ⟨front, rfl⟩ : ∃ others, front = .prepared fault :: others := by
    cases front with
    | nil => cases (List.cons.inj hsplit).1
    | cons deed others => exact ⟨others, by rw [(List.cons.inj hsplit).1]⟩
  have hrounds : rounds.flatMap Round.deeds ++ ending.deeds = front ++ .received batch :: rest :=
    (List.cons.inj hsplit).2
  clear hsplit
  induction rounds generalizing front with
  | nil => exact Or.inr (Ending.split hrounds)
  | cons round rounds ih =>
    rw [List.flatMap_cons, List.append_assoc] at hrounds
    rcases List.append_eq_append_iff.mp hrounds with
      ⟨others, rfl, hothers⟩ | ⟨others, hround, hrest⟩
    · exact ih others hothers
    · cases others with
      | nil =>
        rw [List.append_nil] at hround
        exact ih [] hrest.symm
      | cons deed others =>
        obtain ⟨hdeed, hlater⟩ := List.cons.inj hrest
        rw [← hdeed] at hround
        obtain ⟨-, hbatch, htail⟩ := Round.split hround
        refine Or.inl ⟨round.treatment, rounds.flatMap Round.deeds ++ ending.deeds, ?_⟩
        rw [hlater, htail, hbatch]
        exact List.append_assoc ..

/-- A worker that has raised no fault was not lost. -/
theorem Whole.closed_of_faultless {journal : List (Deed α)} {ending : Ending α}
    (h : Whole journal ending) {index : Nat}
    (hfaults : ∀ deed ∈ journal, deed.fault? index = none) : ending = .closed := by
  cases ending with
  | closed => rfl
  | lost batch loss =>
    obtain ⟨-, deed, hmem, hloss⟩ := h.lost
    have hfault := hfaults deed hmem
    rw [Deed.fault?_of_isLoss hloss] at hfault
    cases hfault

/-- A worker that has closed was not lost. -/
theorem Whole.isLoss {journal : List (Deed α)} (h : Whole journal .closed) {deed : Deed α}
    (hmem : deed ∈ journal) : deed.isLoss = false := by
  obtain ⟨fault, rounds, rfl⟩ := h
  rcases List.mem_append.mp hmem with hmem | hmem
  · rcases List.mem_cons.mp hmem with rfl | hmem
    · rfl
    · obtain ⟨round, -, hmem⟩ := List.mem_flatMap.mp hmem
      exact round.stays.2 deed hmem
  · simp only [Ending.deeds, List.mem_cons, List.not_mem_nil, or_false] at hmem
    rcases hmem with rfl | rfl <;> rfl

/-- How a worker that is done has left: with all its rounds at their ends, and closed unless it was
lost. -/
structure Departed (journal : List (Deed α)) : Prop where
  whole : ∃ ending, Whole journal ending
  closes : (∀ deed ∈ journal, deed.isLoss = false) →
    ∃ before, journal = before ++ [.closed] ∧ .closed ∉ before
  lost : ∀ deed ∈ journal, deed.isLoss = true → .closed ∉ journal

theorem Whole.departed {journal : List (Deed α)} {ending : Ending α} (h : Whole journal ending) :
    Departed journal := by
  cases ending with
  | closed =>
    refine ⟨⟨_, h⟩, fun _ => h.closed, ?_⟩
    intro deed hmem hloss
    rw [h.isLoss hmem] at hloss
    cases hloss
  | lost batch loss =>
    obtain ⟨hunclosed, deed, hmem, hloss⟩ := h.lost
    refine ⟨⟨_, h⟩, ?_, fun _ _ _ => hunclosed⟩
    intro hnone
    rw [hnone deed hmem] at hloss
    cases hloss

/-! ## Workers that have recorded all they received -/

/-- A batch that was processed, and what it measured recorded. -/
def Round.recorded (entry : Batch α × Measurements) : Round α := ⟨entry.1, .recorded entry.2⟩

/-- The journal of a worker that could be prepared, has processed and recorded batches one after
the other, and has closed. -/
def recordedJournal (batches : List (Batch α × Measurements)) : List (Deed α) :=
  history none (batches.map Round.recorded) ++ Ending.closed.deeds

/-- A round without a fault, in which the batch is not passed over, records it. -/
theorem Round.exists_recorded {round : Round α} {index : Nat}
    (hfaults : ∀ deed ∈ round.deeds, deed.fault? index = none)
    (hskips : ∀ batch, .skipped batch ∉ round.deeds) : ∃ entry, Round.recorded entry = round := by
  cases round with
  | mk batch treatment =>
    cases treatment with
    | recorded measured => exact ⟨(batch, measured), rfl⟩
    | skipped =>
      have hmem : .skipped batch ∈ Round.deeds ⟨batch, .skipped⟩ := by
        simp [Round.deeds, Treatment.deeds]
      exact absurd hmem (hskips batch)
    | failed fault =>
      have hmem : .failed batch fault ∈ Round.deeds ⟨batch, .failed fault⟩ := by
        simp [Round.deeds, Treatment.deeds]
      have hfault := hfaults _ hmem
      cases hfault

/-- A worker that has raised no fault and passed nothing over has recorded all it received. -/
theorem Whole.processed {journal : List (Deed α)} {ending : Ending α} (h : Whole journal ending)
    {index : Nat} (hfaults : ∀ deed ∈ journal, deed.fault? index = none)
    (hskips : ∀ batch, .skipped batch ∉ journal) :
    ∃ batches : List (Batch α × Measurements), journal = recordedJournal batches := by
  obtain rfl := h.closed_of_faultless hfaults
  obtain ⟨fault, rounds, rfl⟩ := h
  obtain rfl : fault = none := hfaults (.prepared fault) (by simp [history])
  have hrounds : rounds ∈ Set.range (List.map (Round.recorded (α := α))) := by
    rw [Set.range_list_map]
    intro round hround
    -- What is done in a round is in the journal.
    have hmem : ∀ deed ∈ round.deeds, deed ∈ history none rounds ++ Ending.closed.deeds := by
      intro deed hdeed
      apply List.mem_append_left
      apply List.mem_cons_of_mem
      exact List.mem_flatMap.mpr ⟨round, hround, hdeed⟩
    apply Round.exists_recorded
    · exact fun deed hdeed => hfaults deed (hmem deed hdeed)
    · exact fun batch hskipped => hskips batch (hmem _ hskipped)
  obtain ⟨batches, rfl⟩ := hrounds
  exact ⟨batches, rfl⟩

/-- A worker with such a journal has recorded what it received. -/
theorem receipts_recordedJournal (batches : List (Batch α × Measurements)) :
    (recordedJournal batches).filterMap Deed.receipt? =
      (recordedJournal batches).filterMap Deed.recorded? := by
  have hrounds : ((batches.map Round.recorded).flatMap Round.deeds).filterMap Deed.receipt? =
      ((batches.map Round.recorded).flatMap Round.deeds).filterMap Deed.recorded? := by
    induction batches with
    | nil => rfl
    | cons entry rest ih =>
      rw [List.map_cons, List.flatMap_cons, List.filterMap_append, List.filterMap_append, ih]
      rfl
  rw [recordedJournal, history, List.cons_append, List.filterMap_cons_none rfl,
    List.filterMap_cons_none rfl, List.filterMap_append, List.filterMap_append, hrounds]
  rfl

/-! ## Workers of a run that is over -/

/-- Whether a worker at a stage is at a job. -/
def WorkerStage.isWorking : WorkerStage α τ → Bool
  | .working _ _ => true
  | _ => false

/-- What a worker has done since the run was over, with the stage it was at then and the one it is
at now. It starts no job, and goes on with the one it was at only. -/
structure Late (before now : WorkerStage α τ) (journal : List (Deed α)) : Prop where
  works : ∀ batch job, now = .working batch job → ∃ job, before = .working batch job
  started : ∀ batch, .began batch ∉ journal
  processed : ∀ deed ∈ journal, ∀ batch, deed.job? = some batch →
    ∃ job, before = .working batch job

theorem late_now (stage : WorkerStage α τ) : Late stage stage ([] : List (Deed α)) where
  works := fun _ job hnow => ⟨job, hnow⟩
  started := fun _ => List.not_mem_nil
  processed := fun _ hmem => absurd hmem List.not_mem_nil

/-- A batch that is received when the run is over is passed over, released and acknowledged. -/
theorem Late.passed {before now : WorkerStage α τ} {journal : List (Deed α)}
    (h : Late before now journal) {past front rest : List (Deed α)} {ending : Ending α}
    {batch : Batch α} (hwhole : Whole (past ++ journal) ending)
    (hsplit : journal = front ++ .received batch :: rest) :
    ∃ later, rest = .skipped batch :: .released batch :: .acknowledged :: later := by
  -- Any other treatment starts the job of the batch, and so does the loss of the worker.
  have hbegan : .began batch ∉ rest := by
    intro hmem
    refine h.started batch ?_
    rw [hsplit]
    exact List.mem_append_right _ (List.mem_cons_of_mem _ hmem)
  have hall : past ++ journal = (past ++ front) ++ .received batch :: rest := by
    rw [hsplit, List.append_assoc]
  rcases hwhole.received hall with ⟨treatment, later, rfl⟩ | ⟨loss, -, rfl⟩
  · cases treatment with
    | skipped => exact ⟨later, rfl⟩
    | recorded | failed => simp [Treatment.deeds] at hbegan
  · cases loss <;> simp [Loss.deeds] at hbegan

/-- A worker goes on with a deed that starts no job, and is part of one only if the worker is at
it. -/
theorem Late.concat {before now next : WorkerStage α τ} {journal : List (Deed α)}
    (h : Late before now journal) {deed : Deed α}
    (hdeed : ∀ batch, deed.job? = some batch →
      deed ≠ .began batch ∧ ∃ job, now = .working batch job)
    (hnext : next.isWorking = false) : Late before next (journal ++ [deed]) where
  works := by
    rintro batch job rfl
    cases hnext
  started := by
    intro batch hmem
    rcases List.mem_append.mp hmem with hmem | hmem
    · exact h.started batch hmem
    · have hbegan := List.mem_singleton.mp hmem
      have hjob : deed.job? = some batch := by rw [← hbegan, Deed.job?]
      exact (hdeed batch hjob).1 hbegan.symm
  processed := by
    intro other hmem batch hjob
    rcases List.mem_append.mp hmem with hmem | hmem
    · exact h.processed other hmem batch hjob
    · rw [List.mem_singleton.mp hmem] at hjob
      obtain ⟨-, job, hnow⟩ := hdeed batch hjob
      exact h.works batch job hnow

/-- A worker goes on with a deed that is no part of a job. -/
theorem Late.aside {before now next : WorkerStage α τ} {journal : List (Deed α)}
    (h : Late before now journal) {deed : Deed α} (hdeed : deed.job? = none)
    (hnext : next.isWorking = false) : Late before next (journal ++ [deed]) := by
  refine h.concat (fun batch hjob => ?_) hnext
  rw [hdeed] at hjob
  cases hjob

/-- In a run that is over a worker starts no job. -/
theorem Worker.late_step {handler : Handler α κ τ ω} {clock : Clock} {worker worker' : Worker α κ τ}
    {floor floor' : Floor α ω} {before : WorkerStage α τ} {journal : List (Deed α)}
    (h : Late before worker.stage journal) (hraised : floor.alarm.isRaised = true)
    (hstep : Step handler clock worker floor worker' floor') :
    Late before worker'.stage (journal ++ (worker.deed? handler clock floor).toList) := by
  cases hstep with
  | start hstage hquiet =>
    rw [hraised] at hquiet
    cases hquiet
  | go hstage hjob =>
    simp only [deed?, hstage, hjob] at h ⊢
    rw [Option.toList_none, List.append_nil]
    refine ⟨?_, h.started, h.processed⟩
    intro batch job hworking
    obtain ⟨rfl, -⟩ := WorkerStage.working.inj hworking
    exact h.works _ _ rfl
  | finish hstage hjob | fail hstage hjob | crash hstage hjob =>
    simp only [deed?, hstage, hjob] at h ⊢
    refine h.concat ?_ rfl
    intro found hfound
    obtain rfl := Option.some.inj hfound
    exact ⟨by simp, _, rfl⟩
  | receive hstage hchannel hholds hqueue =>
    rw [deed?_of_receive hstage hchannel hholds hqueue]
    exact h.aside rfl rfl
  | exhaust hstage hchannel hqueue hclosed hholds =>
    rw [deed?_of_exhaust hstage hchannel hholds hqueue hclosed]
    exact h.aside rfl rfl
  | skip hstage hraised =>
    simp only [deed?, hstage, hraised]
    exact h.aside rfl rfl
  | record hstage hrecord | overflow hstage hrecord =>
    simp only [deed?, hstage, hrecord]
    exact h.aside rfl rfl
  | acknowledge hstage hchannel hsent =>
    rw [deed?_of_acknowledge hstage]
    rcases hstage with ⟨-, rfl⟩ | ⟨-, rfl⟩ <;> exact h.aside rfl rfl
  | prepare hstage | release hstage | leave hstage | close hstage =>
    simp only [deed?, hstage]
    exact h.aside rfl rfl

end LoadBench
