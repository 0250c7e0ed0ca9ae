/-
  LoadBench.Proofs.Crew.Journal

  What a worker does, deed by deed.  A step leaves one deed at most
  (`Worker.deed?`), and the deeds of a worker in order are its journal.  All
  journals have one shape: the preparation, a round for each batch that was given
  back, and behind the rounds what the stage of the worker says (`Journaled`).
-/

import LoadBench.Proofs.Crew.Staff

namespace LoadBench

variable {α κ τ ω : Type}

/-! ## Deeds -/

/-- What a worker does. -/
inductive Deed (α : Type) where
  /-- It was prepared, or could not be. -/
  | prepared (fault : Option Fault)
  | received (batch : Batch α)
  /-- It passed a batch over, for the run was over. -/
  | skipped (batch : Batch α)
  /-- It started the job of a batch. -/
  | began (batch : Batch α)
  | finished (batch : Batch α) (measured : Measurements)
  | failed (batch : Batch α) (fault : Fault)
  /-- The job of a batch panicked. -/
  | crashed (batch : Batch α)
  | recorded (batch : Batch α) (measured : Measurements)
  /-- The recording of a batch panicked. -/
  | overflowed (batch : Batch α) (measured : Measurements)
  | released (batch : Batch α)
  | acknowledged
  /-- It was gone, without having closed. -/
  | left
  /-- It found its queue closed and empty. -/
  | exhausted
  /-- It let go of what it had. -/
  | closed
  deriving DecidableEq, Repr

namespace Deed

/-- The fault that a deed of a worker raises. -/
def fault? (worker : Nat) : Deed α → Option Fault
  | .prepared fault => fault
  | .failed _ fault => some fault
  | .crashed _ | .overflowed _ _ => some (panicFault worker)
  | _ => none

/-- The batch at whose job a worker is. -/
def job? : Deed α → Option (Batch α)
  | .began batch | .finished batch _ | .failed batch _ | .crashed batch => some batch
  | _ => none

/-- The batch that was received. -/
def receipt? : Deed α → Option (Batch α)
  | .received batch => some batch
  | _ => none

/-- The batch that was recorded. -/
def recorded? : Deed α → Option (Batch α)
  | .recorded batch _ => some batch
  | _ => none

/-- What was recorded, all of it or as far as it went. -/
def entry? : Deed α → Option Measurements
  | .recorded _ measured | .overflowed _ measured => some measured
  | _ => none

/-- Whether a worker is lost. -/
def isLoss : Deed α → Bool
  | .crashed _ | .overflowed _ _ => true
  | _ => false

theorem fault?_of_isLoss {deed : Deed α} (h : deed.isLoss = true) (worker : Nat) :
    deed.fault? worker = some (panicFault worker) := by
  cases deed with
  | crashed | overflowed => rfl
  | _ => cases h

end Deed

namespace Worker

/-- What a worker does by its next step, if the step is more than a part of a job. -/
def deed? (handler : Handler α κ τ ω) (clock : Clock) (worker : Worker α κ τ)
    (floor : Floor α ω) : Option (Deed α) :=
  match worker.stage with
  | .starting =>
    some (.prepared (handler.prepare worker.kept worker.post floor.surroundings.world).2.2)
  | .receiving =>
    match (floor.depot.receive worker.queue worker.endpoint).2 with
    | .received batch => some (.received batch)
    | .exhausted => some .exhausted
    | _ => none
  | .holding batch => some (if floor.alarm.isRaised then .skipped batch else .began batch)
  | .working batch job =>
    match (handler.step clock job floor.surroundings).2 with
    | .going _ => none
    | .done measured => some (.finished batch measured)
    | .failed fault => some (.failed batch fault)
    | .panicked => some (.crashed batch)
  | .recording batch measured =>
    some (if (floor.ledger.record measured).2 then .recorded batch measured
      else .overflowed batch measured)
  | .releasing batch => some (.released batch)
  | .crediting | .unwinding => some .acknowledged
  | .leaving => some .left
  | .closing => some .closed
  | .exited | .panicked => none

variable {handler : Handler α κ τ ω} {clock : Clock} {worker worker' : Worker α κ τ}
  {floor floor' : Floor α ω}

theorem deed?_of_receive {channel : Channel (Batch α)} {batch : Batch α} {rest : List (Batch α)}
    (hstage : worker.stage = .receiving)
    (hchannel : floor.depot.channels[worker.queue]? = some channel)
    (hholds : channel.holds worker.endpoint = true) (hqueue : channel.queue = batch :: rest) :
    worker.deed? handler clock floor = some (.received batch) := by
  simp [deed?, hstage, Depot.receive, hchannel, Channel.receive, hholds, hqueue]

theorem deed?_of_exhaust {channel : Channel (Batch α)} (hstage : worker.stage = .receiving)
    (hchannel : floor.depot.channels[worker.queue]? = some channel)
    (hholds : channel.holds worker.endpoint = true) (hqueue : channel.queue = [])
    (hclosed : channel.isOpen = false) :
    worker.deed? handler clock floor = some .exhausted := by
  simp [deed?, hstage, Depot.receive, hchannel, Channel.receive, hholds, hqueue, hclosed]

theorem deed?_of_acknowledge {next : WorkerStage α τ}
    (hstage : worker.stage = .crediting ∧ next = .receiving ∨
      worker.stage = .unwinding ∧ next = .leaving) :
    worker.deed? handler clock floor = some .acknowledged := by
  rcases hstage with ⟨hstage, -⟩ | ⟨hstage, -⟩ <;> rw [deed?, hstage]

/-- The faults of the alarm and the entries of the ledger are those of the deeds. -/
theorem floor_of_step (hstep : Step handler clock worker floor worker' floor') :
    floor'.alarm = (floor.raise?
        ((worker.deed? handler clock floor).bind (Deed.fault? worker.post.worker))).alarm ∧
      floor'.ledger = ((worker.deed? handler clock floor).bind Deed.entry?).elim floor.ledger
        fun measured => (floor.ledger.record measured).1 := by
  cases hstep with
  | @prepare world kept fault hstage hprepare =>
    rw [deed?, hstage]
    dsimp only
    rw [hprepare]
    cases fault <;> exact ⟨rfl, rfl⟩
  | receive hstage hchannel hholds hqueue =>
    rw [deed?_of_receive hstage hchannel hholds hqueue]
    exact ⟨rfl, rfl⟩
  | exhaust hstage hchannel hqueue hclosed hholds =>
    rw [deed?_of_exhaust hstage hchannel hholds hqueue hclosed]
    exact ⟨rfl, rfl⟩
  | skip hstage hraised | start hstage hraised =>
    simp only [deed?, hstage, hraised]
    exact ⟨rfl, rfl⟩
  | go hstage hjob | finish hstage hjob | fail hstage hjob | crash hstage hjob =>
    simp only [deed?, hstage, hjob]
    exact ⟨rfl, rfl⟩
  | record hstage hrecord | overflow hstage hrecord =>
    simp only [deed?, hstage, hrecord]
    exact ⟨rfl, congrArg Prod.fst hrecord.symm⟩
  | acknowledge hstage hchannel hsent =>
    rw [deed?_of_acknowledge hstage]
    exact ⟨rfl, rfl⟩
  | release hstage | leave hstage | close hstage =>
    rw [deed?, hstage]
    exact ⟨rfl, rfl⟩

/-- A recording comes to its end, unless the worker is lost by it. -/
theorem record_of_deed? {deed : Deed α} {measured : Measurements}
    (h : worker.deed? handler clock floor = some deed) (hentry : deed.entry? = some measured) :
    (floor.ledger.record measured).2 = !deed.isLoss := by
  unfold deed? at h
  split at h
  case h_5 batch found hstage =>
    by_cases hrecord : (floor.ledger.record found).2 = true
    · rw [if_pos hrecord] at h
      obtain rfl := Option.some.inj h
      obtain rfl := Option.some.inj hentry
      exact hrecord
    · rw [if_neg hrecord] at h
      obtain rfl := Option.some.inj h
      obtain rfl := Option.some.inj hentry
      exact Bool.eq_false_iff.mpr hrecord
  -- No other deed is an entry.
  all_goals grind [Deed.entry?]

/-- A batch is passed over only when the run is over. -/
theorem isRaised_of_deed? {batch : Batch α}
    (h : worker.deed? handler clock floor = some (.skipped batch)) :
    floor.alarm.isRaised = true := by
  unfold deed? at h
  split at h
  case h_3 found hstage =>
    by_contra hquiet
    rw [if_neg hquiet] at h
    cases h
  all_goals grind

end Worker

/-! ## Rounds -/

/-- What came of a batch that a worker gave back. -/
inductive Treatment where
  | skipped
  | recorded (measured : Measurements)
  | failed (fault : Fault)
  deriving DecidableEq, Repr

/-- How a worker was lost: its job panicked, or the recording of what it measured. -/
inductive Loss where
  | crashed
  | overflowed (measured : Measurements)
  deriving DecidableEq, Repr

/-- A batch that a worker received and gave back. -/
structure Round (α : Type) where
  batch : Batch α
  treatment : Treatment

/-- How the journal of a worker ends. -/
inductive Ending (α : Type) where
  | closed
  | lost (batch : Batch α) (loss : Loss)

def Treatment.deeds (batch : Batch α) : Treatment → List (Deed α)
  | .skipped => [.skipped batch]
  | .recorded measured => [.began batch, .finished batch measured, .recorded batch measured]
  | .failed fault => [.began batch, .failed batch fault]

def Loss.deeds (batch : Batch α) : Loss → List (Deed α)
  | .crashed => [.began batch, .crashed batch]
  | .overflowed measured => [.began batch, .finished batch measured, .overflowed batch measured]

/-- A batch that was received is released, so that the pool has it again, and acknowledged. -/
def Round.deeds (round : Round α) : List (Deed α) :=
  .received round.batch :: round.treatment.deeds round.batch ++
    [.released round.batch, .acknowledged]

/-- A worker that is lost acknowledges its batch, but the pool does not have it again. -/
def Ending.deeds : Ending α → List (Deed α)
  | .closed => [.exhausted, .closed]
  | .lost batch loss => .received batch :: loss.deeds batch ++ [.acknowledged, .left]

/-- The preparation of a worker and its rounds. -/
def history (fault : Option Fault) (rounds : List (Round α)) : List (Deed α) :=
  .prepared fault :: rounds.flatMap Round.deeds

/-! ## Journals -/

/-- What a worker at a stage has done behind its last round. -/
def WorkerStage.Pending : WorkerStage α τ → List (Deed α) → Prop
  | .starting, _ => False
  | .receiving, rest => rest = []
  | .holding batch, rest => rest = [.received batch]
  | .working batch _, rest => rest = [.received batch, .began batch]
  | .recording batch measured, rest =>
    rest = [.received batch, .began batch, .finished batch measured]
  | .releasing batch, rest =>
    ∃ treatment : Treatment, rest = .received batch :: treatment.deeds batch
  | .crediting, rest => ∃ batch, ∃ treatment : Treatment,
    rest = .received batch :: treatment.deeds batch ++ [.released batch]
  | .unwinding, rest => ∃ batch, ∃ loss : Loss, rest = .received batch :: loss.deeds batch
  | .leaving, rest => ∃ batch, ∃ loss : Loss,
    rest = .received batch :: loss.deeds batch ++ [.acknowledged]
  | .closing, rest => rest = [.exhausted]
  | .exited, rest => rest = Ending.deeds .closed
  | .panicked, rest => ∃ batch loss, rest = Ending.deeds (.lost batch loss)

/-- Whether a journal is one of a worker at a stage. -/
inductive Journaled : List (Deed α) → WorkerStage α τ → Prop where
  | starting : Journaled [] .starting
  | behind {stage : WorkerStage α τ} {rest : List (Deed α)} (fault : Option Fault)
      (rounds : List (Round α)) (h : stage.Pending rest) :
      Journaled (history fault rounds ++ rest) stage

/-- A worker that has been prepared goes on with its round. -/
theorem Journaled.concat {journal : List (Deed α)} {stage stage' : WorkerStage α τ}
    {deeds : List (Deed α)} (h : Journaled journal stage) (hstarting : stage ≠ .starting)
    (hnext : ∀ rest, stage.Pending rest → stage'.Pending (rest ++ deeds)) :
    Journaled (journal ++ deeds) stage' := by
  cases h with
  | starting => exact absurd rfl hstarting
  | behind fault rounds hpending =>
    rw [List.append_assoc]
    exact .behind fault rounds (hnext _ hpending)

/-- A round comes to its end. -/
theorem Journaled.acknowledged {journal : List (Deed α)}
    (h : Journaled journal (WorkerStage.crediting : WorkerStage α τ)) :
    Journaled (journal ++ [.acknowledged]) (WorkerStage.receiving : WorkerStage α τ) := by
  cases h with
  | behind fault rounds hpending =>
    obtain ⟨batch, treatment, rfl⟩ := hpending
    have hround : Journaled (history fault (rounds ++ [⟨batch, treatment⟩]) ++ [])
        (WorkerStage.receiving : WorkerStage α τ) := .behind fault _ rfl
    simpa [history, Round.deeds] using hround

namespace Worker

variable {handler : Handler α κ τ ω} {clock : Clock} {worker worker' : Worker α κ τ}
  {floor floor' : Floor α ω} {journal : List (Deed α)}

/-- A journal goes on with the deed of a step. -/
theorem journaled_step (h : Journaled journal worker.stage)
    (hstep : Step handler clock worker floor worker' floor') :
    Journaled (journal ++ (worker.deed? handler clock floor).toList) worker'.stage := by
  cases hstep with
  | prepare hstage hprepare =>
    rw [hstage] at h
    cases h with
    | starting =>
      rw [deed?, hstage]
      exact .behind _ [] rfl
    | behind fault rounds hpending => cases hpending
  | receive hstage hchannel hholds hqueue =>
    rw [deed?_of_receive hstage hchannel hholds hqueue]
    rw [hstage] at h
    refine h.concat nofun ?_
    rintro rest rfl
    exact rfl
  | exhaust hstage hchannel hqueue hclosed hholds =>
    rw [deed?_of_exhaust hstage hchannel hholds hqueue hclosed]
    rw [hstage] at h
    refine h.concat nofun ?_
    rintro rest rfl
    exact rfl
  | skip hstage hraised =>
    simp only [deed?, hstage, hraised] at h ⊢
    refine h.concat nofun ?_
    rintro rest rfl
    exact ⟨.skipped, rfl⟩
  | start hstage hquiet =>
    simp only [deed?, hstage, hquiet] at h ⊢
    refine h.concat nofun ?_
    rintro rest rfl
    exact rfl
  | go hstage hjob | finish hstage hjob =>
    simp only [deed?, hstage, hjob] at h ⊢
    refine h.concat nofun ?_
    rintro rest rfl
    exact rfl
  | fail hstage hjob =>
    simp only [deed?, hstage, hjob] at h ⊢
    refine h.concat nofun ?_
    rintro rest rfl
    exact ⟨.failed _, rfl⟩
  | crash hstage hjob =>
    simp only [deed?, hstage, hjob] at h ⊢
    refine h.concat nofun ?_
    rintro rest rfl
    exact ⟨_, .crashed, rfl⟩
  | record hstage hrecord =>
    simp only [deed?, hstage, hrecord] at h ⊢
    refine h.concat nofun ?_
    rintro rest rfl
    exact ⟨.recorded _, rfl⟩
  | overflow hstage hrecord =>
    simp only [deed?, hstage, hrecord] at h ⊢
    refine h.concat nofun ?_
    rintro rest rfl
    exact ⟨_, .overflowed _, rfl⟩
  | release hstage =>
    simp only [deed?, hstage] at h ⊢
    refine h.concat nofun ?_
    rintro rest ⟨treatment, rfl⟩
    exact ⟨_, treatment, rfl⟩
  | acknowledge hstage hchannel hsent =>
    rw [deed?_of_acknowledge hstage]
    rcases hstage with ⟨hstage, rfl⟩ | ⟨hstage, rfl⟩ <;> rw [hstage] at h
    · exact h.acknowledged
    · refine h.concat nofun ?_
      rintro rest ⟨batch, loss, rfl⟩
      exact ⟨batch, loss, rfl⟩
  | leave hstage =>
    simp only [deed?, hstage] at h ⊢
    refine h.concat nofun ?_
    rintro rest ⟨batch, loss, rfl⟩
    exact ⟨batch, loss, by simp [Ending.deeds]⟩
  | close hstage =>
    simp only [deed?, hstage] at h ⊢
    refine h.concat nofun ?_
    rintro rest rfl
    exact rfl

end Worker

end LoadBench
