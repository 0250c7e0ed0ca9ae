/-
  LoadBench.Proofs.Crew.Ending

  Workers come to an end.  Every step of a worker takes something from what the
  crew has still to do (`Crew.load`): a batch that waits, or a stage of a worker.
  The only step that does not is one by which a job goes on; there the jobs of
  the crew become less, if jobs end at all (`Handler.Ends`).  Workers make no new
  batches, so this holds whatever the scan does.
-/

import LoadBench.Proofs.Crew.Staff
import Mathlib.Data.Multiset.Filter
import Mathlib.Logic.Hydra

namespace LoadBench

variable {α κ τ ω : Type}

/-! ## Jobs that end -/

/-- Whether a job may go on as another. -/
def Handler.Continues (handler : Handler α κ τ ω) (next job : τ) : Prop :=
  ∃ clock before after, handler.step clock job before = (after, .going next)

/-- Whether every job comes to an end, whatever happens around it. -/
def Handler.Ends (handler : Handler α κ τ ω) : Prop := WellFounded handler.Continues

/-- Whether a job that comes to an end may go on as another. -/
def Handler.Winds (handler : Handler α κ τ ω) (next job : τ) : Prop :=
  handler.Continues next job ∧ Acc handler.Continues job

/-- Jobs that come to an end do so, whatever others do. -/
theorem Handler.winds_wellFounded (handler : Handler α κ τ ω) : WellFounded handler.Winds := by
  -- A job that does not come to an end is followed by none, so both kinds are accessible.
  refine ⟨fun job => ⟨job, ?_⟩⟩
  rintro next ⟨hgoing, hends⟩
  exact Subrelation.accessible And.left (hends.inv hgoing)

/-! ## What is still to do -/

/-- How many steps a worker has before it at most, those of its job and further batches aside. -/
def WorkerStage.rank : WorkerStage α τ → Nat
  | .holding _ => 8
  | .working _ _ => 7
  | .recording _ _ => 6
  | .releasing _ => 5
  | .crediting => 4
  | .unwinding => 4
  | .starting => 3
  | .receiving => 2
  | .leaving => 1
  | .closing => 1
  | .exited => 0
  | .panicked => 0

/-- The job a worker is at. -/
def Worker.job? (worker : Worker α κ τ) : Option τ :=
  match worker.stage with
  | .working _ job => some job
  | _ => none

/-- How many batches wait in the channels. -/
def Depot.waiting (depot : Depot α) : Nat :=
  (depot.channels.map fun channel => channel.queue.length).sum

namespace Crew

/-- How many steps a crew has before it at most, those of its jobs aside. A batch takes seven. -/
def load (crew : Crew α κ τ ω) : Nat :=
  7 * crew.floor.depot.waiting + (crew.workers.map fun worker => worker.stage.rank).sum

/-- The jobs a crew is at. -/
def jobs (crew : Crew α κ τ ω) : Multiset τ := ↑(crew.workers.filterMap Worker.job?)

variable {crew : Crew α κ τ ω} {worker worker' : Worker α κ τ} {floor : Floor α ω} {index : Nat}

/-- The load changes with the batches that wait and the stage of the worker. -/
theorem load_set (hworker : crew.workers[index]? = some worker) :
    load (⟨crew.workers.set index worker', floor⟩ : Crew α κ τ ω) + worker.stage.rank +
        7 * crew.floor.depot.waiting =
      crew.load + worker'.stage.rank + 7 * floor.depot.waiting := by
  have hsum := sum_map_set hworker worker' fun worker => worker.stage.rank
  dsimp only [load]
  omega

/-- One job goes on as another, and the others are as before. -/
theorem jobs_set (hworker : crew.workers[index]? = some worker) {job next : τ}
    (hjob : worker.job? = some job) (hnext : worker'.job? = some next) :
    ∃ others : Multiset τ, crew.jobs = {job} + others ∧
      jobs (⟨crew.workers.set index worker', floor⟩ : Crew α κ τ ω) = {next} + others := by
  obtain ⟨hlt, hget⟩ := List.getElem?_eq_some_iff.mp hworker
  obtain ⟨front, back, hsplit, -, hset⟩ := @List.exists_of_set _ _ worker' _ hlt
  rw [hget] at hsplit
  -- The other jobs are those of the workers in front of this one and behind it.
  have hmiddle : ∀ some : τ, (↑(front.filterMap Worker.job? ++ some :: back.filterMap Worker.job?) :
      Multiset τ) = {some} + ↑(front.filterMap Worker.job? ++ back.filterMap Worker.job?) := by
    intro some
    rw [Multiset.singleton_add, Multiset.cons_coe, Multiset.coe_eq_coe]
    exact List.perm_middle
  refine ⟨↑(front.filterMap Worker.job? ++ back.filterMap Worker.job?), ?_, ?_⟩
  · rw [jobs, hsplit, List.filterMap_append, List.filterMap_cons_some hjob]
    exact hmiddle job
  · rw [jobs, hset, List.filterMap_append, List.filterMap_cons_some hnext]
    exact hmiddle next

/-- The batches that wait, when the channel of a queue changes. -/
theorem waiting_set {depot after : Depot α} {queue : Nat} {channel other : Channel (Batch α)}
    (hchannel : depot.channels[queue]? = some channel)
    (hchannels : after.channels = depot.channels.set queue other) :
    after.waiting + channel.queue.length = depot.waiting + other.queue.length := by
  rw [Depot.waiting, hchannels]
  exact sum_map_set hchannel other _

/-- No batch is lost when the scan lets go of its sides of the channels. -/
theorem waiting_dropSenders (depot : Depot α) : depot.dropSenders.waiting = depot.waiting := by
  rw [Depot.waiting, Depot.dropSenders, List.map_map]
  rfl

/-- A batch less waits when a worker receives one, and only then. -/
theorem waiting_of_effect (h : Worker.Effect worker crew.floor.depot worker' floor.depot) :
    worker.stage.rank = 2 ∧ worker'.stage.rank = 8 ∧
        floor.depot.waiting + 1 = crew.floor.depot.waiting ∨
      ¬(worker.stage = .receiving ∧ ∃ batch, worker'.stage = .holding batch) ∧
        floor.depot.waiting = crew.floor.depot.waiting := by
  -- A worker that receives had no batch and has one, so the other effects receive none.
  have hreceipt : ∀ {held held' : Bool}, worker.holdsBatch = held → worker'.holdsBatch = held' →
      held = held' ∨ held = true →
        ¬(worker.stage = .receiving ∧ ∃ batch, worker'.stage = .holding batch) := by
    rintro held held' hheld hheld' hcase ⟨hstage, batch, hstage'⟩
    rw [Worker.holdsBatch, hstage] at hheld
    rw [Worker.holdsBatch, hstage'] at hheld'
    subst hheld hheld'
    simp at hcase
  cases h with
  | none hdone hdone' hholds hchannels =>
    refine Or.inr ⟨hreceipt rfl hholds (Or.inl rfl), ?_⟩
    rw [Depot.waiting, hchannels, Depot.waiting]
  | receive hdone hdone' hstage hstage' hchannel hqueue hchannels =>
    have hset := waiting_set hchannel hchannels
    rw [hqueue, List.length_cons] at hset
    refine Or.inl ⟨by rw [hstage]; rfl, by rw [hstage']; rfl, ?_⟩
    dsimp only at hset
    omega
  | acknowledge hdone hdone' hholds hidle hchannel hsent hchannels =>
    have hset := waiting_set hchannel hchannels
    rw [Channel.acknowledge_eq hsent] at hset
    dsimp only at hset
    exact Or.inr ⟨hreceipt hholds hidle (Or.inr rfl), by omega⟩
  | drop hdone hdone' hidle hidle' hchannels =>
    refine Or.inr ⟨hreceipt hidle hidle' (Or.inl rfl), ?_⟩
    rw [Depot.waiting, hchannels, Depot.waiting, Depot.drop, Depot.modifyChannel]
    congr 1
    refine List.ext_getElem? fun i => ?_
    rw [List.getElem?_map, List.getElem?_map, List.getElem?_modify]
    cases crew.floor.depot.channels[i]? with
    | none => rfl
    | some channel =>
      show some (Channel.queue _).length = _
      split <;> rfl

/-- A worker is nearer to its end behind a step, unless it receives a batch or its job goes on. -/
theorem rank_step {handler : Handler α κ τ ω} {clock : Clock}
    (hstep : Worker.Step handler clock worker crew.floor worker' floor) :
    worker'.stage.rank < worker.stage.rank ∨
      (worker.stage = .receiving ∧ ∃ batch, worker'.stage = .holding batch) ∨
      worker'.stage.rank = worker.stage.rank ∧
        ∃ job next, worker.job? = some job ∧ worker'.job? = some next ∧
          handler.Continues next job := by
  cases hstep with
  | go hstage hjob =>
    refine Or.inr (Or.inr ⟨by rw [hstage]; rfl, _, _, ?_, rfl, ⟨_, _, _, hjob⟩⟩)
    rw [Worker.job?, hstage]
  | receive hstage hchannel hholds hqueue => exact Or.inr (Or.inl ⟨hstage, _, rfl⟩)
  | acknowledge hstage hchannel hsent =>
    left
    rcases hstage with ⟨hstage, rfl⟩ | ⟨hstage, rfl⟩ <;>
      simp [hstage, Worker.goTo, WorkerStage.rank]
  | prepare hstage | exhaust hstage | skip hstage | start hstage | finish hstage | fail hstage
  | crash hstage | record hstage | overflow hstage | release hstage | leave hstage | close hstage =>
    left
    simp [hstage, Worker.goTo, WorkerStage.rank]

/-- Crews with less to do, or with jobs that have gone on. -/
def Less (goesOn : τ → τ → Prop) : Nat × Multiset τ → Nat × Multiset τ → Prop :=
  Prod.Lex (· < ·) (Relation.CutExpand goesOn)

theorem less_wellFounded {goesOn : τ → τ → Prop} (h : WellFounded goesOn) :
    WellFounded (Less goesOn) :=
  WellFounded.prod_lex Nat.lt_wfRel.wf h.cutExpand

/-- A step of a worker leaves less to do, unless its job goes on. -/
theorem load_step {handler : Handler α κ τ ω} {goesOn : τ → τ → Prop} {clock : Clock}
    (hworker : crew.workers[index]? = some worker)
    (hgoesOn : ∀ job next, worker.job? = some job → handler.Continues next job → goesOn next job)
    (hstep : Worker.Step handler clock worker crew.floor worker' floor) :
    load (⟨crew.workers.set index worker', floor⟩ : Crew α κ τ ω) < crew.load ∨
      load (⟨crew.workers.set index worker', floor⟩ : Crew α κ τ ω) = crew.load ∧
        Relation.CutExpand goesOn
          (jobs (⟨crew.workers.set index worker', floor⟩ : Crew α κ τ ω)) crew.jobs := by
  have hload : load ⟨crew.workers.set index worker', floor⟩ + _ + _ = _ := load_set hworker
  have heffect := Worker.effect_of_step hstep
  -- A batch that is received takes seven from what waits, and adds six to the stage of the worker.
  rcases waiting_of_effect heffect with ⟨hrank, hrank', hless⟩ | ⟨hkept, hsame⟩
  · left
    omega
  · rcases rank_step hstep with hrank | hreceived | ⟨hrank, job, next, hjob, hnext, hgoing⟩
    · left
      omega
    · exact absurd hreceived hkept
    · right
      obtain ⟨others, hbefore, hafter⟩ := jobs_set hworker hjob hnext
      refine ⟨by omega, ?_⟩
      rw [hbefore, hafter]
      exact Relation.cutExpand_single_add (hgoesOn job next hjob hgoing) others

end Crew

end LoadBench
