/-
  LoadBench.Proofs.Crew.Balance

  What workers have recorded, and what they still owe.  A contract says which
  samples an item comes to.  If a handler meets its contract (`Handler.Meets`) and
  nothing ends the run early, then at any moment the samples of the items that the
  workers have received are those that the ledger has and those that a worker
  still owes (`Crew.Balanced`).  So no batch is lost and none is recorded twice,
  whatever the order in which the workers make their steps.
-/

import LoadBench.Proofs.Crew.Ending
import LoadBench.Proofs.Ledger.Tally
import Mathlib.Algebra.Order.BigOperators.Group.Finset
import Mathlib.Algebra.Order.Group.Multiset
import Mathlib.Data.Multiset.Bind
import Mathlib.Tactic.Abel

namespace LoadBench

variable {α κ τ ω : Type}

/-! ## Contracts -/

/-- What the workers of a run are to measure. -/
structure Contract (α κ τ : Type) where
  /-- What an item comes to, without dates. -/
  samples : α → List Sample
  /-- Whether a worker that keeps something can start a job. -/
  ready : κ → Prop
  /-- Whether a job will have measured certain samples when it ends. -/
  owes : τ → List Sample → Prop

/-- The samples that items come to. -/
def Contract.total (contract : Contract α κ τ) (items : Multiset α) : Multiset Sample :=
  items.bind fun item => (contract.samples item : Multiset Sample)

/-- What may come of a step of a job that owes samples. -/
def Contract.Allows (contract : Contract α κ τ) (owed : List Sample) : Progress τ → Prop
  | .going next => contract.owes next owed
  | .done measured => measured.samples.map Sample.undated = owed
  | .failed _ | .panicked => False

/-- Whether a handler meets a contract, as long as commands are issued. -/
structure Handler.Meets (handler : Handler α κ τ ω) (contract : Contract α κ τ) : Prop where
  prepares : ∀ kept post world, post.loadEnabled = true →
    ∃ after prepared, handler.prepare kept post world = (after, prepared, none) ∧
      contract.ready prepared
  starts : ∀ kept batch limited, contract.ready kept →
    contract.owes (handler.start kept batch true limited) (batch.items.flatMap contract.samples)
  works : ∀ clock job surroundings owed, contract.owes job owed →
    contract.Allows owed (handler.step clock job surroundings).2
  ends : ∀ job owed, contract.owes job owed → Acc handler.Continues job

/-- Whether a worker owes certain samples. One whose job has panicked has lost them. -/
def Worker.Owes (contract : Contract α κ τ) (worker : Worker α κ τ) (owed : List Sample) : Prop :=
  worker.post.loadEnabled = true ∧
    match worker.stage with
    | .starting | .closing | .exited => owed = []
    | .receiving | .releasing _ | .crediting => contract.ready worker.kept ∧ owed = []
    | .holding batch =>
      contract.ready worker.kept ∧ owed = batch.items.flatMap contract.samples
    | .working _ job => contract.ready worker.kept ∧ contract.owes job owed
    | .recording _ measured =>
      contract.ready worker.kept ∧ measured.samples.map Sample.undated = owed
    | .unwinding | .leaving | .panicked => False

namespace Worker

variable {handler : Handler α κ τ ω} {contract : Contract α κ τ} {clock : Clock}
  {worker worker' : Worker α κ τ} {floor floor' : Floor α ω} {owed : List Sample}

/-! ## One worker -/

/-- Whether a step loses no sample: those that were owed, and those of a batch that comes in, are
owed or recorded behind it. -/
def Settles (contract : Contract α κ τ) (worker worker' : Worker α κ τ) (floor floor' : Floor α ω)
    (owed : List Sample) (recorded : Multiset Sample) : Prop :=
  ∃ (owed' : List Sample) (recorded' : Multiset Sample),
    worker'.Owes contract owed' ∧ floor'.alarm = floor.alarm ∧ floor'.ledger.Holds recorded' ∧
    recorded' + (owed' : Multiset Sample) = recorded +
      (owed ++ ((worker.receipt worker').flatMap Batch.items).flatMap contract.samples :
        List Sample)

variable {recorded : Multiset Sample}

/-- In most steps nothing is received and nothing is recorded. -/
theorem settles_of_owes (hrecorded : floor.ledger.Holds recorded)
    (hreceipt : worker.receipt worker' = []) (howes : worker'.Owes contract owed)
    (halarm : floor'.alarm = floor.alarm) (hledger : floor'.ledger = floor.ledger) :
    Settles contract worker worker' floor floor' owed recorded := by
  refine ⟨owed, recorded, howes, halarm, by rw [hledger]; exact hrecorded, ?_⟩
  rw [hreceipt, List.flatMap_nil, List.flatMap_nil, List.append_nil]

/-- What a worker has measured it owes no longer when it is recorded. -/
theorem settles_record {batch : Batch α} {measured : Measurements} {ledger : Ledger}
    (hrecorded : floor.ledger.Holds recorded) (hload : worker.post.loadEnabled = true)
    (hready : contract.ready worker.kept) (hstage : worker.stage = .recording batch measured)
    (hcountable : Sample.Countable (measured.samples.map Sample.undated : List Sample))
    (hrecord : floor.ledger.record measured = (ledger, true)) :
    Settles contract worker (worker.goTo (.releasing batch)) floor { floor with ledger }
      (measured.samples.map Sample.undated) recorded := by
  obtain ⟨after, hafter, hholds⟩ := hrecorded.record (Sample.countable_undated hcountable)
  rw [hrecord] at hafter
  obtain ⟨rfl, -⟩ := Prod.mk.inj hafter
  refine ⟨[], recorded + (measured.samples.map Sample.undated : List Sample),
    ⟨hload, hready, rfl⟩, rfl, hholds.undated _ ?_, ?_⟩
  · rw [← Multiset.map_coe, Multiset.map_add, Multiset.map_add, Multiset.map_map]
    rfl
  · rw [receipt, hstage]
    simp

/-- What a worker of a quiet run does with the samples it owes: it keeps owing them or records them.
It owes more when it receives a batch. -/
theorem owes_step (hmeets : handler.Meets contract) (h : worker.Owes contract owed)
    (hstep : Step handler clock worker floor worker' floor')
    (hquiet : floor.alarm.isRaised = false) (hrecorded : floor.ledger.Holds recorded)
    (hcountable : Sample.Countable owed) :
    Settles contract worker worker' floor floor' owed recorded := by
  obtain ⟨hload, howes⟩ := h
  cases hstep with
  | prepare hstage hprepare =>
    rw [hstage] at howes
    obtain ⟨after, prepared, hprepared, hready⟩ :=
      hmeets.prepares worker.kept worker.post floor.surroundings.world hload
    rw [hprepare] at hprepared
    obtain ⟨rfl, hkept⟩ := Prod.mk.inj hprepared
    obtain ⟨rfl, rfl⟩ := Prod.mk.inj hkept
    exact settles_of_owes hrecorded (by rw [receipt, hstage]) ⟨hload, hready, howes⟩ rfl rfl
  | @receive channel batch rest hstage hchannel hholds hqueue =>
    rw [hstage] at howes
    obtain ⟨hready, rfl⟩ := howes
    refine ⟨batch.items.flatMap contract.samples, recorded, ⟨hload, hready, rfl⟩, rfl, hrecorded,
      ?_⟩
    rw [receipt, hstage]
    simp [goTo]
  | exhaust hstage hchannel hqueue hclosed =>
    rw [hstage] at howes
    exact settles_of_owes hrecorded (by rw [receipt, hstage]; rfl) ⟨hload, howes.2⟩ rfl rfl
  | skip hstage hraised =>
    rw [hquiet] at hraised
    cases hraised
  | start hstage _ =>
    rw [hstage] at howes
    obtain ⟨hready, rfl⟩ := howes
    refine settles_of_owes hrecorded (by rw [receipt, hstage]) ⟨hload, hready, ?_⟩ rfl rfl
    rw [hload]
    exact hmeets.starts worker.kept _ _ hready
  | go hstage hjob =>
    rw [hstage] at howes
    have hnext := hmeets.works clock _ floor.surroundings owed howes.2
    rw [hjob] at hnext
    exact settles_of_owes hrecorded (by rw [receipt, hstage]) ⟨hload, howes.1, hnext⟩ rfl rfl
  | finish hstage hjob =>
    rw [hstage] at howes
    have hmeasured := hmeets.works clock _ floor.surroundings owed howes.2
    rw [hjob] at hmeasured
    exact settles_of_owes hrecorded (by rw [receipt, hstage]) ⟨hload, howes.1, hmeasured⟩ rfl rfl
  | fail hstage hjob | crash hstage hjob =>
    -- A job that meets the contract ends in no other way.
    rw [hstage] at howes
    have hnone := hmeets.works clock _ floor.surroundings owed howes.2
    rw [hjob] at hnone
    exact hnone.elim
  | record hstage hrecord =>
    rw [hstage] at howes
    obtain ⟨hready, rfl⟩ := howes
    exact settles_record hrecorded hload hready hstage hcountable hrecord
  | overflow hstage hrecord =>
    -- The sums have room for what is owed, so the record is complete.
    rw [hstage] at howes
    obtain ⟨hready, rfl⟩ := howes
    obtain ⟨after, hafter, -⟩ := hrecorded.record (Sample.countable_undated hcountable)
    rw [hrecord] at hafter
    cases (Prod.mk.inj hafter).2
  | release hstage =>
    rw [hstage] at howes
    exact settles_of_owes hrecorded (by rw [receipt, hstage]) ⟨hload, howes⟩ rfl rfl
  | acknowledge hstage hchannel hsent =>
    rcases hstage with ⟨hstage, rfl⟩ | ⟨hstage, rfl⟩
    · rw [hstage] at howes
      exact settles_of_owes hrecorded (by rw [receipt, hstage]) ⟨hload, howes⟩ rfl rfl
    · rw [hstage] at howes
      exact howes.elim
  | leave hstage =>
    rw [hstage] at howes
    exact howes.elim
  | close hstage hfinish =>
    rw [hstage] at howes
    exact settles_of_owes hrecorded (by rw [receipt, hstage]) ⟨hload, howes⟩ rfl rfl

end Worker

/-! ## All workers -/

/-- A sum that changes in one place. -/
theorem sum_update (owed : Nat → List Sample) {index size : Nat} (hindex : index < size)
    (owed' : List Sample) :
    ∑ i ∈ Finset.range size, (Function.update owed index owed' i : Multiset Sample) + owed index =
      ∑ i ∈ Finset.range size, (owed i : Multiset Sample) + owed' := by
  have hmem := Finset.mem_range.mpr hindex
  have hothers : ∑ i ∈ (Finset.range size).erase index,
      (Function.update owed index owed' i : Multiset Sample) =
        ∑ i ∈ (Finset.range size).erase index, (owed i : Multiset Sample) := by
    refine Finset.sum_congr rfl fun i hi => ?_
    rw [Function.update_of_ne (Finset.ne_of_mem_erase hi)]
  -- Both sums are the changed place and the others, which agree.
  rw [← Finset.add_sum_erase _ _ hmem, ← Finset.add_sum_erase _ _ hmem, hothers,
    Function.update_self]
  rw [add_right_comm, add_assoc, add_comm]

namespace Crew

variable {handler : Handler α κ τ ω} {contract : Contract α κ τ} {clock : Clock}
  {crew : Crew α κ τ ω} {worker worker' : Worker α κ τ} {floor : Floor α ω} {index : Nat}
  {received : Multiset α}

/-- What the workers of a crew have received is recorded or owed, and nothing has ended the run. -/
structure Balanced (contract : Contract α κ τ) (received : Multiset α) (crew : Crew α κ τ ω) :
    Prop where
  quiet : crew.floor.alarm = Alarm.quiet
  accounted : ∃ (recorded : Multiset Sample) (owed : Nat → List Sample),
    crew.floor.ledger.Holds recorded ∧
      (∀ (index : Nat) (worker : Worker α κ τ), crew.workers[index]? = some worker →
        worker.Owes contract (owed index)) ∧
      recorded + ∑ index ∈ Finset.range crew.size, (owed index : Multiset Sample) =
        contract.total received

/-- The balance concerns the workers, the alarm and the ledger. -/
theorem Balanced.withDepot (h : crew.Balanced contract received) (depot : Depot α) :
    Balanced contract received { crew with floor := { crew.floor with depot } } :=
  ⟨h.quiet, h.accounted⟩

/-- A worker of a balanced crew owes something. -/
theorem Balanced.owes (h : crew.Balanced contract received) (hmem : worker ∈ crew.workers) :
    ∃ owed, worker.Owes contract owed := by
  obtain ⟨-, recorded, owed, -, howes, -⟩ := h
  obtain ⟨index, hworker⟩ := List.getElem?_of_mem hmem
  exact ⟨_, howes index worker hworker⟩

/-- A step of a worker keeps the balance. -/
theorem Balanced.step (hmeets : handler.Meets contract) (h : crew.Balanced contract received)
    (hcountable : Sample.Countable (contract.total received))
    (hworker : crew.workers[index]? = some worker)
    (hstep : Worker.Step handler clock worker crew.floor worker' floor) :
    Balanced contract (received + ((worker.receipt worker').flatMap Batch.items : Multiset α))
      ⟨crew.workers.set index worker', floor⟩ := by
  obtain ⟨hquiet, recorded, owed, hrecorded, howes, hsum⟩ := h
  have hindex : index < crew.size := (List.getElem?_eq_some_iff.mp hworker).1
  -- What one worker owes is a part of the total, so its bytes can be counted.
  have hpart : (owed index : Multiset Sample) ≤ contract.total received := by
    rw [← hsum]
    refine le_trans ?_ (Multiset.le_add_left _ recorded)
    exact Finset.single_le_sum (f := fun index => (owed index : Multiset Sample))
      (fun _ _ => Multiset.zero_le _) (Finset.mem_range.mpr hindex)
  obtain ⟨owed', recorded', howes', halarm, hrecorded', hbalance⟩ :=
    Worker.owes_step hmeets (howes index worker hworker) hstep (by rw [hquiet]; rfl) hrecorded
      (hcountable.mono hpart)
  refine ⟨halarm.trans hquiet, recorded', Function.update owed index owed', hrecorded', ?_, ?_⟩
  · intro i other hother
    rcases eq_or_of_getElem?_set hother with ⟨rfl, rfl⟩ | ⟨hsame, hother⟩
    · rw [Function.update_self]
      exact howes'
    · rw [Function.update_of_ne (Ne.symm hsame)]
      exact howes i other hother
  · have hsize : size (⟨crew.workers.set index worker', floor⟩ : Crew α κ τ ω) = crew.size :=
      List.length_set
    have hupdate := sum_update owed hindex owed'
    have htotal :
        contract.total (received + ((worker.receipt worker').flatMap Batch.items : Multiset α)) =
          contract.total received +
            (((worker.receipt worker').flatMap Batch.items).flatMap contract.samples :
              Multiset Sample) := by
      rw [Contract.total, Multiset.add_bind, Multiset.coe_bind]
      rfl
    rw [← Multiset.coe_add] at hbalance
    rw [hsize, htotal, ← hsum]
    -- What the worker owed before stands on both sides.
    refine add_right_cancel (b := (owed index : Multiset Sample)) ?_
    rw [add_assoc, hupdate, add_left_comm, add_comm, hbalance]
    abel

/-- Workers that have been hired have received nothing and owe nothing. -/
theorem balanced_start {workers : Nat} {crew : Crew α κ τ ω}
    (hcrew : start handler workers true floor = .ok crew) (hquiet : floor.alarm = Alarm.quiet)
    (hledger : floor.ledger = Ledger.create 0) : crew.Balanced contract 0 := by
  unfold start at hcrew
  dsimp only at hcrew
  split at hcrew
  · cases hcrew
  · obtain rfl := Except.ok.inj hcrew
    refine ⟨hquiet, 0, fun _ => [], ?_, ?_, ?_⟩
    · show floor.ledger.Holds 0
      rw [hledger]
      exact Ledger.holds_create
    · intro index worker hworker
      obtain ⟨number, -, rfl⟩ := List.mem_map.mp (List.mem_of_getElem? hworker)
      exact ⟨rfl, rfl⟩
    · rw [Contract.total, Multiset.zero_bind, zero_add]
      exact Finset.sum_const_zero

/-- No worker of a balanced crew has panicked. -/
theorem Balanced.hasPanicked (h : crew.Balanced contract received) (hmem : worker ∈ crew.workers) :
    worker.hasPanicked = false := by
  obtain ⟨owed, -, hstage⟩ := h.owes hmem
  unfold Worker.hasPanicked
  split
  · next hpanicked =>
    rw [hpanicked] at hstage
    exact hstage.elim
  · rfl

/-- The jobs of a balanced crew come to an end. -/
theorem Balanced.acc (hmeets : handler.Meets contract) (h : crew.Balanced contract received)
    (hmem : worker ∈ crew.workers) {job : τ} (hjob : worker.job? = some job) :
    Acc handler.Continues job := by
  obtain ⟨owed, -, hstage⟩ := h.owes hmem
  unfold Worker.job? at hjob
  split at hjob
  · next batch found hworking =>
    obtain rfl := Option.some.inj hjob
    rw [hworking] at hstage
    exact hmeets.ends _ _ hstage.2
  · cases hjob

/-- When all workers of a balanced crew have ended, everything is recorded. -/
theorem Balanced.ended (h : crew.Balanced contract received) (hdone : crew.isDone = true) :
    crew.floor.ledger.Holds (contract.total received) := by
  obtain ⟨-, recorded, owed, hrecorded, howes, hsum⟩ := id h
  -- A worker that has ended, and has not panicked, owes nothing.
  have hnothing : ∀ index ∈ Finset.range crew.size, (owed index : Multiset Sample) = 0 := by
    intro index hmem
    have hworker := List.getElem?_eq_getElem (Finset.mem_range.mp hmem)
    have hstage := (howes index _ hworker).2
    have hworkerDone := List.all_eq_true.mp hdone _ (List.mem_of_getElem? hworker)
    have hworkerHere := h.hasPanicked (List.mem_of_getElem? hworker)
    unfold Worker.isDone at hworkerDone
    unfold Worker.hasPanicked at hworkerHere
    split at hworkerDone
    · next hexited =>
      rw [hexited] at hstage
      rw [hstage]
      rfl
    · next hpanicked =>
      rw [hpanicked] at hworkerHere
      cases hworkerHere
    · cases hworkerDone
  rw [Finset.sum_eq_zero hnothing, add_zero] at hsum
  rw [← hsum]
  exact hrecorded

end Crew

end LoadBench
