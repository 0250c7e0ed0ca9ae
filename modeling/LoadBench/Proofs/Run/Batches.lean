/-
  LoadBench.Proofs.Run.Batches

  All batches of a run, whatever their queues and their workers.  The notes of a
  run say to which of its queues a batch was sent and which of its workers did
  what (`Placed`).  So what was sent is what was sent into all queues together,
  and what was received or recorded is what all workers received or recorded.
-/

import Mathlib.Algebra.BigOperators.Group.Finset.Basic
import Mathlib.Algebra.Order.Group.Multiset
import LoadBench.Proofs.Run.Chronicle

namespace LoadBench

variable {α κ τ ω φ : Type}

/-! ## Readings of all queues and workers -/

namespace Note

/-- The batch that was sent, into any queue. -/
def sent? : Note α → Option (Batch α)
  | .offered _ batch .accepted => some batch
  | _ => none

/-- What is read off a deed, whoever did it. -/
def done? {β : Type} (reading : Deed α → Option β) : Note α → Option β
  | .did _ _ deed => reading deed
  | _ => none

end Note

/-- The batches that were sent. -/
def sentBatches (notes : List (Note α)) : List (Batch α) := notes.filterMap Note.sent?

/-- The batches that were recorded. -/
def recordedBatches (notes : List (Note α)) : List (Batch α) :=
  notes.filterMap (Note.done? Deed.recorded?)

/-- Whether notes speak of the workers and the queues that there are. -/
structure Placed (settings : Settings) (notes : List (Note α)) : Prop where
  did : ∀ worker queue deed, .did worker queue deed ∈ notes →
    worker < settings.workers ∧ queue = settings.queueOf worker
  offered : ∀ queue batch offer, .offered queue batch offer ∈ notes → queue < settings.queueCount

/-! ## Parts of a reading -/

/-- A reading is the sum of its parts, if each note belongs to one of them. -/
theorem filterMap_eq_sum {ν β : Type} {notes : List ν} {whole : ν → Option β}
    {part : Nat → ν → Option β} {count : Nat}
    (hparts : ∀ note ∈ notes, (whole note = none ∧ ∀ i, part i note = none) ∨
      ∃ i < count, ∀ j, part j note = if i = j then whole note else none) :
    (notes.filterMap whole : Multiset β) =
      ∑ i ∈ Finset.range count, (notes.filterMap (part i) : Multiset β) := by
  have hcons : ∀ (reading : ν → Option β) (note : ν) (rest : List ν),
      ((note :: rest).filterMap reading : Multiset β) =
        ((reading note).toList : Multiset β) + (rest.filterMap reading : Multiset β) := by
    intro reading note rest
    rw [Multiset.coe_add]
    congr 1
    cases hnote : reading note with
    | none => rw [List.filterMap_cons_none hnote]; rfl
    | some value => rw [List.filterMap_cons_some hnote]; rfl
  induction notes with
  | nil => exact (Finset.sum_const_zero).symm
  | cons note rest ih =>
    have hrest := ih fun other hother => hparts other (List.mem_cons_of_mem _ hother)
    -- The note itself is in its part, and in no other one.
    have hnote : ((whole note).toList : Multiset β) =
        ∑ i ∈ Finset.range count, ((part i note).toList : Multiset β) := by
      rcases hparts note List.mem_cons_self with ⟨hnone, hall⟩ | ⟨i, hi, hall⟩
      · rw [hnone, Finset.sum_eq_zero]
        · rfl
        · intro i _
          rw [hall]
          rfl
      · rw [Finset.sum_eq_single i]
        · rw [hall, if_pos rfl]
        · intro j _ hne
          rw [hall, if_neg hne.symm]
          rfl
        · intro hout
          exact absurd (Finset.mem_range.mpr hi) hout
    rw [hcons, hnote, hrest, ← Finset.sum_add_distrib]
    exact Finset.sum_congr rfl fun i _ => (hcons _ _ _).symm

variable {settings : Settings} {notes : List (Note α)}

/-- What was sent is what was sent into the queues. -/
theorem Placed.sent_eq (h : Placed settings notes) :
    (sentBatches notes : Multiset (Batch α)) =
      ∑ queue ∈ Finset.range settings.queueCount, (sentTo queue notes : Multiset (Batch α)) := by
  refine filterMap_eq_sum fun note hnote => ?_
  cases note with
  | offered queue batch offer =>
    cases offer with
    | accepted => exact Or.inr ⟨queue, h.offered queue batch _ hnote, fun _ => rfl⟩
    | _ => exact Or.inl ⟨rfl, fun _ => rfl⟩
  | _ => exact Or.inl ⟨rfl, fun _ => rfl⟩

/-- What was received is what was received from the queues. -/
theorem Placed.received_eq (h : Placed settings notes) (hqueues : 0 < settings.queueCount) :
    (notes.filterMap (Note.done? Deed.receipt?) : Multiset (Batch α)) =
      ∑ queue ∈ Finset.range settings.queueCount,
        (receivedFrom queue notes : Multiset (Batch α)) := by
  refine filterMap_eq_sum fun note hnote => ?_
  cases note with
  | did worker queue deed =>
    refine Or.inr ⟨queue, ?_, fun _ => rfl⟩
    rw [(h.did worker queue deed hnote).2]
    exact Nat.mod_lt _ hqueues
  | _ => exact Or.inl ⟨rfl, fun _ => rfl⟩

/-- What was done is what the workers did. -/
theorem Placed.done_eq {β : Type} (h : Placed settings notes) (reading : Deed α → Option β) :
    (notes.filterMap (Note.done? reading) : Multiset β) =
      ∑ index ∈ Finset.range settings.workers,
        ((journalOf index notes).filterMap reading : Multiset β) := by
  have hjournal : ∀ index, (journalOf index notes).filterMap reading =
      notes.filterMap fun note => (note.deedOf? index).bind reading := by
    intro index
    rw [journalOf, List.filterMap_filterMap]
  simp only [hjournal]
  refine filterMap_eq_sum fun note hnote => ?_
  cases note with
  | did worker queue deed =>
    refine Or.inr ⟨worker, (h.did worker queue deed hnote).1, fun index => ?_⟩
    by_cases hsame : worker = index <;> simp [Note.deedOf?, Note.done?, hsame]
  | _ => exact Or.inl ⟨rfl, fun _ => rfl⟩

/-- Where each queue has been emptied, and each worker has recorded what it received, the batches
that were sent are those that were recorded, each as many times. -/
theorem Placed.sent_perm_recorded (h : Placed settings notes) (hqueues : 0 < settings.queueCount)
    (hdelivered : ∀ queue < settings.queueCount, receivedFrom queue notes = sentTo queue notes)
    (hrecorded : ∀ index < settings.workers, (journalOf index notes).filterMap Deed.receipt? =
      (journalOf index notes).filterMap Deed.recorded?) :
    (sentBatches notes).Perm (recordedBatches notes) := by
  apply Multiset.coe_eq_coe.mp
  calc (sentBatches notes : Multiset (Batch α))
      = ∑ queue ∈ Finset.range settings.queueCount, (sentTo queue notes : Multiset (Batch α)) :=
        h.sent_eq
    _ = ∑ queue ∈ Finset.range settings.queueCount,
          (receivedFrom queue notes : Multiset (Batch α)) :=
        Finset.sum_congr rfl fun queue hqueue => by
          rw [hdelivered queue (Finset.mem_range.mp hqueue)]
    _ = (notes.filterMap (Note.done? Deed.receipt?) : Multiset (Batch α)) :=
        (h.received_eq hqueues).symm
    _ = ∑ index ∈ Finset.range settings.workers,
          ((journalOf index notes).filterMap Deed.receipt? : Multiset (Batch α)) := h.done_eq _
    _ = ∑ index ∈ Finset.range settings.workers,
          ((journalOf index notes).filterMap Deed.recorded? : Multiset (Batch α)) :=
        Finset.sum_congr rfl fun index hindex => by
          rw [hrecorded index (Finset.mem_range.mp hindex)]
    _ = (recordedBatches notes : Multiset (Batch α)) := (h.done_eq _).symm

/-! ## The invariant -/

namespace Run

variable {workload : Workload α κ τ ω φ} {run : Run α κ τ ω φ}

/-- What is noted of a worker is noted of one that there is. -/
theorem note?_did {occurrence : Occurrence} {worker queue : Nat} {deed : Deed α}
    (hnote : run.note? workload occurrence = some (.did worker queue deed)) :
    (run.crew.workers.map Worker.queue)[worker]? = some queue := by
  cases occurrence with
  | period => cases hnote
  | move clock move =>
    cases move with
    | main pick =>
      -- A step of the scan is no deed of the worker.
      have hsilent := (run.mainNote?_silent workload).1 worker
      rw [show run.mainNote? workload = _ from hnote] at hsilent
      simp [Note.deedOf?] at hsilent
    | worker index =>
      obtain ⟨stepped, hstepped, hdeed⟩ := Option.bind_eq_some_iff.mp hnote
      obtain ⟨done, -, hdone⟩ := Option.map_eq_some_iff.mp hdeed
      obtain ⟨rfl, rfl, -⟩ := Note.did.inj hdone
      rw [List.getElem?_map, hstepped]
      rfl

/-- A batch is offered to a queue that there is. -/
theorem note?_offered {occurrence : Occurrence} {queue : Nat} {batch : Batch α}
    {offer : Channel.Offer}
    (hnote : run.note? workload occurrence = some (.offered queue batch offer)) :
    queue < run.crew.floor.depot.channels.length := by
  cases occurrence with
  | period => cases hnote
  | move clock move =>
    cases move with
    | worker index =>
      obtain ⟨stepped, hstepped, hdeed⟩ := Option.bind_eq_some_iff.mp hnote
      obtain ⟨done, -, hdone⟩ := Option.map_eq_some_iff.mp hdeed
      cases hdone
    | main pick =>
      have hmain : run.mainNote? workload = some (.offered queue batch offer) := hnote
      unfold mainNote? at hmain
      split at hmain
      · split at hmain
        · cases hmain
        · split at hmain <;> cases hmain
        · split at hmain <;> cases hmain
        · obtain ⟨channel, hchannel, hoffered⟩ := Option.map_eq_some_iff.mp hmain
          obtain ⟨rfl, -, -⟩ := Note.offered.inj hoffered
          exact (List.getElem?_eq_some_iff.mp hchannel).1
        · cases hmain
      · cases hmain

/-- Whatever occurs is noted of workers and queues that there are. -/
theorem placed_occur {occurrence : Occurrence} (h : Placed settings notes)
    (hplaces : run.crew.workers.map Worker.queue =
      (List.range settings.workers).map settings.queueOf)
    (hwidth : run.crew.floor.depot.channels.length = settings.queueCount) :
    Placed settings (notes ++ (run.note? workload occurrence).toList) where
  did := by
    intro worker queue deed hmem
    rcases List.mem_append.mp hmem with hmem | hmem
    · exact h.did worker queue deed hmem
    · have hplace := note?_did (Option.mem_toList.mp hmem)
      rw [hplaces, List.getElem?_map] at hplace
      obtain ⟨number, hnumber, rfl⟩ := Option.map_eq_some_iff.mp hplace
      obtain ⟨hlt, rfl⟩ := List.getElem?_eq_some_iff.mp hnumber
      rw [List.getElem_range]
      exact ⟨by simpa using hlt, rfl⟩
  offered := by
    intro queue batch offer hmem
    rcases List.mem_append.mp hmem with hmem | hmem
    · exact h.offered queue batch offer hmem
    · rw [← hwidth]
      exact note?_offered (Option.mem_toList.mp hmem)

end Run

end LoadBench
