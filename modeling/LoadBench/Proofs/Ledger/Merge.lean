/-
  LoadBench.Proofs.Ledger.Merge

  The payloads of single seconds are enough to have the histogram of all commands
  back (`Mergeable`).  Each is read as the histogram of its second, and what they
  are read as adds up, slot by slot, to the histogram of the whole run
  (`mergeable_of_replay`).
-/

import LoadBench.Proofs.Ledger.Views
import LoadBench.Proofs.Payload
import LoadBench.Report

namespace LoadBench

namespace Ledger

/-! ## Slots of a table of histograms -/

section

variable {κ : Type} [LT κ] [DecidableLT κ] {key : Sample → κ}

/-- Slot by slot, the histograms of a table count every sample once. -/
theorem sum_countAt_tableOf (samples : List Sample) (slot : Nat) :
    ((tableOf key samples).values.map fun histogram => histogram.countAt slot).sum =
      (Histogram.ofSamples samples).countAt slot := by
  induction samples using List.reverseRecOn with
  | nil => rfl
  | append_singleton samples sample ih =>
    have hadded : ∀ before : Option Histogram,
        ((before.getD Histogram.empty).record sample.latency.toNat).countAt slot =
          before.elim 0 (fun histogram => histogram.countAt slot) +
            if Histogram.slotOf sample.latency.toNat = slot then 1 else 0 := by
      intro before
      rw [Histogram.countAt_record]
      cases before <;> rfl
    rw [tableOf_concat, countUnder, Table.sum_alter hadded, ih, Histogram.ofSamples_concat,
      Histogram.countAt_record]

end

/-! ## Payloads of seconds -/

/-- The counts that a payload is read as; none of one that is not read. -/
def decoded (payload : List UInt8) : List Nat := (Payload.decode? payload).getD []

/-- Whether the payloads of the seconds stand for all that a ledger has counted. -/
structure Mergeable (ledger : Ledger) : Prop where
  /-- There is a payload of every second in which commands were issued. -/
  seconds : ledger.perSecondPayloads.keys = ledger.perSecond.keys
  /-- The payload of a second is read, and as the counts of its histogram. -/
  read : ∀ second histogram, ledger.perSecond.get? second = some histogram →
    ∃ payload slots, ledger.perSecondPayloads.get? second = some payload ∧
      Payload.decode? payload = some slots ∧
      ∀ slot, slots.getD slot 0 = histogram.countAt slot
  /-- Slot by slot, the counts of all seconds come to those of all commands. -/
  merged : ∀ slot, (ledger.perSecondPayloads.values.map fun payload =>
    (decoded payload).getD slot 0).sum = ledger.total.countAt slot
  /-- The counts of all seconds come to the number of commands. -/
  total : (ledger.perSecondPayloads.values.map fun payload => (decoded payload).sum).sum =
    ledger.counts.total
  /-- So they do in the totals of the report. -/
  operations : ledger.totals.operations = UInt64.ofNat
    (ledger.perSecondPayloads.values.map fun payload => (decoded payload).sum).sum

/-- What a histogram is read as from its payload. -/
structure ReadBack (histogram : Histogram) : Prop where
  decode?_eq : Payload.decode? (Payload.encode histogram) =
    some (decoded (Payload.encode histogram))
  getD_eq : ∀ slot, (decoded (Payload.encode histogram)).getD slot 0 = histogram.countAt slot
  sum_eq : (decoded (Payload.encode histogram)).sum = histogram.total

theorem readBack_of_sparse {histogram : Histogram} (h : histogram.Sparse)
    (hcounts : ∀ count ∈ histogram.counts.values, count < 2 ^ 63) : ReadBack histogram := by
  obtain ⟨slots, hslots, hcountAt, hsum⟩ := Payload.decode?_encode h hcounts
  have hdecoded : decoded (Payload.encode histogram) = slots := by
    rw [decoded, hslots, Option.getD_some]
  rw [← hdecoded] at hslots hcountAt hsum
  exact ⟨hslots, hcountAt, hsum⟩

/-- What the payloads are read as can be asked of the histograms, second by second. -/
theorem map_decoded (ledger : Ledger) (f : List Nat → Nat) (g : Histogram → Nat)
    (h : ∀ histogram ∈ ledger.perSecond.values,
      f (decoded (Payload.encode histogram)) = g histogram) :
    ledger.perSecondPayloads.values.map (fun payload => f (decoded payload)) =
      ledger.perSecond.values.map g := by
  rw [perSecondPayloads, Table.values_map, List.map_map]
  exact List.map_congr_left h

/-- The payloads of a ledger that shows samples in its seconds and counts the same in all. -/
theorem Tallies.mergeable {ledger : Ledger} {samples : List Sample}
    (h : ledger.Tallies samples samples samples)
    (hcounts : ∀ histogram ∈ ledger.perSecond.values, ∀ count ∈ histogram.counts.values,
      count < 2 ^ 63) : ledger.Mergeable := by
  have hread : ∀ histogram ∈ ledger.perSecond.values, ReadBack histogram := by
    intro histogram hmem
    refine readBack_of_sparse ?_ (hcounts histogram hmem)
    rw [h.perSecond] at hmem
    obtain ⟨entry, hentry, rfl⟩ := List.mem_map.mp hmem
    rw [((tableShows_tableOf samples).isOf entry hentry).eq_ofSamples]
    exact Histogram.sparse_ofList _
  have hsums : (ledger.perSecondPayloads.values.map fun payload => (decoded payload).sum).sum =
      ledger.counts.total := by
    rw [ledger.map_decoded List.sum Histogram.total fun histogram hmem =>
      (hread histogram hmem).sum_eq]
    exact h.total_perSecond.trans h.total_total.symm
  refine ⟨Table.keys_map _ _, fun second histogram hget => ?_, fun slot => ?_, hsums, ?_⟩
  · have hback := hread histogram (List.mem_map_of_mem (Table.mem_of_get? hget))
    have hpayload := Table.get?_map Payload.encode ledger.perSecond second
    rw [hget] at hpayload
    exact ⟨_, _, hpayload, hback.decode?_eq, hback.getD_eq⟩
  · rw [ledger.map_decoded (fun slots => slots.getD slot 0) (fun histogram =>
      histogram.countAt slot) fun histogram hmem => (hread histogram hmem).getD_eq slot,
      h.perSecond, h.total, sum_countAt_tableOf]
  · rw [hsums]
    rfl

/-- The payloads of the seconds stand for all that was recorded behind the burn-in, whatever
batches were recorded and whatever periods ended in between. -/
theorem mergeable_of_replay (burnIn : Nat) (events : List Event)
    (hcounts : ∀ histogram ∈ ((create burnIn).replay events).1.perSecond.values,
      ∀ count ∈ histogram.counts.values, count < 2 ^ 63) :
    ((create burnIn).replay events).1.Mergeable :=
  ((recorded_create burnIn True).replay events).tallies.mergeable hcounts

/-- Two batches with a period's end in between; the burn-in leaves one sample out. -/
theorem mergeable_twoBatches :
    let before : Measurements :=
      ⟨[.plain "w" "a" 7 120, .plain "w" "a" 7 250, .plain "r" "b" 8 250]⟩
    let after : Measurements := ⟨[.plain "r" "b" 8 250, .plain "r" "b" 8 9000]⟩
    let ledger :=
      ((create 1).replay [.record before, .endPeriod 8 ⟨1000⟩ Counts.zero, .record after]).1
    ledger.perSecond.values.map (fun histogram => histogram.counts.values) = [[1], [2, 1]] ∧
      ledger.Mergeable :=
  ⟨by decide, mergeable_of_replay 1 _ (by decide)⟩

end Ledger

end LoadBench
