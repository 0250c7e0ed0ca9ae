/-
  LoadBench.Proofs.Ledger.Tally

  What a ledger has counted is what its samples come to (`Counts.ofSamples`), in
  whatever order they were recorded and however they were cut into batches.
  Recording a batch adds its samples (`Holds.record`), and ending a period changes
  nothing (`Holds.endPeriod`).

  When a command was issued, and how long it took, are counted nowhere, so the
  counters of samples are those of the samples without their dates.
-/

import LoadBench.Period
import LoadBench.Proofs.Histogram
import Mathlib.Algebra.BigOperators.Group.Multiset.Basic
import Mathlib.Algebra.Order.Group.Multiset

namespace LoadBench

/-! ## Groups -/

/-- A sum over all groups changes by what changes in its one changed group. -/
theorem PerLabel.sum_modify {α : Type} (values : PerLabel α) (changed : Label) (f : α → α)
    (g : α → Nat) :
    ((values.modify changed f).toList.map g).foldr (· + ·) 0 + g (values.get changed) =
      (values.toList.map g).foldr (· + ·) 0 + g (f (values.get changed)) := by
  -- Each group in turn is the changed one.
  cases changed <;> simp only [toList, Label.all, modify, get, List.map_cons, List.map_nil,
    List.foldr_cons, List.foldr_nil] <;> omega

/-! ## Samples without their dates -/

namespace Sample

/-- A sample without the moment and the time its command took. -/
def undated (sample : Sample) : Sample := { sample with second := 0, latency := 0 }

/-- How many bytes samples sent. -/
def sentBytes (samples : Multiset Sample) : Nat :=
  (samples.map fun sample => sample.sent.toNat).sum

/-- How many bytes samples received. -/
def receivedBytes (samples : Multiset Sample) : Nat :=
  (samples.map fun sample => sample.received.toNat).sum

@[simp] theorem sentBytes_add (samples more : Multiset Sample) :
    sentBytes (samples + more) = sentBytes samples + sentBytes more := by
  rw [sentBytes, Multiset.map_add, Multiset.sum_add]
  rfl

@[simp] theorem receivedBytes_add (samples more : Multiset Sample) :
    receivedBytes (samples + more) = receivedBytes samples + receivedBytes more := by
  rw [receivedBytes, Multiset.map_add, Multiset.sum_add]
  rfl

/-- Whether 64 bits hold the bytes of samples. -/
structure Countable (samples : Multiset Sample) : Prop where
  sent : sentBytes samples < 2 ^ 64
  received : receivedBytes samples < 2 ^ 64

/-- A part of samples has no more bytes than all of them. -/
theorem Countable.mono {samples more : Multiset Sample} (h : Countable more)
    (hle : samples ≤ more) : Countable samples := by
  obtain ⟨others, rfl⟩ := Multiset.le_iff_exists_add.mp hle
  have hsent := h.sent
  have hreceived := h.received
  rw [sentBytes_add] at hsent
  rw [receivedBytes_add] at hreceived
  exact ⟨by omega, by omega⟩

/-- Dates have no bytes. -/
theorem countable_undated {samples : Multiset Sample} (h : Countable (samples.map undated)) :
    Countable samples := by
  have hsent := h.sent
  have hreceived := h.received
  rw [sentBytes, Multiset.map_map] at hsent
  rw [receivedBytes, Multiset.map_map] at hreceived
  exact ⟨hsent, hreceived⟩

end Sample

/-- The byte sums of one batch, where 64 bits hold them. -/
theorem Traffic.ofSamples?_of_countable {samples : List Sample} (h : Sample.Countable samples) :
    ofSamples? samples =
      some ⟨UInt64.ofNat (Sample.sentBytes samples), UInt64.ofNat (Sample.receivedBytes samples)⟩ := by
  unfold ofSamples?
  exact if_pos ⟨h.sent, h.received⟩

theorem Traffic.ofSamples?_of_not_countable {samples : List Sample}
    (h : ¬ Sample.Countable samples) : ofSamples? samples = none := by
  unfold ofSamples?
  exact if_neg fun hsums => h ⟨hsums.1, hsums.2⟩

/-- What samples come to. Byte totals wrap at 64 bits. -/
def Counts.ofSamples (samples : Multiset Sample) : Counts where
  perLabel := PerLabel.ofFn fun label => samples.countP fun sample => sample.group = label
  total := samples.card
  failures := samples.countP fun sample => sample.failed = true
  timeouts := samples.countP fun sample => sample.timedOut = true
  sent := Sample.sentBytes samples % 2 ^ 64
  received := Sample.receivedBytes samples % 2 ^ 64

/-- Dates are counted nowhere. -/
theorem Counts.ofSamples_undated (samples : Multiset Sample) :
    ofSamples (samples.map Sample.undated) = ofSamples samples := by
  simp only [ofSamples, Sample.sentBytes, Sample.receivedBytes, Multiset.countP_map,
    Multiset.card_map, Multiset.map_map, Function.comp_def, ← Multiset.countP_eq_card_filter]
  rfl

/-! ## Sections of a recording -/

namespace Ledger

variable {ledger ledger' : Ledger}

/-- The samples whose tickets are within the burn-in come first, and are left out. -/
theorem tickets_eq_drop (ledger : Ledger) (samples : List Sample) :
    ledger.tickets samples =
      ({ ledger with seen := ledger.seen + samples.length },
        samples.drop (ledger.burnIn - ledger.seen)) := by
  induction samples generalizing ledger with
  | nil => simp [tickets]
  | cons sample rest ih =>
    simp only [tickets, ticket, ih, List.length_cons, Prod.mk.injEq]
    refine ⟨by congr 1; omega, ?_⟩
    by_cases hmeasured : ledger.burnIn ≤ ledger.seen
    · have hnone : ledger.burnIn - ledger.seen = 0 := by omega
      have hnone' : ledger.burnIn - (ledger.seen + 1) = 0 := by omega
      simp [hmeasured, hnone, hnone']
    · have hone : ledger.burnIn - ledger.seen = ledger.burnIn - (ledger.seen + 1) + 1 := by omega
      simp [hmeasured, hone]

/-- Without a burn-in all samples are measured. -/
theorem tickets_eq (h : ledger.burnIn = 0) (samples : List Sample) :
    ledger.tickets samples = ({ ledger with seen := ledger.seen + samples.length }, samples) := by
  rw [tickets_eq_drop, h, Nat.zero_sub, List.drop_zero]

/-- Counting a sample under its label adds it to all that is counted, its bytes aside. -/
theorem counts_countLabel {samples : Multiset Sample} (sent received : Nat)
    (h : ledger.counts = { Counts.ofSamples samples with sent, received }) (sample : Sample) :
    (ledger.countLabel sample).counts =
      { Counts.ofSamples (sample ::ₘ samples) with sent, received } := by
  simp only [counts, Counts.ofSamples, Counts.mk.injEq] at h
  obtain ⟨hlabels, htotal, hfailures, htimeouts, hsent, hreceived⟩ := h
  simp only [counts, countLabel, Counts.ofSamples, Counts.mk.injEq]
  refine ⟨?_, ?_, ?_, ?_, hsent, hreceived⟩
  · refine congrArg PerLabel.ofFn (funext fun label => ?_)
    have hlabel := congrArg (fun values => PerLabel.get values label) hlabels
    simp only [PerLabel.get_map, PerLabel.get_ofFn] at hlabel
    -- The histogram of the group of the sample counts one more, and the others do not.
    rw [PerLabel.get_modify, Multiset.countP_cons, ← hlabel]
    by_cases hgroup : label = sample.group
    · rw [if_pos hgroup, if_pos hgroup.symm]
      exact Histogram.total_record _ _
    · rw [if_neg hgroup, if_neg (Ne.symm hgroup), Nat.add_zero]
  · rw [Histogram.total_record, htotal, Multiset.card_cons]
  -- A sum over the groups changes by what the group of the sample counts more.
  · have hsum :=
      ledger.tracks.sum_modify sample.group (fun track => track.add sample) Track.failures
    rw [Multiset.countP_cons, ← hfailures]
    have hadd : ((ledger.tracks.get sample.group).add sample).failures =
        (ledger.tracks.get sample.group).failures + if sample.failed then 1 else 0 := rfl
    omega
  · have hsum :=
      ledger.tracks.sum_modify sample.group (fun track => track.add sample) Track.timeouts
    rw [Multiset.countP_cons, ← htimeouts]
    have hadd : ((ledger.tracks.get sample.group).add sample).timeouts =
        (ledger.tracks.get sample.group).timeouts + if sample.timedOut then 1 else 0 := rfl
    omega

/-- Counting samples under their labels adds them to all that is counted, their bytes aside. -/
theorem counts_countLabels {samples : Multiset Sample} (sent received : Nat)
    (h : ledger.counts = { Counts.ofSamples samples with sent, received }) (more : List Sample) :
    (ledger.countLabels more).counts =
      { Counts.ofSamples (samples + more) with sent, received } := by
  induction more generalizing ledger samples with
  | nil => simpa [countLabels] using h
  | cons sample rest ih =>
    have hrest := ih (counts_countLabel sent received h sample)
    rw [Multiset.cons_add, ← Multiset.add_cons, Multiset.cons_coe] at hrest
    exact hrest

/-- Adding bytes adds them to the byte totals. -/
theorem counts_traffic {counted : Counts} {sent received : Nat}
    (h : ledger.counts = { counted with sent := sent % 2 ^ 64, received := received % 2 ^ 64 })
    (more moreReceived : Nat) :
    ((ledger.addSent (UInt64.ofNat more)).addReceived (UInt64.ofNat moreReceived)).counts =
      { counted with
        sent := (sent + more) % 2 ^ 64
        received := (received + moreReceived) % 2 ^ 64 } := by
  simp only [counts, Counts.mk.injEq] at h
  obtain ⟨hlabels, htotal, hfailures, htimeouts, hsent, hreceived⟩ := h
  simp only [counts, addSent, addReceived, Counts.mk.injEq]
  refine ⟨hlabels, htotal, hfailures, htimeouts, ?_, ?_⟩
  · rw [UInt64.toNat_add, UInt64.toNat_ofNat', hsent, ← Nat.add_mod]
  · rw [UInt64.toNat_add, UInt64.toNat_ofNat', hreceived, ← Nat.add_mod]

/-! ## A recording -/

theorem countLabels_eq (ledger : Ledger) (measured : List Sample) :
    ledger.countLabels measured =
      { ledger with
        tracks := (ledger.countLabels measured).tracks
        total := (ledger.countLabels measured).total
        instantTotal := (ledger.countLabels measured).instantTotal } := by
  induction measured generalizing ledger with
  | nil => rfl
  | cons sample rest ih => exact ih (ledger.countLabel sample)

/-- Whether a ledger without a burn-in has recorded certain samples, dates aside. -/
structure Holds (ledger : Ledger) (samples : Multiset Sample) : Prop where
  burnIn_eq : ledger.burnIn = 0
  counts_eq : ledger.counts = Counts.ofSamples samples

theorem holds_create : (create 0).Holds 0 := ⟨rfl, rfl⟩

/-- A recording whose bytes 64 bits hold comes to its end, and adds its samples to what has been
recorded. -/
theorem Holds.record {samples : Multiset Sample} (h : ledger.Holds samples)
    {measured : Measurements} (hcountable : Sample.Countable measured.samples) :
    ∃ after, ledger.record measured = (after, true) ∧ after.Holds (samples + measured.samples) := by
  have htraffic := Traffic.ofSamples?_of_countable hcountable
  have hdrawn : Ledger.counts { ledger with seen := ledger.seen + measured.samples.length } =
      Counts.ofSamples samples := h.counts_eq
  -- Queries and seconds are not among the counters.
  have hcounted : (((countLabels { ledger with seen := ledger.seen + measured.samples.length }
      measured.samples).countQueries measured.samples).countSeconds measured.samples).counts = _ :=
    counts_countLabels _ _ hdrawn measured.samples
  have hbytes := counts_traffic hcounted (Sample.sentBytes measured.samples)
    (Sample.receivedBytes measured.samples)
  refine ⟨_, ?_, ?_, hbytes.trans ?_⟩
  · unfold Ledger.record
    simp only [tickets_eq h.burnIn_eq, htraffic]
  · rw [countLabels_eq]
    exact h.burnIn_eq
  · simp only [Counts.ofSamples, Counts.mk.injEq, true_and]
    rw [Sample.sentBytes_add, Sample.receivedBytes_add]
    exact ⟨rfl, rfl⟩

/-- The dates of recorded samples do not matter. -/
theorem Holds.undated {samples : Multiset Sample} (h : ledger.Holds samples)
    (more : Multiset Sample)
    (hmore : more.map Sample.undated = samples.map Sample.undated) : ledger.Holds more where
  burnIn_eq := h.burnIn_eq
  counts_eq := by
    rw [h.counts_eq, ← Counts.ofSamples_undated, ← hmore, Counts.ofSamples_undated]

/-- The end of a period changes nothing that was recorded. -/
theorem Holds.endPeriod {samples : Multiset Sample} (h : ledger.Holds samples) (timestamp : UInt64)
    (took : TimeSpan) (previous : Counts) :
    (ledger.endPeriod timestamp took previous).1.Holds samples :=
  ⟨h.burnIn_eq, h.counts_eq⟩

end Ledger

end LoadBench
