/-
  LoadBench.Proofs.Ledger.Views

  What a ledger shows of the samples it has measured.  Three views are kept apart:
  the tracks of the labels, the queries and the seconds.  Each is a function of the
  samples that were counted in it (`Tallies`), whatever their order (`Tallies.perm`).

  Batches recorded one after another, with periods ending in between, leave out the
  burn-in and show the rest in every view, slot by slot (`shows_of_replay`).
-/

import LoadBench.Proofs.Ledger.Tally

namespace LoadBench

/-! ## Histograms of samples -/

namespace Histogram

/-- The histogram of the latencies of samples. -/
def ofSamples (samples : List Sample) : Histogram :=
  ofList (samples.map fun sample => sample.latency.toNat)

theorem ofSamples_concat (samples : List Sample) (sample : Sample) :
    ofSamples (samples ++ [sample]) = (ofSamples samples).record sample.latency.toNat := by
  rw [ofSamples, List.map_append, List.map_singleton, ofList_concat]
  rfl

theorem ofSamples_perm {samples others : List Sample} (h : samples.Perm others) :
    ofSamples samples = ofSamples others :=
  ofList_perm (h.map _)

@[simp] theorem total_ofSamples (samples : List Sample) :
    (ofSamples samples).total = samples.length := by
  rw [ofSamples, total_ofList, List.length_map]

theorem countAt_ofSamples (samples : List Sample) (slot : Nat) :
    (ofSamples samples).countAt slot =
      samples.countP fun sample => slotOf sample.latency.toNat = slot := by
  rw [ofSamples, countAt_ofList, List.countP_map]
  rfl

/-- Whether a histogram is that of samples: it counts their latencies slot by slot. -/
structure IsOf (histogram : Histogram) (samples : List Sample) : Prop where
  eq_ofSamples : histogram = ofSamples samples
  countAt_eq : ∀ slot, histogram.countAt slot =
    samples.countP fun sample => slotOf sample.latency.toNat = slot

theorem isOf_ofSamples (samples : List Sample) : (ofSamples samples).IsOf samples :=
  ⟨rfl, countAt_ofSamples samples⟩

end Histogram

/-! ## Tables of histograms -/

namespace Ledger

section

variable {κ : Type} [LT κ] [DecidableLT κ]

/-- The histograms of samples under their keys. -/
def tableOf (key : Sample → κ) (samples : List Sample) : Table κ Histogram :=
  samples.foldl (fun table sample => countUnder table (key sample) sample.latency.toNat)
    Table.empty

variable {key : Sample → κ}

theorem tableOf_concat (samples : List Sample) (sample : Sample) :
    tableOf key (samples ++ [sample]) =
      countUnder (tableOf key samples) (key sample) sample.latency.toNat :=
  List.foldl_concat ..

theorem foldl_countUnder (samples more : List Sample) :
    more.foldl (fun table sample => countUnder table (key sample) sample.latency.toNat)
        (tableOf key samples) =
      tableOf key (samples ++ more) :=
  (List.foldl_append ..).symm

/-- All histograms of a table together count every sample once. -/
theorem sum_total_tableOf (samples : List Sample) :
    ((tableOf key samples).values.map Histogram.total).sum = samples.length := by
  induction samples using List.reverseRecOn with
  | nil => rfl
  | append_singleton samples sample ih =>
    have hadded : ∀ before : Option Histogram,
        ((before.getD Histogram.empty).record sample.latency.toNat).total =
          before.elim 0 Histogram.total + 1 := by
      intro before
      rw [Histogram.total_record]
      cases before <;> rfl
    rw [tableOf_concat, countUnder, Table.sum_alter hadded, ih, List.length_append]
    rfl

variable [LE κ] [Std.IsLinearOrder κ] [Std.LawfulOrderLT κ]

theorem countUnder_comm (table : Table κ Histogram) (one other : Sample) :
    countUnder (countUnder table (key one) one.latency.toNat) (key other) other.latency.toNat =
      countUnder (countUnder table (key other) other.latency.toNat) (key one)
        one.latency.toNat := by
  by_cases hkey : key one = key other
  · -- Under one key both latencies go into one histogram.
    unfold countUnder
    rw [hkey, Table.alter_alter_self, Table.alter_alter_self]
    simp only [Option.getD_some, Histogram.record_comm]
  · exact Table.alter_comm table hkey _ _

/-- The order in which samples are counted under their keys does not matter. -/
theorem tableOf_perm {samples others : List Sample} (h : samples.Perm others) :
    tableOf key samples = tableOf key others :=
  have : RightCommutative fun (table : Table κ Histogram) (sample : Sample) =>
      countUnder table (key sample) sample.latency.toNat := ⟨countUnder_comm⟩
  h.foldl_eq Table.empty

theorem ordered_tableOf (samples : List Sample) : (tableOf key samples).Ordered := by
  induction samples using List.reverseRecOn with
  | nil => exact List.Pairwise.nil
  | append_singleton samples sample ih =>
    rw [tableOf_concat]
    exact ih.alter _ _

theorem mem_keys_tableOf (samples : List Sample) (k : κ) :
    k ∈ (tableOf key samples).keys ↔ ∃ sample ∈ samples, key sample = k := by
  induction samples using List.reverseRecOn with
  | nil => simp [tableOf, Table.empty, Table.keys]
  | append_singleton samples sample ih =>
    rw [tableOf_concat, countUnder, Table.mem_keys_alter, ih]
    simp only [List.mem_append, List.mem_singleton, or_and_right, exists_or, exists_eq_left]
    exact ⟨Or.rec (fun h => Or.inr h.symm) Or.inl, Or.rec Or.inr (fun h => Or.inl h.symm)⟩

variable [DecidableEq κ]

theorem getD_get?_tableOf (samples : List Sample) (k : κ) :
    ((tableOf key samples).get? k).getD Histogram.empty =
      Histogram.ofSamples (samples.filter fun sample => key sample = k) := by
  induction samples using List.reverseRecOn with
  | nil => rfl
  | append_singleton samples sample ih =>
    rw [tableOf_concat, countUnder, List.filter_append]
    by_cases hkey : key sample = k
    · subst hkey
      rw [Table.get?_alter_self, ih, List.filter_singleton, decide_eq_true rfl, cond_true,
        Histogram.ofSamples_concat]
      rfl
    · rw [Table.get?_alter_ne _ (Ne.symm hkey), ih, List.filter_singleton, decide_eq_false hkey,
        cond_false, List.append_nil]

/-- Whether a table shows samples under their keys: it has exactly their keys, ascending, and under
each the histogram of the samples with that key. -/
structure TableShows (table : Table κ Histogram) (key : Sample → κ) (samples : List Sample) :
    Prop where
  ordered : table.Ordered
  mem_keys : ∀ k, k ∈ table.keys ↔ ∃ sample ∈ samples, key sample = k
  isOf : ∀ entry ∈ table.entries, entry.2.IsOf (samples.filter fun sample => key sample = entry.1)

theorem tableShows_tableOf (samples : List Sample) :
    TableShows (tableOf key samples) key samples where
  ordered := ordered_tableOf samples
  mem_keys := mem_keys_tableOf samples
  isOf := by
    intro entry hentry
    have hget := (ordered_tableOf samples).get?_of_mem hentry
    have hshown : ((tableOf key samples).get? entry.1).getD Histogram.empty = _ :=
      getD_get?_tableOf samples entry.1
    rw [hget, Option.getD_some] at hshown
    rw [hshown]
    exact Histogram.isOf_ofSamples _

end

/-! ## The views of a ledger -/

/-- Whether the views of a ledger are those of samples: of some in the tracks of the labels, of
some among the queries, and of some among the seconds. -/
structure Tallies (ledger : Ledger) (labelled queried dated : List Sample) : Prop where
  cumulative : ∀ label, (ledger.tracks.get label).cumulative =
    Histogram.ofSamples (labelled.filter fun sample => sample.group = label)
  failures : ∀ label, (ledger.tracks.get label).failures =
    (labelled.filter fun sample => sample.group = label).countP Sample.failed
  timeouts : ∀ label, (ledger.tracks.get label).timeouts =
    (labelled.filter fun sample => sample.group = label).countP Sample.timedOut
  total : ledger.total = Histogram.ofSamples labelled
  details : ledger.details = tableOf Sample.queryKey queried
  perSecond : ledger.perSecond = tableOf Sample.second dated

variable {ledger : Ledger} {labelled queried dated : List Sample}

theorem tallies_create (burnIn : Nat) : (create burnIn).Tallies [] [] [] where
  cumulative := fun label => by cases label <;> rfl
  failures := fun label => by cases label <;> rfl
  timeouts := fun label => by cases label <;> rfl
  total := rfl
  details := rfl
  perSecond := rfl

theorem get_countLabel (ledger : Ledger) (sample : Sample) (label : Label) :
    (ledger.countLabel sample).tracks.get label =
      if label = sample.group then (ledger.tracks.get label).add sample
      else ledger.tracks.get label :=
  PerLabel.get_modify _ _ _ _

/-- The filter of a group keeps a new sample exactly if it is of that group. -/
theorem filter_group_concat (samples : List Sample) (sample : Sample) (label : Label) :
    (samples ++ [sample]).filter (fun sample => sample.group = label) =
      (samples.filter fun sample => sample.group = label) ++
        if label = sample.group then [sample] else [] := by
  rw [List.filter_append, List.filter_singleton]
  by_cases hgroup : label = sample.group
  · simp [hgroup]
  · simp [hgroup, Ne.symm hgroup]

theorem Tallies.countLabel (h : ledger.Tallies labelled queried dated) (sample : Sample) :
    (ledger.countLabel sample).Tallies (labelled ++ [sample]) queried dated := by
  refine ⟨?_, ?_, ?_, ?_, h.details, h.perSecond⟩
  · intro label
    rw [get_countLabel, filter_group_concat]
    split
    · rw [Histogram.ofSamples_concat, ← h.cumulative]
      rfl
    · rw [List.append_nil, ← h.cumulative]
  · intro label
    rw [get_countLabel, filter_group_concat]
    split
    · rw [List.countP_append, ← h.failures, List.countP_singleton]
      rfl
    · rw [List.append_nil, ← h.failures]
  · intro label
    rw [get_countLabel, filter_group_concat]
    split
    · rw [List.countP_append, ← h.timeouts, List.countP_singleton]
      rfl
    · rw [List.append_nil, ← h.timeouts]
  · rw [Histogram.ofSamples_concat, ← h.total]
    rfl

theorem Tallies.countLabels (h : ledger.Tallies labelled queried dated) (more : List Sample) :
    (ledger.countLabels more).Tallies (labelled ++ more) queried dated := by
  induction more generalizing ledger labelled with
  | nil => rwa [List.append_nil]
  | cons sample rest ih =>
    have hrest := ih (h.countLabel sample)
    rwa [List.append_assoc] at hrest

theorem Tallies.countQueries (h : ledger.Tallies labelled queried dated) (more : List Sample) :
    (ledger.countQueries more).Tallies labelled (queried ++ more) dated := by
  refine ⟨h.cumulative, h.failures, h.timeouts, h.total, ?_, h.perSecond⟩
  rw [← foldl_countUnder, ← h.details]
  rfl

theorem Tallies.countSeconds (h : ledger.Tallies labelled queried dated) (more : List Sample) :
    (ledger.countSeconds more).Tallies labelled queried (dated ++ more) := by
  refine ⟨h.cumulative, h.failures, h.timeouts, h.total, h.details, ?_⟩
  rw [← foldl_countUnder, ← h.perSecond]
  rfl

/-- What concerns neither the views nor what they show. -/
theorem Tallies.bytes (h : ledger.Tallies labelled queried dated) (seen : Nat)
    (series : Table String (List SeriesPoint)) (sent received : UInt64) :
    { ledger with seen, series, sent, received }.Tallies labelled queried dated :=
  ⟨h.cumulative, h.failures, h.timeouts, h.total, h.details, h.perSecond⟩

/-- The end of a period takes nothing from what was counted since the start of the run. -/
theorem Tallies.restart (h : ledger.Tallies labelled queried dated) :
    { ledger with
      tracks := ledger.tracks.map Track.restart
      instantTotal := Histogram.empty }.Tallies labelled queried dated := by
  refine ⟨?_, ?_, ?_, h.total, h.details, h.perSecond⟩
  · intro label
    rw [PerLabel.get_map, ← h.cumulative]
    rfl
  · intro label
    rw [PerLabel.get_map, ← h.failures]
    rfl
  · intro label
    rw [PerLabel.get_map, ← h.timeouts]
    rfl

/-- The order in which samples were counted in a view does not matter. -/
theorem Tallies.perm (h : ledger.Tallies labelled queried dated) {labelled' queried' dated' :
    List Sample} (hlabelled : labelled.Perm labelled') (hqueried : queried.Perm queried')
    (hdated : dated.Perm dated') : ledger.Tallies labelled' queried' dated' where
  cumulative := fun label =>
    (h.cumulative label).trans (Histogram.ofSamples_perm (hlabelled.filter _))
  failures := fun label => (h.failures label).trans ((hlabelled.filter _).countP_eq _)
  timeouts := fun label => (h.timeouts label).trans ((hlabelled.filter _).countP_eq _)
  total := h.total.trans (Histogram.ofSamples_perm hlabelled)
  details := h.details.trans (tableOf_perm hqueried)
  perSecond := h.perSecond.trans (tableOf_perm hdated)

/-! ## All views of the same samples -/

/-- Every sample is of exactly one group. -/
theorem sum_countP_group (samples : List Sample) (p : Sample → Bool) :
    (Label.all.map fun label =>
      (samples.filter fun sample => sample.group = label).countP p).sum = samples.countP p := by
  induction samples with
  | nil => rfl
  | cons sample rest ih =>
    have hcons : ∀ label,
        ((sample :: rest).filter fun sample => sample.group = label).countP p =
          (rest.filter fun sample => sample.group = label).countP p +
            if sample.group = label ∧ p sample = true then 1 else 0 := by
      intro label
      rw [List.filter_cons]
      by_cases hgroup : sample.group = label
      · rw [if_pos (decide_eq_true hgroup), List.countP_cons]
        simp only [hgroup, true_and]
      · rw [if_neg (by simpa using hgroup), if_neg (fun h => hgroup h.1), Nat.add_zero]
    rw [List.countP_cons, ← ih]
    simp only [hcons, Label.all, List.map_cons, List.map_nil, List.sum_cons, List.sum_nil]
    cases sample.group <;> simp <;> omega

/-- The counters of a label are those of its cumulative histogram. -/
theorem counts_perLabel (ledger : Ledger) (label : Label) :
    ledger.counts.perLabel.get label = (ledger.tracks.get label).cumulative.total :=
  PerLabel.get_map _ _ _

section

variable (h : ledger.Tallies labelled queried dated)

include h

theorem Tallies.total_total : ledger.total.total = labelled.length := by
  rw [h.total, Histogram.total_ofSamples]

theorem Tallies.total_details :
    (ledger.details.values.map Histogram.total).sum = queried.length := by
  rw [h.details, sum_total_tableOf]

theorem Tallies.total_perSecond :
    (ledger.perSecond.values.map Histogram.total).sum = dated.length := by
  rw [h.perSecond, sum_total_tableOf]

theorem Tallies.counts_label (label : Label) : ledger.counts.perLabel.get label =
    labelled.countP fun sample => sample.group = label := by
  rw [counts_perLabel, h.cumulative, Histogram.total_ofSamples, List.countP_eq_length_filter]

theorem Tallies.sum_counts :
    (Label.all.map ledger.counts.perLabel.get).sum = ledger.counts.total := by
  have hall := sum_countP_group labelled fun _ => true
  simp only [List.countP_true, ← List.countP_eq_length_filter, ← h.counts_label] at hall
  exact hall.trans h.total_total.symm

/-- Slot by slot, the histograms of the labels come to that of all of them. -/
theorem Tallies.sum_countAt (slot : Nat) :
    (Label.all.map fun label => (ledger.tracks.get label).cumulative.countAt slot).sum =
      ledger.total.countAt slot := by
  simp only [h.cumulative, h.total, Histogram.countAt_ofSamples]
  exact sum_countP_group labelled _

end

/-- Whether a ledger shows samples in all its views. -/
structure Shows (ledger : Ledger) (measured : List Sample) : Prop where
  counts_total : ledger.counts.total = measured.length
  counts_label : ∀ label, ledger.counts.perLabel.get label =
    measured.countP fun sample => sample.group = label
  counts_labels : (Label.all.map ledger.counts.perLabel.get).sum = ledger.counts.total
  counts_failures : ledger.counts.failures = measured.countP Sample.failed
  counts_timeouts : ledger.counts.timeouts = measured.countP Sample.timedOut
  label : ∀ label, (ledger.tracks.get label).cumulative.IsOf
    (measured.filter fun sample => sample.group = label)
  total : ledger.total.IsOf measured
  details : TableShows ledger.details Sample.queryKey measured
  perSecond : TableShows ledger.perSecond Sample.second measured

theorem Tallies.shows {measured : List Sample} (h : ledger.Tallies measured measured measured) :
    ledger.Shows measured := by
  have hfailures : ledger.counts.failures = measured.countP Sample.failed := by
    rw [← sum_countP_group]
    simp only [← h.failures]
    rfl
  have htimeouts : ledger.counts.timeouts = measured.countP Sample.timedOut := by
    rw [← sum_countP_group]
    simp only [← h.timeouts]
    rfl
  refine ⟨h.total_total, h.counts_label, h.sum_counts, hfailures, htimeouts, ?_, ?_, ?_, ?_⟩
  · intro label
    rw [h.cumulative]
    exact Histogram.isOf_ofSamples _
  · rw [h.total]
    exact Histogram.isOf_ofSamples _
  · rw [h.details]
    exact tableShows_tableOf _
  · rw [h.perSecond]
    exact tableShows_tableOf _

/-- Whether two ledgers have counted the same since the start of the run: in every histogram, in
both tables, of failures and timeouts, and of bytes. -/
structure SameTotals (ledger other : Ledger) : Prop where
  cumulative : ∀ label,
    (ledger.tracks.get label).cumulative = (other.tracks.get label).cumulative
  failures : ∀ label, (ledger.tracks.get label).failures = (other.tracks.get label).failures
  timeouts : ∀ label, (ledger.tracks.get label).timeouts = (other.tracks.get label).timeouts
  total : ledger.total = other.total
  details : ledger.details = other.details
  perSecond : ledger.perSecond = other.perSecond
  sent : ledger.sent = other.sent
  received : ledger.received = other.received

/-- The views are determined by what was counted in them. -/
theorem Tallies.sameTotals {other : Ledger} (h : ledger.Tallies labelled queried dated)
    (hother : other.Tallies labelled queried dated) (hsent : ledger.sent = other.sent)
    (hreceived : ledger.received = other.received) : ledger.SameTotals other where
  cumulative := fun label => (h.cumulative label).trans (hother.cumulative label).symm
  failures := fun label => (h.failures label).trans (hother.failures label).symm
  timeouts := fun label => (h.timeouts label).trans (hother.timeouts label).symm
  total := h.total.trans hother.total.symm
  details := h.details.trans hother.details.symm
  perSecond := h.perSecond.trans hother.perSecond.symm
  sent := hsent
  received := hreceived

/-! ## Recordings in a row -/

/-- What happens to a ledger in a run. -/
inductive Event where
  | record (measured : Measurements)
  | endPeriod (timestamp : UInt64) (took : TimeSpan) (previous : Counts)
  deriving Repr

/-- The samples an event brings. -/
def Event.samples : Event → List Sample
  | .record measured => measured.samples
  | .endPeriod .. => []

/-- What a ledger becomes by an event; whether the event came to its end. -/
def handle (ledger : Ledger) : Event → Ledger × Bool
  | .record measured => ledger.record measured
  | .endPeriod timestamp took previous => ((ledger.endPeriod timestamp took previous).1, true)

/-- What a ledger becomes by events in a row; whether all of them came to their ends. -/
def replay (ledger : Ledger) : List Event → Ledger × Bool
  | [] => (ledger, true)
  | event :: rest =>
    let (after, ended) := ledger.handle event
    let (final, all) := after.replay rest
    (final, ended && all)

/-- Whether a ledger has seen samples, shows those behind the burn-in, and, unless some recording
did not come to its end, their bytes. -/
structure Recorded (ledger : Ledger) (burnIn : Nat) (complete : Prop) (issued : List Sample) :
    Prop where
  burnIn_eq : ledger.burnIn = burnIn
  seen_eq : ledger.seen = issued.length
  tallies : ledger.Tallies (issued.drop burnIn) (issued.drop burnIn) (issued.drop burnIn)
  sent : complete → ledger.sent.toNat = Sample.sentBytes (issued.drop burnIn) % 2 ^ 64
  received : complete → ledger.received.toNat = Sample.receivedBytes (issued.drop burnIn) % 2 ^ 64

theorem recorded_create (burnIn : Nat) (complete : Prop) :
    (create burnIn).Recorded burnIn complete [] := by
  refine ⟨rfl, rfl, ?_, fun _ => ?_, fun _ => ?_⟩
  · rw [List.drop_nil]
    exact tallies_create burnIn
  · rw [List.drop_nil]
    rfl
  · rw [List.drop_nil]
    rfl

/-- Whether the recording of a batch comes to its end. -/
theorem record_snd (ledger : Ledger) (measured : Measurements) :
    (ledger.record measured).2 = true ↔
      Sample.Countable (measured.samples.drop (ledger.burnIn - ledger.seen)) := by
  by_cases hcountable : Sample.Countable (measured.samples.drop (ledger.burnIn - ledger.seen))
  · simp [record, tickets_eq_drop, Traffic.ofSamples?_of_countable hcountable, hcountable]
  · simp [record, tickets_eq_drop, Traffic.ofSamples?_of_not_countable hcountable, hcountable]

variable {burnIn : Nat} {complete : Prop} {issued : List Sample}

theorem Recorded.record (h : ledger.Recorded burnIn complete issued) (measured : Measurements) :
    (ledger.record measured).1.Recorded burnIn (complete ∧ (ledger.record measured).2 = true)
      (issued ++ measured.samples) := by
  -- The samples of this batch behind the burn-in.
  obtain ⟨kept, hkept⟩ : ∃ kept, measured.samples.drop (ledger.burnIn - ledger.seen) = kept :=
    ⟨_, rfl⟩
  have hdrop : (issued ++ measured.samples).drop burnIn = issued.drop burnIn ++ kept := by
    rw [List.drop_append, ← h.burnIn_eq, ← h.seen_eq, hkept]
  have hseen : ledger.seen + measured.samples.length = (issued ++ measured.samples).length := by
    rw [List.length_append, h.seen_eq]
  have hdrawn := h.tallies.bytes (ledger.seen + measured.samples.length) ledger.series
    ledger.sent ledger.received
  have htallies := ((hdrawn.countLabels kept).countQueries kept).countSeconds kept
  rw [← hdrop] at htallies
  have hlabels := countLabels_eq
    { ledger with seen := ledger.seen + measured.samples.length } kept
  have hended := record_snd ledger measured
  rw [hkept] at hended
  by_cases hcountable : Sample.Countable kept
  · have htraffic := Traffic.ofSamples?_of_countable hcountable
    have hrecord : ledger.record measured = ((((((countLabels
        { ledger with seen := ledger.seen + measured.samples.length } kept).countQueries
        kept).countSeconds kept).addSent (UInt64.ofNat (Sample.sentBytes kept))).addReceived
        (UInt64.ofNat (Sample.receivedBytes kept))), true) := by
      simp only [Ledger.record, tickets_eq_drop, hkept, htraffic]
    rw [hrecord]
    refine ⟨?_, ?_, htallies.bytes _ _ _ _, fun hall => ?_, fun hall => ?_⟩
    · rw [hlabels]
      exact h.burnIn_eq
    · rw [hlabels]
      exact hseen
    · have hsent : (ledger.sent + UInt64.ofNat (Sample.sentBytes kept)).toNat =
          Sample.sentBytes ((issued ++ measured.samples).drop burnIn) % 2 ^ 64 := by
        rw [UInt64.toNat_add, UInt64.toNat_ofNat', h.sent hall.1, hdrop, ← Multiset.coe_add,
          Sample.sentBytes_add, ← Nat.add_mod]
      rw [hlabels]
      exact hsent
    · have hreceived : (ledger.received + UInt64.ofNat (Sample.receivedBytes kept)).toNat =
          Sample.receivedBytes ((issued ++ measured.samples).drop burnIn) % 2 ^ 64 := by
        rw [UInt64.toNat_add, UInt64.toNat_ofNat', h.received hall.1, hdrop, ← Multiset.coe_add,
          Sample.receivedBytes_add, ← Nat.add_mod]
      rw [hlabels]
      exact hreceived
  · have htraffic := Traffic.ofSamples?_of_not_countable hcountable
    have hrecord : ledger.record measured = ((((countLabels
        { ledger with seen := ledger.seen + measured.samples.length } kept).countQueries
        kept).countSeconds kept), false) := by
      simp only [Ledger.record, tickets_eq_drop, hkept, htraffic]
    -- Of a recording that did not come to its end no bytes are promised.
    have hno : ¬ (complete ∧ (ledger.record measured).2 = true) :=
      fun hall => hcountable (hended.mp hall.2)
    refine ⟨?_, ?_, ?_, fun hall => absurd hall hno, fun hall => absurd hall hno⟩
    · rw [hrecord, hlabels]
      exact h.burnIn_eq
    · rw [hrecord, hlabels]
      exact hseen
    · rw [hrecord]
      exact htallies

theorem Recorded.endPeriod (h : ledger.Recorded burnIn complete issued) (timestamp : UInt64)
    (took : TimeSpan) (previous : Counts) :
    (ledger.endPeriod timestamp took previous).1.Recorded burnIn complete issued :=
  ⟨h.burnIn_eq, h.seen_eq, h.tallies.restart.bytes _ _ _ _, h.sent, h.received⟩

theorem Recorded.replay (h : ledger.Recorded burnIn complete issued) (events : List Event) :
    (ledger.replay events).1.Recorded burnIn (complete ∧ (ledger.replay events).2 = true)
      (issued ++ events.flatMap Event.samples) := by
  induction events generalizing ledger complete issued with
  | nil => simpa [Ledger.replay] using h
  | cons event rest ih =>
    cases event with
    | record measured =>
      have hrest := ih (h.record measured)
      rw [List.append_assoc, and_assoc, ← Bool.and_eq_true] at hrest
      exact hrest
    | endPeriod timestamp took previous =>
      have hrest := ih (h.endPeriod timestamp took previous)
      simpa [Ledger.replay, handle, Event.samples] using hrest

/-- If 64 bits hold the bytes of all samples behind the burn-in, every recording comes to its
end. -/
theorem Recorded.replay_ends (h : ledger.Recorded burnIn complete issued) (events : List Event)
    (hcountable : Sample.Countable ((issued ++ events.flatMap Event.samples).drop burnIn)) :
    (ledger.replay events).2 = true := by
  induction events generalizing ledger complete issued with
  | nil => rfl
  | cons event rest ih =>
    cases event with
    | record measured =>
      have hends : (ledger.record measured).2 = true := by
        apply (record_snd ledger measured).mpr
        apply hcountable.mono
        rw [Multiset.coe_le]
        apply List.Sublist.subperm
        -- The batch stands between what was issued before it and what is issued behind it.
        rw [h.burnIn_eq, h.seen_eq, List.flatMap_cons, List.drop_append, List.drop_append]
        exact (List.sublist_append_left _ _).trans (List.sublist_append_right _ _)
      have hrest := ih (h.record measured) (by rwa [List.append_assoc])
      exact Bool.and_eq_true_iff.mpr ⟨hends, hrest⟩
    | endPeriod timestamp took previous =>
      exact Bool.and_eq_true_iff.mpr ⟨rfl, ih (h.endPeriod timestamp took previous) hcountable⟩

/-- Without a burn-in, every recording comes to its end if 64 bits hold the bytes of each batch. -/
theorem Recorded.replay_records_end (h : ledger.Recorded 0 complete issued)
    (batches : List Measurements)
    (hcountable : ∀ batch ∈ batches, Sample.Countable batch.samples) :
    (ledger.replay (batches.map Event.record)).2 = true := by
  induction batches generalizing ledger complete issued with
  | nil => rfl
  | cons batch rest ih =>
    have hends : (ledger.record batch).2 = true := by
      rw [record_snd, h.burnIn_eq, Nat.zero_sub, List.drop_zero]
      exact hcountable batch (List.mem_cons_self ..)
    have hrest := ih (h.record batch) fun other hother =>
      hcountable other (List.mem_cons_of_mem _ hother)
    exact Bool.and_eq_true_iff.mpr ⟨hends, hrest⟩

/-- After batches recorded in a row, periods ending in between, the burn-in is left out and every
view shows the rest.  The byte totals are those of the rest, at 64 bits; and whenever 64 bits hold
them, every recording comes to its end. -/
theorem shows_of_replay (burnIn : Nat) (events : List Event) :
    ∃ ledger complete, (create burnIn).replay events = (ledger, complete) ∧
      ledger.leftOut = Nat.min burnIn (events.flatMap Event.samples).length ∧
      ledger.Shows ((events.flatMap Event.samples).drop burnIn) ∧
      (complete = true →
        ledger.counts.sent =
          Sample.sentBytes ((events.flatMap Event.samples).drop burnIn) % 2 ^ 64 ∧
        ledger.counts.received =
          Sample.receivedBytes ((events.flatMap Event.samples).drop burnIn) % 2 ^ 64) ∧
      (Sample.Countable ((events.flatMap Event.samples).drop burnIn) → complete = true ∧
        ledger.counts.sent = Sample.sentBytes ((events.flatMap Event.samples).drop burnIn) ∧
        ledger.counts.received =
          Sample.receivedBytes ((events.flatMap Event.samples).drop burnIn)) := by
  have hcreate := recorded_create burnIn True
  have hreplay := hcreate.replay events
  refine ⟨_, _, rfl, ?_, hreplay.tallies.shows, fun hall => ?_, fun hcountable => ?_⟩
  · rw [leftOut, hreplay.burnIn_eq, hreplay.seen_eq, List.nil_append]
    exact Nat.min_comm _ _
  · exact ⟨hreplay.sent ⟨trivial, hall⟩, hreplay.received ⟨trivial, hall⟩⟩
  · have hall := hcreate.replay_ends events hcountable
    refine ⟨hall, ?_, ?_⟩
    · exact (hreplay.sent ⟨trivial, hall⟩).trans (Nat.mod_eq_of_lt hcountable.sent)
    · exact (hreplay.received ⟨trivial, hall⟩).trans (Nat.mod_eq_of_lt hcountable.received)

end Ledger

end LoadBench
