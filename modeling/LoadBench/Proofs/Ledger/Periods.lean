/-
  LoadBench.Proofs.Ledger.Periods

  Reporting periods divide the measured samples.  Between two ends of periods the
  instant histograms are those of the samples counted since the first of the two
  (`Current`), so every sample is in exactly one period (`Division`), and what the
  periods have counted comes to what had been counted when the last of them ended
  (`Divides.sum_ended`).  `partitions_of_replay` puts this together with the points of
  the periods.
-/

import LoadBench.Proofs.Ledger.Points
import LoadBench.Proofs.Ledger.Views

namespace LoadBench

/-! ## Samples by period -/

/-- Samples by the periods in which they were counted. -/
structure Division where
  /-- Those of the periods that have ended. -/
  ended : List (List Sample)
  /-- Those since the last period ended. -/
  current : List Sample
  deriving DecidableEq, Repr

namespace Division

/-- No samples, and no period that has ended. -/
def empty : Division := ⟨[], []⟩

/-- All samples, in order. -/
def samples (division : Division) : List Sample := division.ended.flatten ++ division.current

/-- More samples in the current period. -/
def add (division : Division) (more : List Sample) : Division :=
  { division with current := division.current ++ more }

/-- The current period ends. -/
def close (division : Division) : Division := ⟨division.ended ++ [division.current], []⟩

@[simp] theorem samples_add (division : Division) (more : List Sample) :
    (division.add more).samples = division.samples ++ more :=
  (List.append_assoc ..).symm

@[simp] theorem samples_close (division : Division) : division.close.samples = division.samples := by
  simp [samples, close]

end Division

namespace Ledger

/-- The samples of events by period, behind those of an earlier division. The first `left` samples
are left out. -/
def divide (division : Division) (left : Nat) : List Event → Division
  | [] => division
  | .record measured :: rest =>
    divide (division.add (measured.samples.drop left)) (left - measured.samples.length) rest
  | .endPeriod .. :: rest => divide division.close left rest

/-- Every sample behind those left out is in one of the periods, and in no other. -/
theorem samples_divide (division : Division) (left : Nat) (events : List Event) :
    (divide division left events).samples =
      division.samples ++ (events.flatMap Event.samples).drop left := by
  induction events generalizing division left with
  | nil => simp [divide]
  | cons event rest ih =>
    cases event with
    | record measured =>
      rw [divide, ih, Division.samples_add, List.append_assoc, List.flatMap_cons, Event.samples,
        List.drop_append]
    | endPeriod timestamp took previous =>
      rw [divide, ih, Division.samples_close]
      rfl

/-- The ends of periods among events, in order. -/
def periodEnds (ledger : Ledger) : List Event → List PeriodEnd
  | [] => []
  | .record measured :: rest => (ledger.record measured).1.periodEnds rest
  | .endPeriod timestamp took previous :: rest =>
    ⟨ledger, timestamp, took, previous⟩ ::
      (ledger.endPeriod timestamp took previous).1.periodEnds rest

/-- The ledger that the last end of a period found; before the first one, a ledger that has
recorded nothing. -/
def atLastEnd (ends : List PeriodEnd) : Ledger := (ends.getLast?.map PeriodEnd.ledger).getD default

@[simp] theorem atLastEnd_concat (ends : List PeriodEnd) (ending : PeriodEnd) :
    atLastEnd (ends ++ [ending]) = ending.ledger := by
  simp [atLastEnd]

/-! ## The current period -/

/-- Whether the instant histograms of a ledger are those of samples. -/
structure Current (ledger : Ledger) (samples : List Sample) : Prop where
  group : ∀ label, (ledger.tracks.get label).instant =
    Histogram.ofSamples (samples.filter fun sample => sample.group = label)
  all : ledger.instantTotal = Histogram.ofSamples samples

variable {ledger : Ledger} {samples : List Sample}

theorem current_create (burnIn : Nat) : (create burnIn).Current [] where
  group := fun label => by cases label <;> rfl
  all := rfl

theorem Current.countLabel (h : ledger.Current samples) (sample : Sample) :
    (ledger.countLabel sample).Current (samples ++ [sample]) where
  group := by
    intro label
    rw [get_countLabel, filter_group_concat]
    split
    · rw [Histogram.ofSamples_concat, ← h.group]
      rfl
    · rw [List.append_nil, ← h.group]
  all := by
    rw [Histogram.ofSamples_concat, ← h.all]
    rfl

theorem Current.countLabels (h : ledger.Current samples) (more : List Sample) :
    (ledger.countLabels more).Current (samples ++ more) := by
  induction more generalizing ledger samples with
  | nil => rwa [List.append_nil]
  | cons sample rest ih =>
    have hrest := ih (h.countLabel sample)
    rwa [List.append_assoc] at hrest

/-- A new period has no samples. -/
theorem current_restartTracks (ledger : Ledger) : ledger.restartTracks.Current [] where
  group := by
    intro label
    show ((ledger.tracks.map Track.restart).get label).instant = _
    rw [PerLabel.get_map]
    rfl
  all := rfl

/-- Slot by slot, the instant histograms of the labels come to that of all commands. -/
theorem Current.sum_countAt (h : ledger.Current samples) (slot : Nat) :
    (Label.all.map fun label => (ledger.tracks.get label).instant.countAt slot).sum =
      ledger.instantTotal.countAt slot := by
  simp only [h.group, h.all, Histogram.countAt_ofSamples]
  exact sum_countP_group samples _

/-! ## What every event keeps -/

/-- Tickets make no difference for the labels. -/
theorem countLabels_seen (more : List Sample) (ledger : Ledger) (seen : Nat) :
    countLabels { ledger with seen } more = { ledger.countLabels more with seen } := by
  induction more generalizing ledger with
  | nil => rfl
  | cons sample rest ih => exact ih (ledger.countLabel sample)

/-- A recording counts the samples behind the burn-in, and has nothing to do with time series. -/
theorem record_fst (ledger : Ledger) (measured : Measurements) {kept : List Sample}
    (hkept : measured.samples.drop (ledger.burnIn - ledger.seen) = kept) :
    ∃ sent received, (ledger.record measured).1 =
      { ((ledger.countLabels kept).countQueries kept).countSeconds kept with
        seen := ledger.seen + measured.samples.length
        sent
        received } := by
  have hseen := countLabels_seen kept ledger (ledger.seen + measured.samples.length)
  cases htraffic : Traffic.ofSamples? kept with
  | some traffic =>
    refine ⟨(ledger.countLabels kept).sent + traffic.sent,
      (ledger.countLabels kept).received + traffic.received, ?_⟩
    simp only [record, tickets_eq_drop, hkept, htraffic, hseen]
    rfl
  | none =>
    refine ⟨(ledger.countLabels kept).sent, (ledger.countLabels kept).received, ?_⟩
    simp only [record, tickets_eq_drop, hkept, htraffic, hseen]
    rfl

/-- Whether a ledger has counted samples by period. -/
structure Divides (ledger : Ledger) (ends : List PeriodEnd) (division : Division) : Prop where
  tallies : ∃ queried dated, ledger.Tallies division.samples queried dated
  current : ledger.Current division.current
  ended : List.Forall₂ (fun ending samples => ending.ledger.Current samples) ends division.ended
  lastEnd : ∃ queried dated, (atLastEnd ends).Tallies division.ended.flatten queried dated

variable {ledger' : Ledger} {ends : List PeriodEnd} {division : Division}

theorem divides_create (burnIn : Nat) : (create burnIn).Divides [] Division.empty where
  tallies := ⟨_, _, tallies_create burnIn⟩
  current := current_create burnIn
  ended := .nil
  lastEnd := ⟨_, _, tallies_create 0⟩

/-- Samples that are counted under their labels are in the current period. -/
theorem Divides.countLabels (h : ledger.Divides ends division) (more : List Sample) :
    (ledger.countLabels more).Divides ends (division.add more) where
  tallies := by
    obtain ⟨queried, dated, htallies⟩ := h.tallies
    refine ⟨queried, dated, ?_⟩
    rw [Division.samples_add]
    exact htallies.countLabels more
  current := h.current.countLabels more
  ended := h.ended
  lastEnd := h.lastEnd

/-- Nothing but the tracks of the labels and their totals tells the periods. -/
theorem Divides.congr (h : ledger.Divides ends division)
    (htallies : ∃ queried dated, ledger'.Tallies division.samples queried dated)
    (htracks : ledger'.tracks = ledger.tracks)
    (htotal : ledger'.instantTotal = ledger.instantTotal) : ledger'.Divides ends division where
  tallies := htallies
  current := ⟨htracks ▸ h.current.group, htotal ▸ h.current.all⟩
  ended := h.ended
  lastEnd := h.lastEnd

theorem Divides.record (h : ledger.Divides ends division) (measured : Measurements) :
    (ledger.record measured).1.Divides ends
      (division.add (measured.samples.drop (ledger.burnIn - ledger.seen))) := by
  obtain ⟨kept, hkept⟩ : ∃ kept, measured.samples.drop (ledger.burnIn - ledger.seen) = kept :=
    ⟨_, rfl⟩
  obtain ⟨sent, received, hrecord⟩ := record_fst ledger measured hkept
  have hlabels := h.countLabels kept
  obtain ⟨queried, dated, htallies⟩ := hlabels.tallies
  rw [hkept, hrecord]
  exact hlabels.congr ⟨queried ++ kept, dated ++ kept,
    ((htallies.countQueries kept).countSeconds kept).bytes _ _ _ _⟩ rfl rfl

theorem Charts.record (h : ledger.Charts ends) (measured : Measurements) :
    (ledger.record measured).1.Charts ends := by
  obtain ⟨sent, received, hrecord⟩ := record_fst ledger measured rfl
  refine h.congr ?_
  rw [hrecord, countLabels_eq]
  rfl

/-- The section on the tracks of the labels ends the current period. -/
theorem Divides.restartTracks (h : ledger.Divides ends division) (timestamp : UInt64)
    (took : TimeSpan) (previous : Counts) :
    ledger.restartTracks.Divides (ends ++ [⟨ledger, timestamp, took, previous⟩])
      division.close := by
  obtain ⟨queried, dated, htallies⟩ := h.tallies
  refine ⟨⟨queried, dated, ?_⟩, current_restartTracks ledger, ?_, ⟨queried, dated, ?_⟩⟩
  · rw [Division.samples_close]
    exact htallies.restart
  · exact List.rel_append h.ended (.cons h.current .nil)
  · rw [atLastEnd_concat, Division.close, List.flatten_concat]
    exact htallies

theorem Divides.endPeriod (h : ledger.Divides ends division) (timestamp : UInt64)
    (took : TimeSpan) (previous : Counts) :
    (ledger.endPeriod timestamp took previous).1.Divides
      (ends ++ [⟨ledger, timestamp, took, previous⟩]) division.close := by
  have hrestart := h.restartTracks timestamp took previous
  obtain ⟨queried, dated, htallies⟩ := hrestart.tallies
  rw [endPeriod_eq]
  exact hrestart.congr ⟨queried, dated, htallies.bytes _ _ _ _⟩ rfl rfl

theorem Charts.endPeriod (h : ledger.Charts ends) (timestamp : UInt64) (took : TimeSpan)
    (previous : Counts) :
    (ledger.endPeriod timestamp took previous).1.Charts
      (ends ++ [⟨ledger, timestamp, took, previous⟩]) := by
  have hrestart : ledger.restartTracks.Charts ends := h.congr rfl
  rw [endPeriod_eq, PeriodEnd.pointsOf_eq]
  exact hrestart.publish ⟨ledger, timestamp, took, previous⟩

theorem Divides.replay (h : ledger.Divides ends division) (events : List Event) :
    (ledger.replay events).1.Divides (ends ++ ledger.periodEnds events)
      (divide division (ledger.burnIn - ledger.seen) events) := by
  induction events generalizing ledger ends division with
  | nil => simpa [Ledger.replay, periodEnds, divide] using h
  | cons event rest ih =>
    cases event with
    | record measured =>
      have hrest := ih (h.record measured)
      obtain ⟨sent, received, hrecord⟩ := record_fst ledger measured rfl
      have hleft : (ledger.record measured).1.burnIn - (ledger.record measured).1.seen =
          ledger.burnIn - ledger.seen - measured.samples.length := by
        rw [hrecord, Nat.sub_sub, countLabels_eq]
        rfl
      rw [hleft] at hrest
      exact hrest
    | endPeriod timestamp took previous =>
      have hrest := ih (h.endPeriod timestamp took previous)
      rw [List.append_assoc] at hrest
      exact hrest

theorem Charts.replay (h : ledger.Charts ends) (events : List Event) :
    (ledger.replay events).1.Charts (ends ++ ledger.periodEnds events) := by
  induction events generalizing ledger ends with
  | nil => simpa [Ledger.replay, periodEnds] using h
  | cons event rest ih =>
    cases event with
    | record measured => exact ih (h.record measured)
    | endPeriod timestamp took previous =>
      have hrest := ih (h.endPeriod timestamp took previous)
      rw [List.append_assoc] at hrest
      exact hrest

/-! ## Sums over periods -/

section

variable (view : Histogram → Nat) {p : Sample → Bool}
  (hview : ∀ samples, view (Histogram.ofSamples samples) = samples.countP p)

include hview

/-- What the ended periods have counted comes to what had been counted when the last of them ended,
for every way of counting samples one by one. -/
theorem Divides.sum_ended (h : ledger.Divides ends division) (label : Label) :
    (ends.map fun ending => view (ending.ledger.tracks.get label).instant).sum =
      view ((atLastEnd ends).tracks.get label).cumulative := by
  have hsum : ∀ {ends : List PeriodEnd} {ended : List (List Sample)},
      List.Forall₂ (fun ending samples => ending.ledger.Current samples) ends ended →
      (ends.map fun ending => view (ending.ledger.tracks.get label).instant).sum =
        (ended.flatten.filter fun sample => sample.group = label).countP p := by
    intro ends ended hended
    induction hended with
    | nil => rfl
    | cons hfirst _ ih =>
      rw [List.map_cons, List.sum_cons, ih, hfirst.group, hview, List.flatten_cons,
        List.filter_append, List.countP_append]
  obtain ⟨queried, dated, hlast⟩ := h.lastEnd
  rw [hsum h.ended, hlast.cumulative, hview]

/-- An instant histogram is what the cumulative one has gained since the last period ended. -/
theorem Divides.instant_add (h : ledger.Divides ends division) (label : Label) :
    view (ledger.tracks.get label).instant +
        view ((atLastEnd ends).tracks.get label).cumulative =
      view (ledger.tracks.get label).cumulative := by
  obtain ⟨queried, dated, htallies⟩ := h.tallies
  obtain ⟨_, _, hlast⟩ := h.lastEnd
  rw [h.current.group, hlast.cumulative, htallies.cumulative, hview, hview, hview,
    Division.samples, List.filter_append, List.countP_append, Nat.add_comm]

/-- So is that of all commands. -/
theorem Divides.instantTotal_add (h : ledger.Divides ends division) :
    view ledger.instantTotal + view (atLastEnd ends).total = view ledger.total := by
  obtain ⟨queried, dated, htallies⟩ := h.tallies
  obtain ⟨_, _, hlast⟩ := h.lastEnd
  rw [h.current.all, hlast.total, htallies.total, hview, hview, hview, Division.samples,
    List.countP_append, Nat.add_comm]

end

theorem total_ofSamples_eq (samples : List Sample) :
    (Histogram.ofSamples samples).total = samples.countP fun _ => true := by
  rw [Histogram.total_ofSamples, List.countP_true]

/-! ## The partition -/

/-- Whether the end of a period leaves alone what was counted since the start of the run, and adds
one point to each time series. -/
structure EndsPeriods (ledger : Ledger) : Prop where
  sameTotals : ∀ timestamp took previous,
    (ledger.endPeriod timestamp took previous).1.SameTotals ledger
  counts : ∀ timestamp took previous,
    (ledger.endPeriod timestamp took previous).1.counts = ledger.counts ∧
      (ledger.endPeriod timestamp took previous).2.counts = ledger.counts
  points : ∀ timestamp took previous series,
    (ledger.endPeriod timestamp took previous).1.pointsIn series =
      ledger.pointsIn series ++ [PeriodEnd.point ⟨ledger, timestamp, took, previous⟩ series]

theorem endsPeriods (ledger : Ledger) : ledger.EndsPeriods where
  sameTotals := fun timestamp took previous => by
    have htrack : ∀ label, (ledger.endPeriod timestamp took previous).1.tracks.get label =
        (ledger.tracks.get label).restart :=
      PerLabel.get_map Track.restart ledger.tracks
    exact ⟨fun label => (congrArg Track.cumulative (htrack label)).trans rfl,
      fun label => (congrArg Track.failures (htrack label)).trans rfl,
      fun label => (congrArg Track.timeouts (htrack label)).trans rfl, rfl, rfl, rfl, rfl, rfl⟩
  counts := fun timestamp took previous => ⟨rfl, rfl⟩
  points := fun timestamp took previous series => by
    rw [endPeriod_eq, PeriodEnd.pointsOf_eq]
    exact pointsIn_publish ledger.restartTracks ⟨ledger, timestamp, took, previous⟩ series

/-- Whether periods divide the measured samples of a ledger, and its time series have a point for
each of them. -/
structure Partitions (ledger : Ledger) (ends : List PeriodEnd) (division : Division)
    (measured : List Sample) : Prop where
  /-- Every measured sample is in exactly one period. -/
  samples_eq : division.samples = measured
  /-- At its end, each period had counted its samples. -/
  ended : List.Forall₂ (fun ending samples => ending.ledger.Current samples) ends division.ended
  /-- So has the current period. -/
  current : ledger.Current division.current
  instant : ∀ label slot, (ledger.tracks.get label).instant.countAt slot +
      ((atLastEnd ends).tracks.get label).cumulative.countAt slot =
    (ledger.tracks.get label).cumulative.countAt slot
  instantTotal : ∀ slot, ledger.instantTotal.countAt slot =
    (Label.all.map fun label => (ledger.tracks.get label).instant.countAt slot).sum
  slots : ∀ label slot,
    (ends.map fun ending => (ending.ledger.tracks.get label).instant.countAt slot).sum =
      ((atLastEnd ends).tracks.get label).cumulative.countAt slot
  counts : ∀ label,
    (ends.map fun ending => (ending.ledger.tracks.get label).instant.total).sum =
      (atLastEnd ends).counts.perLabel.get label
  endsPeriods : ledger.EndsPeriods
  keys : ∀ key, key ∈ ledger.series.keys ↔ ends ≠ [] ∧ key ∈ Series.all.map Series.key
  points : ∀ series, ledger.pointsIn series = ends.map fun ending => ending.point series
  /-- A point has the timestamp that was passed when its period ended. -/
  timestamps : ∀ ending ∈ ends, ∀ series, (ending.point series).timestamp = ending.timestamp
  publishedKeys : ledger.timeSeries.keys = ledger.series.keys
  published : ∀ series,
    InOrder ((ledger.timeSeries.get? series.key).getD []) (ledger.pointsIn series)

theorem Divides.partitions (h : ledger.Divides ends division) (hcharts : ledger.Charts ends)
    {measured : List Sample} (hsamples : division.samples = measured) :
    ledger.Partitions ends division measured where
  samples_eq := hsamples
  ended := h.ended
  current := h.current
  instant := fun label slot =>
    h.instant_add (fun histogram => histogram.countAt slot)
      (fun samples => Histogram.countAt_ofSamples samples slot) label
  instantTotal := fun slot => (h.current.sum_countAt slot).symm
  slots := fun label slot =>
    h.sum_ended (fun histogram => histogram.countAt slot)
      (fun samples => Histogram.countAt_ofSamples samples slot) label
  counts := by
    intro label
    rw [counts_perLabel]
    exact h.sum_ended Histogram.total total_ofSamples_eq label
  endsPeriods := ledger.endsPeriods
  keys := hcharts.keys
  points := hcharts.points
  timestamps := fun ending _ series => ending.timestamp_point series
  publishedKeys := Table.keys_map _ _
  published := ledger.inOrder_timeSeries

/-- Whatever batches are recorded and whatever periods end in between, the periods divide the
samples behind the burn-in, and each end of a period has a point in each of the ten series. -/
theorem partitions_of_replay (burnIn : Nat) (events : List Event) :
    ((create burnIn).replay events).1.Partitions ((create burnIn).periodEnds events)
      (divide Division.empty burnIn events) ((events.flatMap Event.samples).drop burnIn) := by
  have hdivides := (divides_create burnIn).replay events
  have hcharts := (charts_create burnIn).replay events
  rw [List.nil_append] at hdivides hcharts
  exact hdivides.partitions hcharts (samples_divide Division.empty burnIn events)

end Ledger

end LoadBench
