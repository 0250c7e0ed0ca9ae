/-
  LoadBench.Proofs.Ledger.Series

  What a ledger adds to its time series can be published.  The histograms of the
  current period keep slots that there are, so the quantiles of every period are
  finite numbers, and rates are finite as they are published.  The keys of the
  series ascend.  All this holds whatever sections come in between each other
  (`Desk.timed_follow`).
-/

import LoadBench.Proofs.Ledger.Desk
import LoadBench.Proofs.Published

namespace LoadBench

/-- The numbers that a point shows. -/
def PointValue.numbers : PointValue → List Binary64
  | .scalar value => [value]
  | .period quantiles rate => quantiles.toList ++ [rate]

/-- Whether all numbers of a point are finite. -/
def SeriesPoint.IsFinite (point : SeriesPoint) : Prop :=
  ∀ x ∈ point.value.numbers, x.isFinite = true

namespace Ledger

/-- Whether time series can be published: their keys ascend, and all their points are finite. -/
structure Publishable (series : Table String (List SeriesPoint)) : Prop where
  ordered : series.Ordered
  finite : ∀ points ∈ series.values, ∀ point ∈ points, point.IsFinite

/-- Whether the current period and the time series of a ledger can be published. -/
structure Timed (ledger : Ledger) : Prop where
  instant : ∀ label, (ledger.tracks.get label).instant.Sparse
  instantTotal : ledger.instantTotal.Sparse
  series : Publishable ledger.series

variable {ledger : Ledger}

theorem timed_create (burnIn : Nat) : (create burnIn).Timed where
  instant := fun label => by
    cases label <;> exact Histogram.sparse_empty
  instantTotal := Histogram.sparse_empty
  series := ⟨List.Pairwise.nil, nofun⟩

/-! ## Recordings -/

theorem Timed.countLabel (h : ledger.Timed) (sample : Sample) : (ledger.countLabel sample).Timed where
  instant := by
    intro label
    show ((ledger.tracks.modify _ _).get label).instant.Sparse
    rw [PerLabel.get_modify]
    split
    · exact (h.instant label).record _
    · exact h.instant label
  instantTotal := h.instantTotal.record _
  series := h.series

theorem Timed.countLabels (h : ledger.Timed) (measured : List Sample) :
    (ledger.countLabels measured).Timed := by
  induction measured generalizing ledger with
  | nil => exact h
  | cons sample rest ih => exact ih (h.countLabel sample)

/-- A section of a recording adds to the current period only. -/
theorem Timed.advance {recording next : Recording} {ledger' : Ledger} (h : ledger.Timed)
    (hadvance : recording.advance? ledger = some (ledger', next)) : ledger'.Timed := by
  obtain ⟨drawn, measured, stage⟩ := recording
  cases stage with
  | drawing undrawn =>
    cases undrawn <;>
    · obtain ⟨rfl, -⟩ := Prod.mk.inj (Option.some.inj hadvance)
      exact ⟨h.instant, h.instantTotal, h.series⟩
  | labelling =>
    obtain ⟨rfl, -⟩ := Prod.mk.inj (Option.some.inj hadvance)
    exact h.countLabels measured
  | querying | dating | receiving =>
    obtain ⟨rfl, -⟩ := Prod.mk.inj (Option.some.inj hadvance)
    exact ⟨h.instant, h.instantTotal, h.series⟩
  | sending =>
    cases htraffic : Traffic.ofSamples? measured <;>
    · rw [Recording.advance?, htraffic] at hadvance
      obtain ⟨rfl, -⟩ := Prod.mk.inj (Option.some.inj hadvance)
      exact ⟨h.instant, h.instantTotal, h.series⟩
  | returned | overflowed => cases hadvance

/-! ## Ends of periods -/

theorem isFinite_pointOf {instant : Histogram} (h : instant.Sparse) (timestamp : UInt64)
    (took : TimeSpan) : (pointOf timestamp took instant).IsFinite := by
  simp only [SeriesPoint.IsFinite, pointOf, PointValue.numbers, List.forall_mem_append,
    List.forall_mem_singleton, Rate.isFinite_perSecond, and_true]
  exact fun x => h.isFinite_quantiles

theorem isFinite_scalar {timestamp : UInt64} {count before : Nat} {took : TimeSpan} :
    SeriesPoint.IsFinite ⟨timestamp, .scalar (Rate.perSecond count before took)⟩ := by
  simp only [SeriesPoint.IsFinite, PointValue.numbers, List.forall_mem_singleton,
    Rate.isFinite_perSecond]

/-- All points that a period adds are finite. -/
theorem Timed.isFinite_pointsOf (h : ledger.Timed) (timestamp : UInt64) (took : TimeSpan)
    (previous : Counts) : ∀ point ∈ ledger.pointsOf timestamp took (ledger.row took previous),
      SeriesPoint.IsFinite point.2 := by
  simp only [pointsOf, row, List.forall_mem_append, List.forall_mem_map, List.forall_mem_cons,
    List.not_mem_nil, IsEmpty.forall_iff, implies_true, and_true, isFinite_scalar,
    isFinite_pointOf h.instantTotal]
  exact fun label _ => isFinite_pointOf (h.instant label) timestamp took

theorem Publishable.addPoint {series : Table String (List SeriesPoint)} (h : Publishable series)
    (key : String) {point : SeriesPoint} (hpoint : point.IsFinite) :
    Publishable (addPoint series key point) where
  ordered := h.ordered.alter _ _
  finite := by
    refine Table.forall_values_alter h.finite (fun before hbefore other hother => ?_) key
    rcases List.mem_append.mp hother with hold | hnew
    · cases before with
      | none => cases hold
      | some before => exact hbefore before rfl other hold
    · rwa [List.mem_singleton.mp hnew]

theorem Publishable.addPoints {points : List (String × SeriesPoint)}
    (hpoints : ∀ point ∈ points, point.2.IsFinite) {series : Table String (List SeriesPoint)}
    (h : Publishable series) :
    Publishable (points.foldl (fun series point => Ledger.addPoint series point.1 point.2) series) := by
  induction points generalizing series with
  | nil => exact h
  | cons point rest ih =>
    obtain ⟨hpoint, hrest⟩ := List.forall_mem_cons.mp hpoints
    exact ih hrest (h.addPoint point.1 hpoint)

theorem Timed.restartTracks (h : ledger.Timed) : ledger.restartTracks.Timed where
  instant := by
    intro label
    show ((ledger.tracks.map Track.restart).get label).instant.Sparse
    rw [PerLabel.get_map]
    exact Histogram.sparse_empty
  instantTotal := Histogram.sparse_empty
  series := h.series

theorem Timed.publish (h : ledger.Timed) {points : List (String × SeriesPoint)}
    (hpoints : ∀ point ∈ points, point.2.IsFinite) : (ledger.publish points).Timed :=
  ⟨h.instant, h.instantTotal, h.series.addPoints hpoints⟩

/-- Sorting the points by their timestamps loses nothing. -/
theorem Timed.timeSeries (h : ledger.Timed) : Publishable ledger.timeSeries where
  ordered := h.series.ordered.map _
  finite := by
    intro points hpoints point hpoint
    rw [Ledger.timeSeries, Table.values_map] at hpoints
    obtain ⟨before, hbefore, rfl⟩ := List.mem_map.mp hpoints
    exact h.series.finite before hbefore point (List.mem_mergeSort.mp hpoint)

end Ledger

/-! ## All parties -/

namespace Desk

/-- Whether all that a desk has published, and what it has still to publish, can be published. -/
structure Timed (desk : Desk) : Prop where
  ledger : desk.ledger.Timed
  unpublished : ∀ points ∈ desk.unpublished, ∀ point ∈ points, point.2.IsFinite

variable {desk after : Desk}

theorem timed_start (burnIn : Nat) (batches : List Measurements) : (start burnIn batches).Timed := by
  refine ⟨Ledger.timed_create burnIn, ?_⟩
  rintro none ⟨⟩

theorem Timed.step (h : desk.Timed) {move : Move} (hstep : step? move desk = some after) :
    after.Timed := by
  cases steps_of_step? hstep with
  | advance hrecording hadvance => exact ⟨h.ledger.advance hadvance, h.unpublished⟩
  | @endPeriod timestamp took previous =>
    refine ⟨h.ledger.restartTracks, ?_⟩
    rintro points ⟨⟩
    exact h.ledger.isFinite_pointsOf timestamp took previous
  | publish hpoints =>
    refine ⟨h.ledger.publish (h.unpublished _ hpoints), ?_⟩
    rintro none ⟨⟩

theorem timed_follow {burnIn : Nat} {batches : List Measurements} {moves : List Move}
    (hfollow : follow? step? moves (start burnIn batches) = some desk) : desk.Timed :=
  follow?_preserves (P := Timed) (fun _ _ _ h hstep => h.step hstep) (timed_start burnIn batches)
    hfollow

end Desk

end LoadBench
