/-
  LoadBench.Proofs.Ledger.Points

  The end of a period (`PeriodEnd`) adds one point to each of the ten time series
  (`Series`), and to nothing else (`Charts.publish`).  A series is published by
  timestamp, points of one timestamp in the order in which their periods ended
  (`InOrder`), whatever the timestamps are (`inOrder_timeSeries`).
-/

import LoadBench.Desk
import LoadBench.Proofs.Table

namespace LoadBench

/-! ## The ten time series -/

/-- A time series of a run. -/
inductive Series where
  | group (label : Label)
  | allCommands
  | sent
  | received
  deriving DecidableEq, Repr

namespace Series

/-- Every time series, in the order in which the end of a period adds its points. -/
def all : List Series := Label.all.map group ++ [allCommands, sent, received]

/-- The key under which a time series is published. -/
def key : Series → String
  | group label => label.key ++ "Ts"
  | allCommands => allCommandsKey ++ "Ts"
  | sent => "overallTxByteRateTs"
  | received => "overallRxByteRateTs"

theorem mem_all (series : Series) : series ∈ all := by
  cases series with
  | group label => exact List.mem_append_left _ (List.mem_map_of_mem label.mem_all)
  | allCommands | sent | received => decide

theorem nodup_keys : (all.map key).Nodup := by decide

end Series

namespace Ledger

/-! ## The end of a period -/

/-- The end of a period: the ledger that it found, and what it was given. -/
structure PeriodEnd where
  ledger : Ledger
  timestamp : UInt64
  took : TimeSpan
  previous : Counts

namespace PeriodEnd

/-- The console row of the period. -/
def row (ending : PeriodEnd) : PeriodFigures := ending.ledger.row ending.took ending.previous

/-- The point that the end of a period adds to a time series. -/
def point (ending : PeriodEnd) : Series → SeriesPoint
  | .group label =>
    pointOf ending.timestamp ending.took (ending.ledger.tracks.get label).instant
  | .allCommands => pointOf ending.timestamp ending.took ending.ledger.instantTotal
  | .sent => ⟨ending.timestamp, .scalar ending.row.sentRate⟩
  | .received => ⟨ending.timestamp, .scalar ending.row.receivedRate⟩

/-- The points of a period, each with the key of its series. -/
def points (ending : PeriodEnd) : List (String × SeriesPoint) :=
  Series.all.map fun series => (series.key, ending.point series)

/-- The points of a period are one for each of the ten series. -/
theorem pointsOf_eq (ledger : Ledger) (timestamp : UInt64) (took : TimeSpan) (previous : Counts) :
    ledger.pointsOf timestamp took (ledger.row took previous) =
      points ⟨ledger, timestamp, took, previous⟩ := rfl

/-- They are dated when the period ends. -/
theorem timestamp_point (ending : PeriodEnd) (series : Series) :
    (ending.point series).timestamp = ending.timestamp := by
  cases series <;> rfl

theorem keys_points (ending : PeriodEnd) :
    ending.points.map Prod.fst = Series.all.map Series.key := rfl

end PeriodEnd

/-! ## Points under their keys -/

/-- The points of a time series so far. -/
def pointsIn (ledger : Ledger) (series : Series) : List SeriesPoint :=
  (ledger.series.get? series.key).getD []

theorem get?_publish_of_notMem {points : List (String × SeriesPoint)} {key : String}
    (h : key ∉ points.map Prod.fst) (ledger : Ledger) :
    (ledger.publish points).series.get? key = ledger.series.get? key := by
  induction points generalizing ledger with
  | nil => rfl
  | cons first rest ih =>
    rw [List.map_cons, List.mem_cons, not_or] at h
    have hrest := ih h.2 (ledger.publish [first])
    exact hrest.trans (Table.get?_alter_ne _ h.1 _)

theorem get?_publish_of_mem {points : List (String × SeriesPoint)}
    (h : (points.map Prod.fst).Nodup) {key : String} {point : SeriesPoint}
    (hmem : (key, point) ∈ points) (ledger : Ledger) :
    (ledger.publish points).series.get? key =
      some ((ledger.series.get? key).getD [] ++ [point]) := by
  induction points generalizing ledger with
  | nil => cases hmem
  | cons first rest ih =>
    rw [List.map_cons, List.nodup_cons] at h
    show ((ledger.publish [first]).publish rest).series.get? key = _
    rcases List.mem_cons.mp hmem with rfl | hrest
    · rw [get?_publish_of_notMem h.1]
      exact Table.get?_alter_self _ _ _
    · have hne : key ≠ first.1 := fun hsame => h.1 (hsame ▸ List.mem_map_of_mem hrest)
      rw [ih h.2 hrest]
      exact congrArg (fun points => some (points.getD [] ++ [point])) (Table.get?_alter_ne _ hne _)

/-- Every series gains the point of the period. -/
theorem pointsIn_publish (ledger : Ledger) (ending : PeriodEnd) (series : Series) :
    (ledger.publish ending.points).pointsIn series =
      ledger.pointsIn series ++ [ending.point series] := by
  have hmem : (series.key, ending.point series) ∈ ending.points :=
    List.mem_map_of_mem series.mem_all
  rw [pointsIn, get?_publish_of_mem (ending.keys_points ▸ Series.nodup_keys) hmem]
  rfl

theorem mem_keys_publish (points : List (String × SeriesPoint)) (ledger : Ledger) (key : String) :
    key ∈ (ledger.publish points).series.keys ↔
      key ∈ points.map Prod.fst ∨ key ∈ ledger.series.keys := by
  induction points generalizing ledger with
  | nil => simp [publish]
  | cons first rest ih =>
    have hfirst : key ∈ (ledger.publish [first]).series.keys ↔
        key = first.1 ∨ key ∈ ledger.series.keys := Table.mem_keys_alter _ _ _ _
    rw [List.map_cons, List.mem_cons, or_right_comm, ← hfirst, or_comm]
    exact ih (ledger.publish [first])

/-! ## Points of all periods -/

/-- Whether a ledger has added a point to each series at each end of a period. -/
structure Charts (ledger : Ledger) (ends : List PeriodEnd) : Prop where
  keys : ∀ key, key ∈ ledger.series.keys ↔ ends ≠ [] ∧ key ∈ Series.all.map Series.key
  points : ∀ series, ledger.pointsIn series = ends.map fun ending => ending.point series

variable {ledger ledger' : Ledger} {ends : List PeriodEnd}

theorem charts_create (burnIn : Nat) : (create burnIn).Charts [] where
  keys := fun _ => ⟨nofun, fun h => absurd rfl h.1⟩
  points := fun _ => rfl

/-- Nothing but the series tells the points. -/
theorem Charts.congr (h : ledger.Charts ends) (hseries : ledger'.series = ledger.series) :
    ledger'.Charts ends where
  keys := fun key => hseries ▸ h.keys key
  points := fun series => by rw [← h.points, pointsIn, pointsIn, hseries]

/-- The section on the time series adds the points of a period. -/
theorem Charts.publish (h : ledger.Charts ends) (ending : PeriodEnd) :
    (ledger.publish ending.points).Charts (ends ++ [ending]) where
  keys := by
    intro key
    rw [mem_keys_publish, ending.keys_points]
    exact ⟨fun hkey => ⟨by simp, hkey.elim id fun hold => ((h.keys key).mp hold).2⟩,
      fun hkey => Or.inl hkey.2⟩
  points := fun series => by
    rw [pointsIn_publish, List.map_append, ← h.points]
    rfl

/-! ## Published series -/

/-- Whether points are published by timestamp, and those of one timestamp in their own order. -/
structure InOrder (published points : List SeriesPoint) : Prop where
  perm : published.Perm points
  ordered : published.Pairwise fun one other => one.timestamp ≤ other.timestamp
  stable : ∀ timestamp, (published.filter fun point => point.timestamp = timestamp) =
    points.filter fun point => point.timestamp = timestamp

theorem inOrder_mergeSort (points : List SeriesPoint) :
    InOrder (points.mergeSort fun one other => one.timestamp ≤ other.timestamp) points := by
  have htrans : ∀ one two three : SeriesPoint, decide (one.timestamp ≤ two.timestamp) = true →
      decide (two.timestamp ≤ three.timestamp) = true →
      decide (one.timestamp ≤ three.timestamp) = true := by
    intro one two three hone htwo
    exact decide_eq_true (UInt64.le_trans (of_decide_eq_true hone) (of_decide_eq_true htwo))
  have htotal : ∀ one two : SeriesPoint, (decide (one.timestamp ≤ two.timestamp) ||
      decide (two.timestamp ≤ one.timestamp)) = true := by
    intro one two
    rw [Bool.or_eq_true, decide_eq_true_eq, decide_eq_true_eq]
    exact UInt64.le_total _ _
  refine ⟨List.mergeSort_perm _ _, ?_, fun timestamp => ?_⟩
  · exact (List.pairwise_mergeSort htrans htotal points).imp of_decide_eq_true
  · -- Points of one timestamp are ordered as they stand, so sorting leaves their order alone.
    have hequal : (points.filter fun point => point.timestamp = timestamp).Pairwise
        fun one other => decide (one.timestamp ≤ other.timestamp) = true := by
      refine List.pairwise_of_forall_mem_list fun one hone other hother => decide_eq_true ?_
      rw [of_decide_eq_true (List.mem_filter.mp hone).2,
        of_decide_eq_true (List.mem_filter.mp hother).2]
      exact UInt64.le_refl _
    have hsublist := List.sublist_mergeSort htrans htotal hequal List.filter_sublist
    have hfiltered := hsublist.filter fun point : SeriesPoint => point.timestamp = timestamp
    simp only [List.filter_filter, Bool.and_self] at hfiltered
    refine (hfiltered.eq_of_length ?_).symm
    exact ((List.mergeSort_perm _ _).filter _).length_eq.symm

theorem inOrder_timeSeries (ledger : Ledger) (series : Series) :
    InOrder ((ledger.timeSeries.get? series.key).getD []) (ledger.pointsIn series) := by
  rw [timeSeries, Table.get?_map, pointsIn]
  cases ledger.series.get? series.key with
  | none => exact ⟨.refl _, .nil, fun _ => rfl⟩
  | some points => exact inOrder_mergeSort points

end Ledger

end LoadBench
