/-
  LoadBench.Proofs.Ledger.Watch

  A ticker ends the periods of a desk while recordings go on.  The rates of its
  console rows come from the counters at two looks, and the points of the time series
  from histograms that start anew at every tick.  The two are of equally many commands
  (`PeriodEnd.Agrees`) in every period but the first: the histograms of the first
  period reach back to the start of the run, its counters only to the first look
  (`reports_of_follow`).  So the first period agrees if nothing had been counted when
  the ticker looked first, and only then.

  Ticks with nothing recorded between them are those of `Ticker.ticks`
  (`follow_ticks`).
-/

import LoadBench.Proofs.Ledger.Desk
import LoadBench.Proofs.Ledger.Periods
import LoadBench.Ticker

namespace LoadBench

namespace Ledger

/-! ## Rows and points of one period -/

/-- Whether the rates of a console row are of as many commands as the points of the same period. -/
structure PeriodEnd.Agrees (ending : PeriodEnd) : Prop where
  group : ∀ label, ending.previous.perLabel.get label +
      (ending.ledger.tracks.get label).instant.total =
    ending.row.counts.perLabel.get label
  all : ending.previous.total + ending.ledger.instantTotal.total = ending.row.counts.total

/-- Where the rates of a period are taken from: those of the row from the counters at both ends of
the period, those of the points from the instant histograms. -/
structure PeriodEnd.Figures (ending : PeriodEnd) : Prop where
  groupRow : ∀ label, ending.row.rates.get label =
    Rate.perSecond (ending.row.counts.perLabel.get label) (ending.previous.perLabel.get label)
      ending.took
  groupPoint : ∀ label, ending.point (.group label) = ⟨ending.timestamp, .period
    (ending.ledger.tracks.get label).instant.quantiles
    (Rate.perSecond (ending.ledger.tracks.get label).instant.total 0 ending.took)⟩
  allRow : ending.row.totalRate =
    Rate.perSecond ending.row.counts.total ending.previous.total ending.took
  allPoint : ending.point .allCommands = ⟨ending.timestamp, .period
    ending.ledger.instantTotal.quantiles
    (Rate.perSecond ending.ledger.instantTotal.total 0 ending.took)⟩

theorem PeriodEnd.figures (ending : PeriodEnd) : ending.Figures where
  groupRow := fun label => by rw [row, Ledger.row, PerLabel.get_ofFn]
  groupPoint := fun _ => rfl
  allRow := rfl
  allPoint := rfl

/-- What a period reports that is the first to end: its points are of all commands since the start
of the run. -/
structure PeriodEnd.Opens (ending : PeriodEnd) : Prop where
  group : ∀ label, (ending.ledger.tracks.get label).instant.total =
    ending.row.counts.perLabel.get label
  all : ending.ledger.instantTotal.total = ending.row.counts.total
  agrees_iff : ending.Agrees ↔ ending.previous.total = 0

variable {ledger ledger' : Ledger} {ends : List PeriodEnd} {division : Division}

/-- A period that starts at the counters of the last one agrees. -/
theorem Divides.agrees (h : ledger.Divides ends division) (timestamp : UInt64) (took : TimeSpan) :
    PeriodEnd.Agrees ⟨ledger, timestamp, took, (atLastEnd ends).counts⟩ where
  group := by
    intro label
    show (atLastEnd ends).counts.perLabel.get label + _ = ledger.counts.perLabel.get label
    rw [counts_perLabel, counts_perLabel, Nat.add_comm]
    exact h.instant_add Histogram.total total_ofSamples_eq label
  all := by
    show (atLastEnd ends).total.total + ledger.instantTotal.total = ledger.total.total
    rw [Nat.add_comm]
    exact h.instantTotal_add Histogram.total total_ofSamples_eq

theorem Divides.opens (h : ledger.Divides [] division) (timestamp : UInt64) (took : TimeSpan)
    {previous : Counts}
    (hsum : (Label.all.map previous.perLabel.get).sum = previous.total) :
    PeriodEnd.Opens ⟨ledger, timestamp, took, previous⟩ := by
  have hgroup : ∀ label, (ledger.tracks.get label).instant.total =
      ledger.counts.perLabel.get label := by
    intro label
    rw [counts_perLabel, ← h.instant_add Histogram.total total_ofSamples_eq label]
    cases label <;> rfl
  have hall : ledger.instantTotal.total = ledger.total.total :=
    h.instantTotal_add Histogram.total total_ofSamples_eq
  refine ⟨hgroup, hall, fun hagrees => ?_, fun hnone => ⟨fun label => ?_, ?_⟩⟩
  · have hsame : previous.total + ledger.instantTotal.total = ledger.total.total := hagrees.all
    show previous.total = 0
    omega
  · have hzero : previous.perLabel.get label = 0 :=
      List.sum_eq_zero_iff_forall_eq_nat.mp (hsum.trans hnone) _
        (List.mem_map_of_mem label.mem_all)
    show previous.perLabel.get label + _ = ledger.counts.perLabel.get label
    rw [hzero, Nat.zero_add]
    exact hgroup label
  · show previous.total + ledger.instantTotal.total = ledger.total.total
    rw [show previous.total = 0 from hnone, Nat.zero_add]
    exact hall

/-- What leaves the tracks and their totals alone adds no sample to the current period. -/
theorem Divides.same (h : ledger.Divides ends division)
    (htallies : ∃ queried dated, ledger'.Tallies division.samples queried dated)
    (htracks : ledger'.tracks = ledger.tracks)
    (htotal : ledger'.instantTotal = ledger.instantTotal) :
    ∃ more, ledger'.Divides ends (division.add more) := by
  refine ⟨[], ?_⟩
  rw [Division.add, List.append_nil]
  exact h.congr htallies htracks htotal

/-- A section of a recording adds to the current period, and to no time series. -/
theorem Divides.advance (h : ledger.Divides ends division) {recording next : Recording}
    (hadvance : recording.advance? ledger = some (ledger', next)) :
    (∃ more, ledger'.Divides ends (division.add more)) ∧ ledger'.series = ledger.series := by
  obtain ⟨drawn, measured, stage⟩ := recording
  obtain ⟨queried, dated, htallies⟩ := h.tallies
  -- Only the section on the labels adds samples to the current period; the others pass it by.
  cases stage with
  | drawing undrawn =>
    cases undrawn with
    | nil =>
      obtain ⟨rfl, -⟩ := Prod.mk.inj (Option.some.inj hadvance)
      exact ⟨h.same h.tallies rfl rfl, rfl⟩
    | cons sample rest =>
      obtain ⟨rfl, -⟩ := Prod.mk.inj (Option.some.inj hadvance)
      exact ⟨h.same ⟨_, _, htallies.bytes _ _ _ _⟩ rfl rfl, rfl⟩
  | labelling =>
    obtain ⟨rfl, -⟩ := Prod.mk.inj (Option.some.inj hadvance)
    refine ⟨⟨measured, h.countLabels measured⟩, ?_⟩
    rw [countLabels_eq]
  | querying =>
    obtain ⟨rfl, -⟩ := Prod.mk.inj (Option.some.inj hadvance)
    exact ⟨h.same ⟨_, _, htallies.countQueries measured⟩ rfl rfl, rfl⟩
  | dating =>
    obtain ⟨rfl, -⟩ := Prod.mk.inj (Option.some.inj hadvance)
    exact ⟨h.same ⟨_, _, htallies.countSeconds measured⟩ rfl rfl, rfl⟩
  | sending =>
    by_cases hcountable : Sample.Countable measured
    · rw [Recording.advance?, Traffic.ofSamples?_of_countable hcountable] at hadvance
      obtain ⟨rfl, -⟩ := Prod.mk.inj (Option.some.inj hadvance)
      exact ⟨h.same ⟨_, _, htallies.bytes _ _ _ _⟩ rfl rfl, rfl⟩
    · rw [Recording.advance?, Traffic.ofSamples?_of_not_countable hcountable] at hadvance
      obtain ⟨rfl, -⟩ := Prod.mk.inj (Option.some.inj hadvance)
      exact ⟨h.same h.tallies rfl rfl, rfl⟩
  | receiving bytes =>
    obtain ⟨rfl, -⟩ := Prod.mk.inj (Option.some.inj hadvance)
    exact ⟨h.same ⟨_, _, htallies.bytes _ _ _ _⟩ rfl rfl, rfl⟩
  | returned | overflowed => cases hadvance

end Ledger

/-! ## A desk and its ticker -/

/-- A desk whose periods a ticker ends; none before the ticker has taken its first look. -/
structure Watch where
  desk : Desk
  ticker : Option Ticker
  deriving DecidableEq, Repr

/-- What happens next: a section of a recording, the first look of the ticker, one of its ticks, or
its section on the time series. -/
inductive Watch.Move where
  | advance (index : Nat)
  | look
  | tick (timestamp : UInt64) (took : TimeSpan)
  | publish
  deriving DecidableEq, Repr

namespace Watch

open Ledger (PeriodEnd)

/-- A desk at which nothing was done, before the first look. -/
def start (burnIn : Nat) (batches : List Measurements) : Watch := ⟨Desk.start burnIn batches, none⟩

/-- One move; none if it is not possible. -/
def step? (move : Move) (watch : Watch) : Option Watch :=
  match move with
  | .advance index => do
    let desk ← Desk.step? (.advance index) watch.desk
    return { watch with desk := desk }
  | .look =>
    match watch.ticker with
    | some _ => none
    | none => some { watch with ticker := some (Ticker.start watch.desk.ledger) }
  | .tick timestamp took => do
    let ticker ← watch.ticker
    let desk ← Desk.step? (.endPeriod timestamp took ticker.previous) watch.desk
    return ⟨desk, some (ticker.tick watch.desk.ledger timestamp took).1⟩
  | .publish => do
    let desk ← Desk.step? .publish watch.desk
    return { watch with desk := desk }

/-- The period that a move ends. -/
def ending? (move : Move) (watch : Watch) : Option PeriodEnd :=
  match move with
  | .tick timestamp took =>
    watch.ticker.map fun ticker => ⟨watch.desk.ledger, timestamp, took, ticker.previous⟩
  | _ => none

/-- The ledger with the points that have still to be published. -/
def published (watch : Watch) : Ledger := watch.desk.ledger.publish (watch.desk.unpublished.getD [])

/-- What every move keeps, with the periods that have ended so far. -/
structure Kept (ends : List PeriodEnd) (watch : Watch) : Prop where
  divides : ∃ division, watch.desk.ledger.Divides ends division
  charts : watch.published.Charts ends
  /-- No period ends before the first look. -/
  looked : watch.ticker = none → ends = []
  /-- A period starts where the last one ended. -/
  previous : ∀ ticker ∈ watch.ticker, ends ≠ [] →
    ticker.previous = (Ledger.atLastEnd ends).counts
  sum_previous : ∀ ticker ∈ watch.ticker,
    (Label.all.map ticker.previous.perLabel.get).sum = ticker.previous.total
  first : ∀ ending ∈ ends.head?, ending.Opens
  later : ∀ ending ∈ ends.tail, ending.Agrees

variable {watch after : Watch} {ends : List PeriodEnd} {burnIn : Nat}
  {batches : List Measurements} {moves : List Move}

theorem kept_start (burnIn : Nat) (batches : List Measurements) : Kept [] (start burnIn batches) where
  divides := ⟨Division.empty, Ledger.divides_create burnIn⟩
  charts := Ledger.charts_create burnIn
  looked := fun _ => rfl
  previous := nofun
  sum_previous := nofun
  first := nofun
  later := nofun

theorem Kept.sum_counts (h : Kept ends watch) :
    (Label.all.map watch.desk.ledger.counts.perLabel.get).sum = watch.desk.ledger.counts.total := by
  obtain ⟨division, hdivides⟩ := h.divides
  obtain ⟨queried, dated, htallies⟩ := hdivides.tallies
  exact htallies.sum_counts

theorem Kept.advance (h : Kept ends watch) {index : Nat}
    (hstep : step? (.advance index) watch = some after) : Kept ends after := by
  obtain ⟨desk, hdesk, hafter⟩ := Option.bind_eq_some_iff.mp hstep
  obtain rfl := Option.some.inj hafter
  cases Desk.steps_of_step? hdesk with
  | advance hrecording hadvance =>
    obtain ⟨division, hdivides⟩ := h.divides
    obtain ⟨⟨more, hmore⟩, hseries⟩ := hdivides.advance hadvance
    refine ⟨⟨_, hmore⟩, h.charts.congr ?_, h.looked, h.previous, h.sum_previous, h.first, h.later⟩
    simp only [published, Ledger.publish, hseries]

theorem Kept.look (h : Kept ends watch) (hstep : step? .look watch = some after) :
    Kept ends after := by
  obtain ⟨desk, ticker⟩ := watch
  cases ticker with
  | some ticker => cases hstep
  | none =>
    obtain rfl := Option.some.inj hstep
    have hnone := h.looked rfl
    refine ⟨h.divides, h.charts, nofun, fun _ _ hends => absurd hnone hends, ?_, h.first, h.later⟩
    rintro ticker ⟨⟩
    exact h.sum_counts

/-- A tick ends a period, which is the first one or starts at the counters of the one before. -/
theorem Kept.tick (h : Kept ends watch) {timestamp : UInt64} {took : TimeSpan}
    (hstep : step? (.tick timestamp took) watch = some after) :
    Kept (ends ++ (ending? (.tick timestamp took) watch).toList) after := by
  obtain ⟨⟨ledger, recordings, unpublished⟩, ticker⟩ := watch
  obtain ⟨ticker, rfl, hrest⟩ := Option.bind_eq_some_iff.mp hstep
  obtain ⟨desk, hdesk, hafter⟩ := Option.bind_eq_some_iff.mp hrest
  obtain rfl := Option.some.inj hafter
  cases Desk.steps_of_step? hdesk with
  | endPeriod hnone =>
    obtain rfl : unpublished = none := hnone
    obtain ⟨division, hdivides⟩ := h.divides
    have hrestart : ledger.restartTracks.Charts ends := h.charts.congr rfl
    show Kept (ends ++ [⟨ledger, timestamp, took, ticker.previous⟩]) _
    refine ⟨⟨_, hdivides.restartTracks timestamp took ticker.previous⟩,
      hrestart.publish ⟨ledger, timestamp, took, ticker.previous⟩, nofun, ?_, ?_, ?_, ?_⟩
    · rintro _ ⟨⟩ -
      rw [Ledger.atLastEnd_concat]
      rfl
    · rintro _ ⟨⟩
      exact h.sum_counts
    · cases ends with
      | nil =>
        rintro ending ⟨⟩
        exact hdivides.opens timestamp took (h.sum_previous ticker rfl)
      | cons first rest => exact h.first
    · cases ends with
      | nil => exact nofun
      | cons first rest =>
        intro ending hending
        rcases List.mem_append.mp hending with hold | hnew
        · exact h.later ending hold
        · obtain rfl := List.mem_singleton.mp hnew
          rw [h.previous ticker rfl (List.cons_ne_nil _ _)]
          exact hdivides.agrees timestamp took

theorem Kept.publish (h : Kept ends watch) (hstep : step? .publish watch = some after) :
    Kept ends after := by
  obtain ⟨desk, hdesk, hafter⟩ := Option.bind_eq_some_iff.mp hstep
  obtain rfl := Option.some.inj hafter
  cases Desk.steps_of_step? hdesk with
  | publish hpoints =>
    obtain ⟨division, hdivides⟩ := h.divides
    obtain ⟨queried, dated, htallies⟩ := hdivides.tallies
    refine ⟨⟨division, hdivides.congr ⟨queried, dated, htallies.bytes _ _ _ _⟩ rfl rfl⟩,
      h.charts.congr ?_, h.looked, h.previous, h.sum_previous, h.first, h.later⟩
    -- The points that were still to be published are now in the series, and none are left.
    rw [published, published, hpoints]
    rfl

theorem Kept.step (h : Kept ends watch) {move : Move} (hstep : step? move watch = some after) :
    Kept (ends ++ (ending? move watch).toList) after := by
  cases move with
  | advance index => exact (List.append_nil ends).symm ▸ h.advance hstep
  | look => exact (List.append_nil ends).symm ▸ h.look hstep
  | tick timestamp took => exact h.tick hstep
  | publish => exact (List.append_nil ends).symm ▸ h.publish hstep

/-! ## What is reported -/

/-- The periods that end in the course of moves. -/
def periodEnds (moves : List Move) (watch : Watch) : List PeriodEnd :=
  noted step? ending? moves watch

/-- What is reported of the periods that have ended: rows and points are of equally many commands
in all of them but the first, and each has its point in each time series. -/
structure Reports (ends : List PeriodEnd) (watch : Watch) : Prop where
  figures : ∀ ending ∈ ends, ending.Figures
  first : ∀ ending ∈ ends.head?, ending.Opens
  later : ∀ ending ∈ ends.tail, ending.Agrees
  points : ∀ series, watch.published.pointsIn series = ends.map fun ending => ending.point series

/-- Whatever is recorded before and between the looks of the ticker, its rows and the points of the
time series are of equally many commands in every period but the first, and in that one if and only
if nothing had been counted at the first look. -/
theorem reports_of_follow (hfollow : follow? step? moves (start burnIn batches) = some watch) :
    Reports (periodEnds moves (start burnIn batches)) watch := by
  have hkept : Kept ([] ++ periodEnds moves (start burnIn batches)) watch :=
    follow?_noted (P := Kept) (fun _ _ _ _ h hstep => h.step hstep) (kept_start burnIn batches)
      hfollow
  exact ⟨fun ending _ => ending.figures, hkept.first, hkept.later, hkept.charts.points⟩

/-- A look, a write, a tick, two reads, and another tick. -/
def lookingFirst : List Move :=
  [.look, .advance 1, .advance 1, .advance 1, .tick 5 (TimeSpan.ofMillis 1000), .publish,
    .advance 0, .advance 0, .advance 0, .advance 0, .tick 6 (TimeSpan.ofMillis 1000)]

theorem reports_lookingFirst : ∃ watch,
    follow? step? lookingFirst (start 0 Desk.readsAndWrite) = some watch ∧
      Reports (periodEnds lookingFirst (start 0 Desk.readsAndWrite)) watch ∧
      ∃ first second, periodEnds lookingFirst (start 0 Desk.readsAndWrite) = [first, second] ∧
        first.Agrees ∧ second.Agrees := by
  obtain ⟨watch, hfollow⟩ : ∃ watch,
      follow? step? lookingFirst (start 0 Desk.readsAndWrite) = some watch := ⟨_, rfl⟩
  obtain ⟨first, second, hends, hnone⟩ : ∃ first second,
      periodEnds lookingFirst (start 0 Desk.readsAndWrite) = [first, second] ∧
        first.previous.total = 0 := ⟨_, _, rfl, rfl⟩
  have hreports := reports_of_follow hfollow
  refine ⟨watch, hfollow, hreports, first, second, hends, ?_, ?_⟩
  · exact (hreports.first first (by rw [hends]; rfl)).agrees_iff.mpr hnone
  · exact hreports.later second (by rw [hends]; exact List.mem_singleton_self second)

/-- A write before the first look. -/
def lookingLate : List Move :=
  [.advance 1, .advance 1, .advance 1, .look, .tick 5 (TimeSpan.ofMillis 1000)]

/-- The row of the first period shows no write, and its point shows one. -/
theorem not_agrees_lookingLate : ∃ ending,
    periodEnds lookingLate (start 0 Desk.readsAndWrite) = [ending] ∧
      ending.row.counts.perLabel.get .write - ending.previous.perLabel.get .write = 0 ∧
      (ending.ledger.tracks.get .write).instant.total = 1 ∧ ¬ ending.Agrees := by
  refine ⟨_, rfl, rfl, rfl, fun hagrees => ?_⟩
  have hwrites : 1 + 1 = 1 := hagrees.group .write
  cases hwrites

/-! ## Ticks with nothing recorded between them -/

/-- The moves of ticks with nothing recorded between them. -/
def tickMoves (ticks : List (UInt64 × TimeSpan)) : List Move :=
  ticks.flatMap fun tick => [.tick tick.1 tick.2, .publish]

/-- These moves are `Ticker.ticks`. -/
theorem follow_ticks (recordings : List Recording) (ticks : List (UInt64 × TimeSpan))
    (ledger : Ledger) (ticker : Ticker) :
    (∃ last, follow? step? (tickMoves ticks) ⟨⟨ledger, recordings, none⟩, some ticker⟩ =
      some ⟨⟨(ticker.ticks ledger ticks).1, recordings, none⟩, some last⟩) ∧
    (periodEnds (tickMoves ticks) ⟨⟨ledger, recordings, none⟩, some ticker⟩).map PeriodEnd.row =
      (ticker.ticks ledger ticks).2 := by
  induction ticks generalizing ledger ticker with
  | nil => exact ⟨⟨ticker, rfl⟩, rfl⟩
  | cons tick rest ih =>
    obtain ⟨timestamp, took⟩ := tick
    obtain ⟨hfollow, hrows⟩ := ih (ledger.endPeriod timestamp took ticker.previous).1
      ⟨(ledger.endPeriod timestamp took ticker.previous).2.counts⟩
    exact ⟨hfollow, congrArg (ledger.row took ticker.previous :: ·) hrows⟩

end Watch

end LoadBench
