/-
  LoadBench.Proofs.Selection

  Quantiles as order statistics.  A percentile selects the latency of its rank among the
  sorted latencies (`valueAt_ofList`), and shows an end of that latency's slot, which is
  off by at most a 1024th of the latency (`Slot.shows_of_mem`): the upper end, or the
  lower one for a percentile that is not above `vanishing`.  A reset forgets the latencies
  before it (`replay_eq`), so all of this holds for those recorded since
  (`selects_replay`).
-/

import LoadBench.Proofs.Quantiles
import LoadBench.Proofs.Ranks
import Mathlib.Data.List.Sort
import Mathlib.Data.List.DropRight

namespace LoadBench

/-! ## Slots -/

/-- Whether a value shows a latency with an error of at most a 1024th of it, and without any below
2048. -/
structure Shows (shown latency : Nat) : Prop where
  above_le : 1024 * (shown - latency) ≤ latency
  below_le : 1024 * (latency - shown) ≤ latency
  eq_of_lt : latency < 2048 → shown = latency

namespace Slot

/-- A slot is at most as much wider than one as a 1024th of its values. -/
theorem width_le (value : Nat) : 1024 * (2 ^ bucket value - 1) ≤ value := by
  rcases le_div_bucket value with hzero | hhalf
  · rw [hzero]
    exact Nat.zero_le _
  · -- Behind the first bucket a value is at least 1024 times as large as its slot is wide.
    have hscaled := (Nat.le_div_iff_mul_le (Nat.two_pow_pos _)).mp hhalf
    omega

theorem bucket_of_lt {value : Nat} (h : value < 2048) : bucket value = 0 := by
  by_cases hzero : value = 0
  · rw [hzero]
    rfl
  · have hlog := (Nat.log2_lt (k := 11) hzero).mpr h
    unfold bucket
    omega

/-- What is in the slot of a value shows the value. -/
theorem shows_of_mem {value shown : Nat} (hlowest : lowest (ofValue value) ≤ shown)
    (hhighest : shown ≤ highest (ofValue value)) : Shows shown value := by
  have hmem := mem_ofValue value
  have hwidth := width_le value
  have hspan : highest (ofValue value) = lowest (ofValue value) + (2 ^ bucket value - 1) := by
    rw [highest, bucketOf_ofValue]
    rfl
  refine ⟨by omega, by omega, fun hlt => ?_⟩
  rw [bucket_of_lt hlt] at hspan
  omega

end Slot

namespace Histogram

/-! ## Ranks in a list -/

/-- In a sorted list there are more values up to a limit than stand before a value exactly if the
value is not above the limit. -/
theorem lt_countP_iff {values : List Nat} (hsorted : values.Pairwise (· ≤ ·)) {index value : Nat}
    (h : values[index]? = some value) (limit : Nat) :
    (index < values.countP fun other => other ≤ limit) ↔ value ≤ limit := by
  induction values generalizing index with
  | nil => cases h
  | cons first rest ih =>
    obtain ⟨hfirst, hrest⟩ := List.pairwise_cons.mp hsorted
    rw [List.countP_cons]
    simp only [decide_eq_true_eq]
    cases index with
    | zero =>
      obtain rfl := Option.some.inj h
      by_cases hle : first ≤ limit
      · rw [if_pos hle]
        omega
      · -- Behind a first value above the limit there is none up to it.
        have hnone : (rest.countP fun other => other ≤ limit) = 0 := by
          rw [List.countP_eq_zero]
          intro other hother
          have hle' := hfirst other hother
          rw [decide_eq_true_eq]
          omega
        rw [if_neg hle, hnone]
        omega
    | succ index =>
      have hiff := ih hrest h
      have hle := hfirst value (List.mem_of_getElem? h)
      split <;> omega

/-- The latency of a rank, counted from one, when latencies are sorted. -/
def ofRank (latencies : List Nat) (rank : Nat) : Option Nat := latencies.mergeSort[rank - 1]?

theorem le_countP_iff {latencies : List Nat} {rank latency : Nat} (hrank : 1 ≤ rank)
    (h : ofRank latencies rank = some latency) (limit : Nat) :
    (rank ≤ latencies.countP fun other => other ≤ limit) ↔ latency ≤ limit := by
  have hsorted : latencies.mergeSort.Pairwise (· ≤ ·) := List.pairwise_mergeSort' (· ≤ ·) latencies
  have hcount : (latencies.mergeSort.countP fun other => other ≤ limit) =
      latencies.countP fun other => other ≤ limit := (List.mergeSort_perm latencies _).countP_eq _
  rw [← hcount, ← lt_countP_iff hsorted h limit]
  omega

theorem exists_ofRank {latencies : List Nat} {rank : Nat} (hrank : 1 ≤ rank)
    (h : rank ≤ latencies.length) : ∃ latency, ofRank latencies rank = some latency := by
  have hlt : rank - 1 < latencies.mergeSort.length := by
    rw [List.length_mergeSort]
    omega
  exact ⟨_, List.getElem?_eq_getElem hlt⟩

theorem mem_of_ofRank {latencies : List Nat} {rank latency : Nat}
    (h : ofRank latencies rank = some latency) : latency ∈ latencies :=
  List.mem_mergeSort.mp (List.mem_of_getElem? h)

theorem length_of_ofRank {latencies : List Nat} {rank latency : Nat} (hrank : 1 ≤ rank)
    (h : ofRank latencies rank = some latency) : rank ≤ latencies.length := by
  obtain ⟨hlt, -⟩ := List.getElem?_eq_some_iff.mp h
  rw [List.length_mergeSort] at hlt
  omega

/-- Sorted latencies do not fall as ranks rise. -/
theorem ofRank_mono {latencies : List Nat} {rank higher latency other : Nat} (hrank : 1 ≤ rank)
    (hle : rank ≤ higher) (h : ofRank latencies rank = some latency)
    (hother : ofRank latencies higher = some other) : latency ≤ other :=
  (le_countP_iff hrank h other).mp (Nat.le_trans hle
    ((le_countP_iff (Nat.le_trans hrank hle) hother other).mpr (Nat.le_refl _)))

/-! ## Values at percentiles -/

variable {latencies : List Nat}

theorem countP_slots (hbound : ∀ latency ∈ latencies, latency < bound) (last : Nat) :
    (latencies.countP fun latency => slotOf latency ≤ last) =
      latencies.countP fun latency => latency ≤ Slot.highest last := by
  refine List.countP_congr fun latency hlatency => ?_
  rw [decide_eq_true_eq, decide_eq_true_eq, slotOf_of_lt (hbound latency hlatency)]
  exact Slot.ofValue_le_iff latency last

/-- The walk stops if there are as many latencies as the rank asks for. -/
theorem isSome_walk_ofList (latencies : List Nat) {rank : Nat} (hrank : 1 ≤ rank) :
    (walk rank 0 (ofList latencies).counts.entries).isSome = decide (rank ≤ latencies.length) := by
  have htotal : ((ofList latencies).counts.entries.map Prod.snd).sum = latencies.length :=
    total_ofList latencies
  rw [isSome_walk rank 0 _ hrank, htotal, Nat.zero_add]

/-- It stops at the slot of the latency of that rank. -/
theorem walk_ofList (hbound : ∀ latency ∈ latencies, latency < bound) {rank latency : Nat}
    (hrank : 1 ≤ rank) (h : ofRank latencies rank = some latency) :
    walk rank 0 (ofList latencies).counts.entries = some (Slot.ofValue latency) := by
  have hstops := isSome_walk_ofList latencies hrank
  rw [decide_eq_true (length_of_ofRank hrank h)] at hstops
  obtain ⟨slot, hslot⟩ := Option.isSome_iff_exists.mp hstops
  rw [hslot]
  -- The two slots are the same if they are up to the same ones.
  refine congrArg some (eq_of_forall_ge_iff fun last => ?_)
  calc slot ≤ last
    _ ↔ rank ≤ 0 + upTo last (ofList latencies).counts.entries :=
      walk_le_iff (sparse_ofList latencies).ordered hrank hslot last
    _ ↔ latency ≤ Slot.highest last := by
      rw [Nat.zero_add, upTo_ofList, countP_slots hbound, le_countP_iff hrank h]
    _ ↔ Slot.ofValue latency ≤ last := (Slot.ofValue_le_iff latency last).symm

/-- A percentile shows an end of the slot of the latency that it asks for. -/
theorem valueAt_ofList (hbound : ∀ latency ∈ latencies, latency < bound) {percentile : Binary64}
    {latency : Nat} (h : ofRank latencies ((ofList latencies).rankAt percentile) = some latency) :
    (ofList latencies).valueAt percentile = edge percentile (Slot.ofValue latency) := by
  rw [valueAt_eq, walk_ofList hbound (one_le_rank _ _) h]

/-- A percentile that asks for more latencies than there are shows none. -/
theorem valueAt_eq_zero {percentile : Binary64}
    (h : latencies.length < (ofList latencies).rankAt percentile) :
    (ofList latencies).valueAt percentile = 0 := by
  have hstops := isSome_walk_ofList latencies (one_le_rank (fraction percentile) (ofList latencies).total)
  unfold rankAt at h
  rw [decide_eq_false (Nat.not_le.mpr h), Option.isSome_eq_false_iff, Option.isNone_iff_eq_none]
    at hstops
  rw [valueAt_eq, hstops]

/-! ## Ends of slots -/

theorem edge_of_vanishing {percentile : Binary64}
    (hzero : Binary64.le Binary64.zero percentile = true)
    (h : Binary64.le percentile vanishing = true) (slot : Nat) :
    edge percentile slot = Slot.lowest slot := by
  obtain ⟨hunits, hfinite⟩ := fraction_of_vanishing hzero h
  unfold edge
  rw [hunits, hfinite]
  rfl

theorem edge_of_lt {percentile : Binary64} (h : Binary64.lt vanishing percentile = true)
    (slot : Nat) : edge percentile slot = Slot.highest slot := by
  unfold edge
  rw [decide_eq_false (units_fraction_ne_zero h)]
  rfl

/-! ## Quantiles as order statistics -/

/-- Whether a histogram shows latencies at their ranks. -/
structure Selects (histogram : Histogram) (latencies : List Nat) : Prop where
  /-- A percentile that does not vanish shows the latency of its rank, and never too low. -/
  above : ∀ percentile, Binary64.lt vanishing percentile = true →
    histogram.rankAt percentile ≤ latencies.length →
    ∃ latency, ofRank latencies (histogram.rankAt percentile) = some latency ∧
      latency ≤ histogram.valueAt percentile ∧ Shows (histogram.valueAt percentile) latency
  /-- A percentile of zero, or one that vanishes, shows the least latency, and never too high. -/
  below : ∀ percentile, Binary64.le Binary64.zero percentile = true →
    Binary64.le percentile vanishing = true →
    ∃ latency, ofRank latencies 1 = some latency ∧
      histogram.valueAt percentile ≤ latency ∧ Shows (histogram.valueAt percentile) latency
  /-- A higher rank does not show less. -/
  rises : ∀ percentile other, histogram.rankAt other ≤ latencies.length →
    histogram.rankAt percentile < histogram.rankAt other ∨
      histogram.rankAt percentile = histogram.rankAt other ∧
        Binary64.lt vanishing other = true →
    histogram.valueAt percentile ≤ histogram.valueAt other
  /-- The published quantiles ascend if the last of them asks for a latency that is there. -/
  inOrder : histogram.rankAt (Binary64.ofNat 100) ≤ latencies.length →
    histogram.quantiles.toList.Pairwise fun x y => Binary64.le x y = true
  /-- Up to 2^53 latencies, every percentile asks for one that is there. -/
  within : latencies.length ≤ 2 ^ 53 →
    ∀ percentile, histogram.rankAt percentile ≤ latencies.length

theorem above_ofList (hbound : ∀ latency ∈ latencies, latency < bound) {percentile : Binary64}
    (h : Binary64.lt vanishing percentile = true)
    (hrank : (ofList latencies).rankAt percentile ≤ latencies.length) :
    ∃ latency, ofRank latencies ((ofList latencies).rankAt percentile) = some latency ∧
      latency ≤ (ofList latencies).valueAt percentile ∧
      Shows ((ofList latencies).valueAt percentile) latency := by
  obtain ⟨latency, hlatency⟩ := exists_ofRank (one_le_rank _ _) hrank
  refine ⟨latency, hlatency, ?_⟩
  rw [valueAt_ofList hbound hlatency, edge_of_lt h]
  exact ⟨(Slot.mem_ofValue latency).2,
    Slot.shows_of_mem (Slot.lowest_le_highest _) (Nat.le_refl _)⟩

theorem below_ofList (hnil : latencies ≠ []) (hbound : ∀ latency ∈ latencies, latency < bound)
    {percentile : Binary64} (hzero : Binary64.le Binary64.zero percentile = true)
    (h : Binary64.le percentile vanishing = true) :
    ∃ latency, ofRank latencies 1 = some latency ∧
      (ofList latencies).valueAt percentile ≤ latency ∧
      Shows ((ofList latencies).valueAt percentile) latency := by
  have hnot : ¬ Binary64.lt vanishing percentile = true := by
    rw [Binary64.lt_iff]
    exact fun hlt => absurd ((Binary64.le_iff _ _).mp h).2.2 (Int.not_le.mpr hlt.2.2)
  have hrank : (ofList latencies).rankAt percentile = 1 := rank_of_not_lt hnot _
  obtain ⟨latency, hlatency⟩ := exists_ofRank (Nat.le_refl 1) (List.length_pos_of_ne_nil hnil)
  refine ⟨latency, hlatency, ?_⟩
  rw [← hrank] at hlatency
  rw [valueAt_ofList hbound hlatency, edge_of_vanishing hzero h]
  exact ⟨(Slot.mem_ofValue latency).1,
    Slot.shows_of_mem (Nat.le_refl _) (Slot.lowest_le_highest _)⟩

theorem rises_ofList (hbound : ∀ latency ∈ latencies, latency < bound)
    {percentile other : Binary64} (h : Binary64.lt vanishing other = true)
    (hle : (ofList latencies).rankAt percentile ≤ (ofList latencies).rankAt other)
    (hrank : (ofList latencies).rankAt other ≤ latencies.length) :
    (ofList latencies).valueAt percentile ≤ (ofList latencies).valueAt other := by
  obtain ⟨latency, hlatency⟩ := exists_ofRank (one_le_rank _ _) (Nat.le_trans hle hrank)
  obtain ⟨latency', hlatency'⟩ := exists_ofRank (one_le_rank _ _) hrank
  rw [valueAt_ofList hbound hlatency, valueAt_ofList hbound hlatency', edge_of_lt h]
  refine Nat.le_trans (edge_le_highest percentile _) (Slot.highest_strictMono.monotone ?_)
  exact Slot.ofValue_mono (ofRank_mono (one_le_rank _ _) hle hlatency hlatency')

/-- The published percentiles ascend, and but for the first they do not vanish. -/
theorem pairwise_percentiles : percentiles.Pairwise fun percentile other =>
    Binary64.le percentile other = true ∧ Binary64.lt vanishing other = true := by
  decide +kernel

theorem le_hundred : ∀ percentile ∈ percentiles,
    Binary64.le percentile (Binary64.ofNat 100) = true := by
  decide +kernel

theorem inOrder_ofList (hbound : ∀ latency ∈ latencies, latency < bound)
    (h : (ofList latencies).rankAt (Binary64.ofNat 100) ≤ latencies.length) :
    (ofList latencies).quantiles.toList.Pairwise fun x y => Binary64.le x y = true := by
  rw [toList_quantiles, List.pairwise_map]
  -- Only the first percentile vanishes, and it does not stand behind another one.
  refine pairwise_percentiles.imp_of_mem fun {percentile other} _ hother hpair => ?_
  have hrank : (ofList latencies).rankAt other ≤ latencies.length :=
    Nat.le_trans (rank_fraction_mono (le_hundred other hother) _) h
  have hvalue := rises_ofList hbound hpair.2 (rank_fraction_mono hpair.1 _) hrank
  rw [percentileMillis_eq, percentileMillis_eq]
  exact Binary64.le_thousandths hvalue ((sparse_ofList latencies).valueAt_lt other)

theorem selects_ofList (hnil : latencies ≠ []) (hbound : ∀ latency ∈ latencies, latency < bound) :
    (ofList latencies).Selects latencies where
  above _ h hrank := above_ofList hbound h hrank
  below _ hzero h := below_ofList hnil hbound hzero h
  rises percentile other hrank h := by
    rcases h with hlt | ⟨heq, hother⟩
    · -- A rank above another one is not the first, so the percentile does not vanish.
      have hother : Binary64.lt vanishing other = true := by
        by_contra hnot
        have hfirst : (ofList latencies).rankAt other = 1 := rank_of_not_lt hnot _
        have hpos : 1 ≤ (ofList latencies).rankAt percentile := one_le_rank _ _
        omega
      exact rises_ofList hbound hother (Nat.le_of_lt hlt) hrank
    · exact rises_ofList hbound hother (Nat.le_of_eq heq) hrank
  inOrder h := inOrder_ofList hbound h
  within h percentile := by
    have hpos : 1 ≤ latencies.length := List.length_pos_of_ne_nil hnil
    unfold rankAt
    rw [total_ofList]
    exact rank_fraction_le hpos h percentile

/-- Where percentile one hundred asks for more latencies than there are, quantiles are not in
order. -/
theorem not_inOrder_of_lt (hnil : latencies ≠ []) (hbound : ∀ latency ∈ latencies, latency < bound)
    (hpos : ∀ latency ∈ latencies, 0 < latency)
    (h : latencies.length < (ofList latencies).rankAt (Binary64.ofNat 100)) :
    ¬ (ofList latencies).quantiles.toList.Pairwise fun x y => Binary64.le x y = true := by
  intro hpairwise
  -- Percentile zero shows at least one, and percentile one hundred shows none.
  have hzero : Binary64.le Binary64.zero Binary64.zero = true := by decide
  have hleast : Binary64.le Binary64.zero vanishing = true := by decide
  obtain ⟨latency, hlatency, -, hshows⟩ := below_ofList hnil hbound hzero hleast
  have hvalue : 1 ≤ (ofList latencies).valueAt Binary64.zero := by
    have hle := hshows.below_le
    have hlatency := hpos latency (mem_of_ofRank hlatency)
    omega
  have hmillis : Binary64.le ((ofList latencies).percentileMillis Binary64.zero)
      ((ofList latencies).percentileMillis (Binary64.ofNat 100)) = true :=
    List.rel_of_pairwise_cons hpairwise (by simp [Histogram.quantiles])
  rw [percentileMillis_eq, percentileMillis_eq, valueAt_eq_zero h] at hmillis
  have hone := Binary64.le_thousandths hvalue ((sparse_ofList latencies).valueAt_lt Binary64.zero)
  have happart : Binary64.le (Binary64.ofNat 1 / Binary64.ofNat 1000)
      (Binary64.ofNat 0 / Binary64.ofNat 1000) = false := by decide +kernel
  rw [Binary64.le_trans hone hmillis] at happart
  cases happart

/-! ## Latencies since a reset -/

/-- A call of a histogram. -/
inductive Call where
  | record (latency : Nat)
  | reset
  deriving DecidableEq

/-- The histogram after a call. -/
def after (histogram : Histogram) : Call → Histogram
  | .record latency => histogram.record latency
  | .reset => empty

/-- The histogram after calls. -/
def replay (calls : List Call) : Histogram := calls.foldl after empty

/-- The latency that a call records. -/
def Call.latency? : Call → Option Nat
  | .record latency => some latency
  | .reset => none

/-- The latencies that calls record behind the last reset. -/
def kept (calls : List Call) : List Nat :=
  (calls.rtakeWhile (·.latency?.isSome)).filterMap Call.latency?

theorem kept_record (calls : List Call) (latency : Nat) :
    kept (calls ++ [.record latency]) = kept calls ++ [latency] := by
  have hlast := List.rtakeWhile_concat_pos (·.latency?.isSome) calls (Call.record latency) rfl
  rw [kept, hlast, List.filterMap_append]
  rfl

theorem kept_reset (calls : List Call) : kept (calls ++ [.reset]) = [] := by
  have hlast := List.rtakeWhile_concat_neg (·.latency?.isSome) calls Call.reset nofun
  rw [kept, hlast]
  rfl

/-- A reset forgets what was recorded before it, and nothing else is forgotten. -/
theorem replay_eq (calls : List Call) : replay calls = ofList (kept calls) := by
  induction calls using List.reverseRecOn with
  | nil => rfl
  | append_singleton calls call ih =>
    rw [replay, List.foldl_concat]
    change after (replay calls) call = _
    cases call with
    | record latency =>
      rw [kept_record, ofList_concat, ← ih]
      rfl
    | reset =>
      rw [kept_reset]
      rfl

/-- Whatever was recorded and forgotten before, a histogram shows the latencies that were recorded
since the last reset at their ranks. -/
theorem selects_replay (calls : List Call) (hnil : kept calls ≠ [])
    (hbound : ∀ latency ∈ kept calls, latency < bound) : (replay calls).Selects (kept calls) := by
  rw [replay_eq]
  exact selects_ofList hnil hbound

/-- Latencies of three buckets, behind a reset. -/
theorem selects_fourLatencies :
    (replay [.record 7, .reset, .record 2049, .record 0, .record 1048575, .record 2049]).Selects
      [2049, 0, 1048575, 2049] :=
  selects_replay [.record 7, .reset, .record 2049, .record 0, .record 1048575, .record 2049]
    (by decide) (by decide)

/-- The least percentile above zero shows less than the only latency there is.  And one hundred asks
for more latencies than there are if their number is rounded up to a double. -/
theorem not_shown_vanishing :
    (Binary64.lt Binary64.zero (.finite false 1 0) = true ∧
      ofRank (kept [.record 2049]) ((replay [.record 2049]).rankAt (.finite false 1 0)) =
        some 2049 ∧
      (replay [.record 2049]).valueAt (.finite false 1 0) < 2049) ∧
    ¬ (ofList (List.replicate (2 ^ 53 + 3) 1)).quantiles.toList.Pairwise
      fun x y => Binary64.le x y = true := by
  refine ⟨⟨by decide, by decide +kernel, by decide +kernel⟩, ?_⟩
  have hone : ∀ latency ∈ List.replicate (2 ^ 53 + 3) 1, latency = 1 :=
    fun _ hlatency => List.eq_of_mem_replicate hlatency
  refine not_inOrder_of_lt ?_ (fun latency h => ?_) (fun latency h => ?_) ?_
  · exact List.ne_nil_of_length_pos (by rw [List.length_replicate]; decide)
  · rw [hone latency h]
    decide
  · rw [hone latency h]
    decide
  · unfold rankAt
    rw [total_ofList, List.length_replicate]
    decide +kernel

end Histogram

end LoadBench
