/-
  LoadBench.Proofs.Quantiles

  Quantiles of slower commands.  If every latency of a list is counted as at most its
  partner in another list, no quantile of the first is above that of the second
  (`atMost_of_slots`).  Latencies from `bound` on are counted as `ceiling`, and there are
  slots above that of `ceiling`: a latency in one of these (`Exceeds`) looks slower than
  one beyond `bound` (`not_atMost_of_exceeds`).  With the exception of this band slower
  commands never look faster, and nothing looks slower than `ceiling`
  (`quantiles_of_slower`).
-/

import LoadBench.Proofs.Rounding

namespace LoadBench

/-- Whether every quantile is at most the same one of others. -/
def Quantiles.AtMost (quantiles others : Quantiles) : Prop :=
  List.Forall₂ (fun x y => Binary64.le x y = true) quantiles.toList others.toList

namespace Histogram

/-! ## Latencies above the ceiling -/

/-- Whether a latency has a slot of its own, but one above that of the ceiling. -/
def Exceeds (latency : Nat) : Prop := Slot.highest (slotOf ceiling) < latency ∧ latency < bound

instance (latency : Nat) : Decidable (Exceeds latency) :=
  inferInstanceAs (Decidable (Slot.highest (slotOf ceiling) < latency ∧ latency < bound))

/-- Whether a latency is at most another one, and is counted so. -/
def Precedes (latency other : Nat) : Prop := latency ≤ other ∧ (Exceeds latency → other < bound)

theorem slotOf_of_lt {latency : Nat} (h : latency < bound) :
    slotOf latency = Slot.ofValue latency := by
  rw [slotOf, clamp, if_pos h]

theorem slotOf_of_le {latency : Nat} (h : bound ≤ latency) : slotOf latency = slotOf ceiling := by
  have hceiling : clamp ceiling = ceiling := rfl
  rw [slotOf, slotOf, clamp, if_neg (Nat.not_lt.mpr h), hceiling]

/-- Those are the latencies that are counted as more than the ceiling. -/
theorem exceeds_iff (latency : Nat) : Exceeds latency ↔ slotOf ceiling < slotOf latency := by
  by_cases hbound : latency < bound
  · rw [slotOf_of_lt hbound, ← Nat.not_le, Slot.ofValue_le_iff, Nat.not_le]
    exact and_iff_left hbound
  · rw [slotOf_of_le (Nat.le_of_not_lt hbound)]
    exact ⟨fun h => absurd h.2 hbound, fun h => absurd h (Nat.lt_irrefl _)⟩

theorem precedes_iff {latency other : Nat} (h : latency ≤ other) :
    Precedes latency other ↔ slotOf latency ≤ slotOf other := by
  rw [Precedes, and_iff_right h, exceeds_iff]
  by_cases hbound : other < bound
  · rw [slotOf_of_lt hbound, slotOf_of_lt (Nat.lt_of_le_of_lt h hbound)]
    exact ⟨fun _ => Slot.ofValue_mono h, fun _ _ => hbound⟩
  · rw [slotOf_of_le (Nat.le_of_not_lt hbound)]
    exact ⟨fun hnot => Nat.le_of_not_lt fun hlt => hbound (hnot hlt),
      fun hle hlt => absurd hlt (Nat.not_lt.mpr hle)⟩

/-! ## Quantiles of two lists -/

theorem atMost_iff (histogram other : Histogram) :
    histogram.quantiles.AtMost other.quantiles ↔ ∀ percentile ∈ percentiles,
      Binary64.le (histogram.percentileMillis percentile) (other.percentileMillis percentile) =
        true := by
  rw [Quantiles.AtMost, toList_quantiles, toList_quantiles, List.forall₂_map_left_iff,
    List.forall₂_map_right_iff, List.forall₂_same]

/-- Without latencies, too, the value at a percentile is what is published. -/
theorem percentileMillis_eq (histogram : Histogram) (percentile : Binary64) :
    histogram.percentileMillis percentile =
      Binary64.ofNat (histogram.valueAt percentile) / Binary64.ofNat 1000 := by
  have hzero : Binary64.ofNat 0 / Binary64.ofNat 1000 = Binary64.zero := by decide +kernel
  unfold percentileMillis
  split
  · next hempty =>
    -- The walk through no latencies stops nowhere, and the value is zero.
    have hstops := isSome_walk (rank (fraction percentile) histogram.total) 0
      histogram.counts.entries (one_le_rank _ _)
    have htotal : (histogram.counts.entries.map Prod.snd).sum = 0 := of_decide_eq_true hempty
    rw [htotal, decide_eq_false (Nat.not_le.mpr (one_le_rank _ _)), Option.isSome_eq_false_iff,
      Option.isNone_iff_eq_none] at hstops
    rw [valueAt_eq, hstops]
    exact hzero.symm
  · rfl

/-- Values at percentiles are published in their order. -/
theorem Sparse.le_percentileMillis {histogram other : Histogram} (hother : other.Sparse)
    {percentile : Binary64} (h : histogram.valueAt percentile ≤ other.valueAt percentile) :
    Binary64.le (histogram.percentileMillis percentile) (other.percentileMillis percentile) =
      true := by
  rw [percentileMillis_eq, percentileMillis_eq]
  exact Binary64.le_thousandths h (hother.valueAt_lt percentile)

theorem countP_slots_le {latencies others : List Nat}
    (h : List.Forall₂ (fun x y => slotOf x ≤ slotOf y) latencies others) (last : Nat) :
    (others.countP fun latency => slotOf latency ≤ last) ≤
      latencies.countP fun latency => slotOf latency ≤ last := by
  induction h with
  | nil => exact Nat.le_refl _
  | cons hfirst _ ih =>
    rw [List.countP_cons, List.countP_cons]
    simp only [decide_eq_true_eq]
    split <;> split <;> omega

/-- Latencies that are counted in lower slots have lower quantiles. -/
theorem atMost_of_slots {latencies others : List Nat}
    (h : List.Forall₂ (fun x y => slotOf x ≤ slotOf y) latencies others) :
    (ofList latencies).quantiles.AtMost (ofList others).quantiles := by
  have htotal : (ofList latencies).total = (ofList others).total := by
    rw [total_ofList, total_ofList, h.length_eq]
  rw [atMost_iff]
  intro percentile _
  refine (sparse_ofList others).le_percentileMillis ?_
  refine valueAt_mono (sparse_ofList latencies) (sparse_ofList others) htotal (fun last => ?_) _
  rw [upTo_ofList, upTo_ofList]
  exact countP_slots_le h last

/-! ## One latency -/

/-- One latency is the one that every published percentile asks for. -/
theorem rank_percentiles : ∀ percentile ∈ percentiles, rank (fraction percentile) 1 = 1 := by
  decide +kernel

theorem valueAt_singleton (latency : Nat) {percentile : Binary64} (h : percentile ∈ percentiles) :
    (ofList [latency]).valueAt percentile = edge percentile (slotOf latency) := by
  have htotal : (ofList [latency]).total = 1 := total_ofList [latency]
  rw [valueAt_eq, htotal, rank_percentiles percentile h]
  rfl

theorem exists_of_mem_keys {latencies : List Nat} {slot : Nat}
    (h : slot ∈ (ofList latencies).counts.keys) : ∃ latency ∈ latencies, slotOf latency = slot := by
  induction latencies using List.reverseRecOn with
  | nil => cases h
  | append_singleton latencies latency ih =>
    rw [ofList_concat] at h
    rcases (Table.mem_keys_alter _ _ _ _).mp h with rfl | hbefore
    · exact ⟨latency, List.mem_append_right _ List.mem_cons_self, rfl⟩
    · obtain ⟨other, hother, hslot⟩ := ih hbefore
      exact ⟨other, List.mem_append_left _ hother, hslot⟩

/-- Latencies that are counted as at most a certain one have no quantile above its own. -/
theorem atMost_singleton {latencies : List Nat} {latency : Nat}
    (h : ∀ other ∈ latencies, slotOf other ≤ slotOf latency) :
    (ofList latencies).quantiles.AtMost (ofList [latency]).quantiles := by
  rw [atMost_iff]
  intro percentile hpercentile
  refine (sparse_ofList [latency]).le_percentileMillis ?_
  rw [valueAt_singleton latency hpercentile]
  refine valueAt_le_edge (fun slot hslot => ?_) percentile
  obtain ⟨other, hother, rfl⟩ := exists_of_mem_keys hslot
  exact h other hother

/-- A latency above the ceiling looks slower than what is counted as the ceiling. -/
theorem not_atMost_of_exceeds {latency other : Nat} (h : Exceeds latency)
    (hother : slotOf other = slotOf ceiling) :
    ¬ (ofList [latency]).quantiles.AtMost (ofList [other]).quantiles := by
  intro hatMost
  have hmax : Binary64.ofNat 100 ∈ percentiles := by decide +kernel
  have hle := (atMost_iff _ _).mp hatMost _ hmax
  have hlt := (sparse_ofList [latency]).valueAt_lt (Binary64.ofNat 100)
  rw [percentileMillis_eq, percentileMillis_eq, valueAt_singleton other hmax, hother] at hle
  rw [valueAt_singleton latency hmax] at hle hlt
  -- The slot behind that of the ceiling already shows more milliseconds.
  have hnext := edge_mono (Binary64.ofNat 100) ((exceeds_iff latency).mp h)
  have happart : Binary64.le
      (Binary64.ofNat (edge (Binary64.ofNat 100) (slotOf ceiling + 1)) / Binary64.ofNat 1000)
      (Binary64.ofNat (edge (Binary64.ofNat 100) (slotOf ceiling)) / Binary64.ofNat 1000) =
        false := by decide +kernel
  have hsame := Binary64.le_trans (Binary64.le_thousandths hnext hlt) hle
  rw [happart] at hsame
  cases hsame

/-! ## Slower commands -/

theorem atMost_singleton_iff {latency other : Nat} (h : latency ≤ other) :
    (ofList [latency]).quantiles.AtMost (ofList [other]).quantiles ↔ Precedes latency other := by
  refine ⟨fun hatMost => ⟨h, fun hexceeds => Nat.lt_of_not_le fun hbound => ?_⟩, fun hprecedes => ?_⟩
  · exact not_atMost_of_exceeds hexceeds (slotOf_of_le hbound) hatMost
  · exact atMost_of_slots (.cons ((precedes_iff h).mp hprecedes) .nil)

theorem atMost_ceiling_iff (latency : Nat) :
    (ofList [latency]).quantiles.AtMost (ofList [ceiling]).quantiles ↔ ¬ Exceeds latency := by
  refine ⟨fun hatMost hexceeds => not_atMost_of_exceeds hexceeds rfl hatMost, fun hnot => ?_⟩
  rw [exceeds_iff, Nat.not_lt] at hnot
  exact atMost_of_slots (.cons hnot .nil)

/-- Slower commands do not look faster, and nothing looks slower than the ceiling, as long as no
latency that exceeds the ceiling is compared with one that is counted as the ceiling.  For single
latencies this is exactly when it holds. -/
theorem quantiles_of_slower (latencies others : List Nat) :
    (List.Forall₂ Precedes latencies others →
      (ofList latencies).quantiles.AtMost (ofList others).quantiles) ∧
    ((∀ latency ∈ latencies, ¬ Exceeds latency) →
      (ofList latencies).quantiles.AtMost (ofList [ceiling]).quantiles) ∧
    (∀ latency other, latency ≤ other →
      ((ofList [latency]).quantiles.AtMost (ofList [other]).quantiles ↔ Precedes latency other)) ∧
    (∀ latency,
      (ofList [latency]).quantiles.AtMost (ofList [ceiling]).quantiles ↔ ¬ Exceeds latency) := by
  refine ⟨fun h => ?_, fun h => ?_, fun _ _ => atMost_singleton_iff, atMost_ceiling_iff⟩
  · exact atMost_of_slots (h.imp fun _ _ hprecedes => (precedes_iff hprecedes.1).mp hprecedes)
  · refine atMost_singleton fun latency hlatency => ?_
    exact Nat.le_of_not_lt ((exceeds_iff latency).not.mp (h latency hlatency))

/-- Three latencies, one of them beyond the bound, and slower ones. -/
theorem quantiles_threeSlower :
    (ofList [1000447, 5, 2000000]).quantiles.AtMost (ofList [5000000, 9, 2000001]).quantiles ∧
      (ofList [1000447, 5, 2000000]).quantiles.AtMost (ofList [ceiling]).quantiles := by
  have h := quantiles_of_slower [1000447, 5, 2000000] [5000000, 9, 2000001]
  refine ⟨h.1 ?_, h.2.1 (by decide)⟩
  exact .cons ⟨by decide, by decide⟩ (.cons ⟨by decide, by decide⟩
    (.cons ⟨by decide, by decide⟩ .nil))

/-- The greatest latency with a slot of its own looks slower than the next one, and than the
ceiling. -/
theorem not_atMost_bound :
    ¬ (ofList [1048575]).quantiles.AtMost (ofList [1048576]).quantiles ∧
      ¬ (ofList [1048575]).quantiles.AtMost (ofList [ceiling]).quantiles :=
  ⟨not_atMost_of_exceeds (by decide) rfl, not_atMost_of_exceeds (by decide) rfl⟩

end Histogram

end LoadBench
