/-
  LoadBench.Proofs.Published

  What is published is a finite number.  A rate or a share that is not finite is
  published as minus one (`isFinite_published`), and quantiles are quotients of
  whole numbers below 2^24 and a thousand, far below the range of doubles
  (`Histogram.Sparse.isFinite_percentileMillis`).
-/

import LoadBench.Proofs.Percentile
import LoadBench.Rate

namespace LoadBench

/-! ## Rounding -/

namespace Binary64

theorem one_pos : 0 < one := by decide +kernel

theorem exponentOf_lt {units bits : Nat} (h : units < 2 ^ bits) (hbits : 52 < bits) :
    exponentOf units < bits - 52 := by
  have hlog : units.log2 < bits := by
    by_cases hzero : units = 0
    · rw [hzero, Nat.log2_zero]
      omega
    · exact (Nat.log2_lt hzero).mpr h
  unfold exponentOf
  omega

/-- Rounding a number within the range gives a finite one. -/
theorem isFinite_round (negative : Bool) {num den : Nat} (h : num / den < 2 ^ 2097) :
    (round negative num den).isFinite = true := by
  have hexponent : exponentOf (num / den) < 2045 := exponentOf_lt h (by decide)
  unfold round
  dsimp only
  split
  · rw [if_neg (Nat.not_le.mpr hexponent)]
    rfl
  · rw [if_neg (Nat.not_lt.mpr (Nat.le_of_lt hexponent))]
    rfl

/-- Rounding makes a number at most about twice as great. -/
theorem units_round_le (negative : Bool) (num den : Nat) :
    (round negative num den).units ≤ 2 * (num / den) + 1 := by
  have hpow : 2 ^ exponentOf (num / den) ≤ num / den + 1 := by
    by_cases hzero : num / den = 0
    · rw [hzero]
      decide
    · refine Nat.le_succ_of_le (Nat.le_trans (Nat.pow_le_pow_right Nat.two_pos ?_)
        (Nat.log2_self_le hzero))
      exact Nat.sub_le _ _
  have hmantissa : nearestEven num (den * 2 ^ exponentOf (num / den)) *
      2 ^ exponentOf (num / den) ≤ 2 * (num / den) + 1 := by
    have hnear := nearestEven_le num (den * 2 ^ exponentOf (num / den))
    have hquotient := Nat.div_mul_le_self (num / den) (2 ^ exponentOf (num / den))
    rw [← Nat.div_div_eq_div_mul] at hnear
    have hscaled := Nat.mul_le_mul_right (2 ^ exponentOf (num / den)) hnear
    rw [Nat.add_mul, Nat.one_mul] at hscaled
    omega
  unfold round
  simp only [Nat.pow_eq]
  split
  · next hcarry =>
    rw [hcarry] at hmantissa
    split
    · exact Nat.zero_le _
    · -- The carry has doubled the unit and halved the mantissa.
      refine Nat.le_trans (Nat.le_of_eq ?_) hmantissa
      show 2 ^ 52 * 2 ^ (exponentOf (num / den) + 1) = 2 ^ 53 * 2 ^ exponentOf (num / den)
      rw [← Nat.pow_add, ← Nat.pow_add]
      exact congrArg _ (by omega)
  · split
    · exact Nat.zero_le _
    · exact hmantissa

/-- What a whole number comes to in units, whatever its rounding. -/
theorem units_ofNat_le (n : Nat) : (ofNat n).units ≤ 2 * (n * one) + 1 := by
  have hunits := units_round_le false (n * one) 1
  rwa [Nat.div_one] at hunits

/-- A quotient by a number that is not below one is no greater than the dividend. -/
theorem units_div_le (units : Nat) {den : Nat} (h : one ≤ den) : units * one / den ≤ units :=
  Nat.le_trans (Nat.div_le_div_left h one_pos) (Nat.le_of_eq (Nat.mul_div_cancel _ one_pos))

/-- A quotient of a finite number and one that is not below one is finite. -/
theorem isFinite_div {x y : Binary64} (hx : x.isFinite = true) (hy : y.isFinite = true)
    (hone : one ≤ y.units) (hbound : x.units < 2 ^ 2097) : (x / y).isFinite = true := by
  cases x with
  | nan => cases hx
  | infinite negative => cases hx
  | finite s m e =>
    cases y with
    | nan => cases hy
    | infinite negative => cases hy
    | finite t n f =>
      have hnonzero : n ≠ 0 := by
        rintro rfl
        rw [units, Nat.zero_mul] at hone
        exact absurd hone (Nat.not_le.mpr one_pos)
      show (div (.finite s m e) (.finite t n f)).isFinite = true
      rw [div, if_neg hnonzero]
      exact isFinite_round _ (Nat.lt_of_le_of_lt (units_div_le _ hone) hbound)

end Binary64

theorem Rate.isFinite_published (x : Binary64) : (published x).isFinite = true := by
  unfold published
  split
  · assumption
  · decide +kernel

@[simp] theorem Rate.isFinite_perSecond (current previous : Nat) (took : TimeSpan) :
    (perSecond current previous took).isFinite = true :=
  isFinite_published _

@[simp] theorem Rate.isFinite_share (part whole : Nat) : (share part whole).isFinite = true :=
  isFinite_published _

/-! ## Quantiles -/

/-- Quantiles as a list. -/
def Quantiles.toList (quantiles : Quantiles) : List Binary64 :=
  [quantiles.q0, quantiles.q50, quantiles.q95, quantiles.q99, quantiles.q999, quantiles.q100]

namespace Histogram

/-- The percentiles that are published. -/
def percentiles : List Binary64 :=
  [Binary64.zero, Binary64.ofNat 50, Binary64.ofNat 95, Binary64.ofNat 99,
    Binary64.ofNat 999 / Binary64.ofNat 10, Binary64.ofNat 100]

theorem toList_quantiles (histogram : Histogram) :
    histogram.quantiles.toList = percentiles.map histogram.percentileMillis := rfl

variable {histogram : Histogram}

theorem Sparse.valueAt_lt (h : histogram.Sparse) (percentile : Binary64) :
    histogram.valueAt percentile < 2 ^ 24 := by
  have hlast : ∀ slot ∈ histogram.counts.keys, slot ≤ slotCount - 1 :=
    fun slot hslot => Nat.le_sub_one_of_lt (h.slot_lt slot hslot)
  refine Nat.lt_of_le_of_lt (valueAt_le_edge hlast percentile) ?_
  exact Nat.lt_of_le_of_lt (edge_le_highest percentile _) (by decide)

/-- Every percentile is published as a finite number. -/
theorem Sparse.isFinite_percentileMillis (h : histogram.Sparse) (percentile : Binary64) :
    (histogram.percentileMillis percentile).isFinite = true := by
  unfold percentileMillis
  split
  · rfl
  · have hvalue := h.valueAt_lt percentile
    have hunits : histogram.valueAt percentile * Binary64.one < 2 ^ 24 * Binary64.one :=
      Nat.mul_lt_mul_of_pos_right hvalue Binary64.one_pos
    have hroom : 2 * (2 ^ 24 * Binary64.one) + 1 < 2 ^ 2097 := by decide +kernel
    refine Binary64.isFinite_div (Binary64.isFinite_round false ?_) (by decide +kernel)
      (by decide +kernel) (Nat.lt_of_le_of_lt (Binary64.units_ofNat_le _) ?_)
    · rw [Nat.div_one]
      omega
    · omega

/-- All published quantiles are finite numbers. -/
theorem Sparse.isFinite_quantiles (h : histogram.Sparse) {x : Binary64}
    (hx : x ∈ histogram.quantiles.toList) : x.isFinite = true := by
  rw [toList_quantiles] at hx
  obtain ⟨percentile, -, rfl⟩ := List.mem_map.mp hx
  exact h.isFinite_percentileMillis percentile

end Histogram

end LoadBench
