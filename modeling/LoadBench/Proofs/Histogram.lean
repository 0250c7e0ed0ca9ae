/-
  LoadBench.Proofs.Histogram

  A histogram says of each slot how many latencies fell into it (`countAt_ofList`),
  so the order of the latencies does not matter: counting two of them comes to the
  same histogram in either order, table and all (`record_comm`, `ofList_perm`).
-/

import LoadBench.Histogram
import LoadBench.Proofs.Table
import Mathlib.Data.List.Induction
import Mathlib.Data.List.Perm.Subperm

namespace LoadBench

/-- The values up to a bucket's last are less than two thousand and forty-eight of its widths. -/
theorem Slot.div_bucket_lt (value : Nat) : value / 2 ^ bucket value < 2048 := by
  rw [Nat.div_lt_iff_lt_mul (Nat.two_pow_pos _), show 2048 = 2 ^ 11 from rfl, ← Nat.pow_add]
  refine Nat.lt_of_lt_of_le Nat.lt_log2_self (Nat.pow_le_pow_right Nat.two_pos ?_)
  unfold bucket
  omega

namespace Histogram

/-! ## One latency -/

@[simp] theorem total_record (histogram : Histogram) (latency : Nat) :
    (histogram.record latency).total = histogram.total + 1 := by
  have hadded : ∀ before : Option Nat, id (before.getD 0 + 1) = before.elim 0 id + 1 := by
    intro before
    cases before <;> rfl
  have hsum := Table.sum_alter hadded histogram.counts (slotOf latency)
  rwa [List.map_id, List.map_id] at hsum

theorem countAt_record (histogram : Histogram) (latency slot : Nat) :
    (histogram.record latency).countAt slot =
      histogram.countAt slot + if slotOf latency = slot then 1 else 0 := by
  by_cases hslot : slotOf latency = slot
  · subst hslot
    rw [if_pos rfl, countAt, record, Table.get?_alter_self]
    rfl
  · rw [if_neg hslot, countAt, record, Table.get?_alter_ne _ (Ne.symm hslot)]
    rfl

theorem record_comm (histogram : Histogram) (one other : Nat) :
    (histogram.record one).record other = (histogram.record other).record one := by
  by_cases hslot : slotOf one = slotOf other
  · -- In one slot both changes are the same change.
    simp only [record, hslot]
  · exact congrArg Histogram.mk (Table.alter_comm histogram.counts hslot _ _)

instance : RightCommutative record := ⟨record_comm⟩

/-! ## All latencies -/

theorem countAt_foldl_record (latencies : List Nat) (histogram : Histogram) (slot : Nat) :
    (latencies.foldl record histogram).countAt slot =
      histogram.countAt slot + latencies.countP fun latency => slotOf latency = slot := by
  induction latencies generalizing histogram with
  | nil => rfl
  | cons latency rest ih =>
    rw [List.foldl_cons, ih, countAt_record, List.countP_cons]
    simp only [decide_eq_true_eq]
    omega

/-- A slot holds as many latencies as fell into it. -/
theorem countAt_ofList (latencies : List Nat) (slot : Nat) :
    (ofList latencies).countAt slot = latencies.countP fun latency => slotOf latency = slot := by
  have hcount := countAt_foldl_record latencies empty slot
  have hempty : empty.countAt slot = 0 := rfl
  rw [hempty, Nat.zero_add] at hcount
  exact hcount

theorem total_foldl_record (latencies : List Nat) (histogram : Histogram) :
    (latencies.foldl record histogram).total = histogram.total + latencies.length := by
  induction latencies generalizing histogram with
  | nil => rfl
  | cons latency rest ih =>
    rw [List.foldl_cons, ih, total_record, List.length_cons]
    omega

theorem total_ofList (latencies : List Nat) : (ofList latencies).total = latencies.length := by
  have htotal := total_foldl_record latencies empty
  have hempty : empty.total = 0 := rfl
  rwa [hempty, Nat.zero_add] at htotal

theorem ofList_concat (latencies : List Nat) (latency : Nat) :
    ofList (latencies ++ [latency]) = (ofList latencies).record latency :=
  List.foldl_concat ..

/-- The order in which latencies are counted does not matter. -/
theorem ofList_perm {latencies others : List Nat} (h : latencies.Perm others) :
    ofList latencies = ofList others :=
  h.foldl_eq empty

/-! ## Slots that are in use -/

/-- How many slots there are. -/
def slotCount : Nat := 11264

/-- Every latency has a slot. -/
theorem slotOf_lt (latency : Nat) : slotOf latency < slotCount := by
  have hclamp : clamp latency < 2 ^ 20 := by
    unfold clamp bound ceiling
    split <;> omega
  have hlog : (clamp latency).log2 < 20 := by
    by_cases hzero : clamp latency = 0
    · rw [hzero, Nat.log2_zero]
      exact Nat.succ_pos _
    · exact (Nat.log2_lt hzero).mpr hclamp
  have hslot := Slot.div_bucket_lt (clamp latency)
  have hbucket : Slot.bucket (clamp latency) ≤ 9 := by
    unfold Slot.bucket
    omega
  show Slot.bucket (clamp latency) * 1024 + clamp latency / 2 ^ Slot.bucket (clamp latency) < 11264
  omega

/-- Whether a histogram keeps the slots that are in use, ascending. -/
structure Sparse (histogram : Histogram) : Prop where
  ordered : histogram.counts.Ordered
  slot_lt : ∀ slot ∈ histogram.counts.keys, slot < slotCount

theorem sparse_empty : empty.Sparse := ⟨List.Pairwise.nil, nofun⟩

theorem Sparse.record {histogram : Histogram} (h : histogram.Sparse) (latency : Nat) :
    (histogram.record latency).Sparse where
  ordered := h.ordered.alter _ _
  slot_lt := by
    intro slot hslot
    rcases (Table.mem_keys_alter _ _ _ _).mp hslot with rfl | hbefore
    · exact slotOf_lt latency
    · exact h.slot_lt slot hbefore

theorem sparse_ofList (latencies : List Nat) : (ofList latencies).Sparse := by
  induction latencies using List.reverseRecOn with
  | nil => exact sparse_empty
  | append_singleton latencies latency ih =>
    rw [ofList_concat]
    exact ih.record latency

/-- There are no more entries than slots. -/
theorem Sparse.length_le {histogram : Histogram} (h : histogram.Sparse) :
    histogram.counts.entries.length ≤ slotCount := by
  have hnodup := h.ordered.nodup_keys
  have hsubset : histogram.counts.keys ⊆ List.range slotCount :=
    fun slot hslot => List.mem_range.mpr (h.slot_lt slot hslot)
  have hle := (hnodup.subperm hsubset).length_le
  rwa [List.length_range, Table.keys, List.length_map] at hle

end Histogram

end LoadBench
