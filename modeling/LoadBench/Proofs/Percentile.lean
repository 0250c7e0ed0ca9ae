/-
  LoadBench.Proofs.Percentile

  Slots and ranks.  The slots follow each other without a gap (`Slot.highest_succ`), so a
  latency is in one of the slots up to a certain one exactly if it is at most that slot's
  greatest value (`Slot.ofValue_le_iff`).  The walk stops at the first slot up to which
  there are as many latencies as the rank asks for (`walk_le_iff`).  Both together make
  the value at a percentile monotone: the more latencies there are in low slots, the
  lower it is (`Histogram.valueAt_mono`).
-/

import LoadBench.Proofs.Histogram
import Mathlib.Order.Monotone.Basic

namespace LoadBench

/-! ## Slots -/

namespace Slot

/-- The next slot begins where a slot ends. -/
theorem highest_succ (slot : Nat) : highest slot + 1 = lowest (slot + 1) := by
  have hwidth := Nat.two_pow_pos (bucketOf slot)
  have hend : highest slot + 1 = (slot + 1 - bucketOf slot * 1024) * 2 ^ bucketOf slot := by
    have hstart : slot + 1 - bucketOf slot * 1024 = slot - bucketOf slot * 1024 + 1 := by
      unfold bucketOf
      omega
    rw [hstart, Nat.add_mul, Nat.one_mul]
    unfold highest lowest
    simp only [Nat.pow_eq]
    omega
  have hbucket : bucketOf (slot + 1) = bucketOf slot ∨
      bucketOf (slot + 1) = bucketOf slot + 1 ∧ slot + 1 = (bucketOf slot + 2) * 1024 := by
    unfold bucketOf
    omega
  rcases hbucket with hsame | ⟨hnext, hfirst⟩
  · rw [hend, lowest, hsame]
    rfl
  · -- The first slot of a bucket is twice as wide as the slots before it.
    rw [hend, lowest, hnext]
    show _ = (slot + 1 - (bucketOf slot + 1) * 1024) * 2 ^ (bucketOf slot + 1)
    have hlast : slot + 1 - bucketOf slot * 1024 =
        (slot + 1 - (bucketOf slot + 1) * 1024) * 2 := by omega
    rw [hlast, Nat.pow_succ, Nat.mul_assoc, Nat.mul_comm 2]

theorem lowest_le_highest (slot : Nat) : lowest slot ≤ highest slot := Nat.le_add_right _ _

theorem lowest_strictMono : StrictMono lowest :=
  strictMono_nat_of_lt_succ fun slot => by
    rw [← highest_succ]
    exact Nat.lt_succ_of_le (lowest_le_highest slot)

theorem highest_strictMono : StrictMono highest :=
  strictMono_nat_of_lt_succ fun slot =>
    Nat.lt_of_lt_of_le (Nat.lt_of_lt_of_eq (Nat.lt_succ_self _) (highest_succ slot))
      (lowest_le_highest (slot + 1))

/-- A value is in the upper half of its bucket, unless that is the first. -/
theorem le_div_bucket (value : Nat) :
    bucket value = 0 ∨ 1024 ≤ value / 2 ^ bucket value := by
  by_cases hzero : bucket value = 0
  · exact Or.inl hzero
  · right
    have hlog : 10 + bucket value = value.log2 := by
      unfold bucket at hzero ⊢
      omega
    have hvalue : value ≠ 0 := by
      rintro rfl
      exact hzero rfl
    rw [Nat.le_div_iff_mul_le (Nat.two_pow_pos _), show 1024 = 2 ^ 10 from rfl, ← Nat.pow_add,
      hlog]
    exact Nat.log2_self_le hvalue

theorem bucketOf_ofValue (value : Nat) : bucketOf (ofValue value) = bucket value := by
  have hlt := div_bucket_lt value
  have hhalf := le_div_bucket value
  unfold bucketOf ofValue
  simp only [Nat.pow_eq]
  omega

theorem lowest_ofValue (value : Nat) :
    lowest (ofValue value) = value / 2 ^ bucket value * 2 ^ bucket value := by
  rw [lowest, bucketOf_ofValue, ofValue, Nat.add_sub_cancel_left]
  rfl

/-- A value is in its slot. -/
theorem mem_ofValue (value : Nat) :
    lowest (ofValue value) ≤ value ∧ value ≤ highest (ofValue value) := by
  have hwidth := Nat.two_pow_pos (bucket value)
  -- A value is a number of widths, and a rest of less than one.
  have hrest := Nat.div_add_mod' value (2 ^ bucket value)
  have hlt := Nat.mod_lt value hwidth
  refine ⟨?_, ?_⟩
  · rw [lowest_ofValue]
    omega
  · rw [highest, lowest_ofValue, bucketOf_ofValue]
    simp only [Nat.pow_eq]
    omega

/-- The values of the slots up to one are those up to its greatest. -/
theorem ofValue_le_iff (value slot : Nat) : ofValue value ≤ slot ↔ value ≤ highest slot := by
  refine ⟨fun hle => ?_, fun hle => ?_⟩
  · exact Nat.le_trans (mem_ofValue value).2 (highest_strictMono.monotone hle)
  · refine Nat.le_of_not_lt fun hlt => ?_
    have hnext : lowest (slot + 1) ≤ value :=
      Nat.le_trans (lowest_strictMono.monotone hlt) (mem_ofValue value).1
    rw [← highest_succ] at hnext
    exact absurd (Nat.lt_of_succ_le hnext) (Nat.not_lt.mpr hle)

theorem ofValue_mono {value more : Nat} (h : value ≤ more) : ofValue value ≤ ofValue more :=
  (ofValue_le_iff _ _).mpr (Nat.le_trans h (mem_ofValue more).2)

end Slot

namespace Histogram

/-! ## Latencies in low slots -/

/-- How many latencies are in the slots up to `last`. -/
def upTo (last : Nat) (entries : List (Nat × Nat)) : Nat :=
  ((entries.filter fun entry => entry.1 ≤ last).map Prod.snd).sum

theorem upTo_cons (last : Nat) (entry : Nat × Nat) (rest : List (Nat × Nat)) :
    upTo last (entry :: rest) = (if entry.1 ≤ last then entry.2 else 0) + upTo last rest := by
  unfold upTo
  rw [List.filter_cons]
  simp only [decide_eq_true_eq]
  split
  · rw [List.map_cons, List.sum_cons]
  · rw [Nat.zero_add]

theorem upTo_eq_zero {last : Nat} {entries : List (Nat × Nat)}
    (h : ∀ entry ∈ entries, last < entry.1) : upTo last entries = 0 := by
  rw [upTo, List.filter_eq_nil_iff.mpr fun entry hentry => by simpa using h entry hentry]
  rfl

theorem upTo_record (last slot : Nat) (entries : List (Nat × Nat)) :
    upTo last (Table.alterEntries slot (fun before => before.getD 0 + 1) entries) =
      upTo last entries + if slot ≤ last then 1 else 0 := by
  induction entries with
  | nil => rw [Table.alterEntries, upTo_cons, Nat.add_comm]; rfl
  | cons entry rest ih =>
    obtain ⟨first, count⟩ := entry
    unfold Table.alterEntries
    split
    · rw [upTo_cons, Nat.add_comm]
      rfl
    · split
      · rw [upTo_cons, upTo_cons, ih, Nat.add_assoc]
      · have hsame : slot = first := by omega
        subst hsame
        rw [upTo_cons, upTo_cons]
        simp only [Option.getD_some]
        split <;> omega

/-- Those latencies are in the slots up to one whose own slots are. -/
theorem upTo_ofList (latencies : List Nat) (last : Nat) :
    upTo last (ofList latencies).counts.entries =
      latencies.countP fun latency => slotOf latency ≤ last := by
  induction latencies using List.reverseRecOn with
  | nil => rfl
  | append_singleton latencies latency ih =>
    rw [ofList_concat, List.countP_append, List.countP_singleton, ← ih]
    simp only [decide_eq_true_eq]
    exact upTo_record last (slotOf latency) _

/-! ## The walk -/

theorem walk_mem {target passed slot : Nat} {entries : List (Nat × Nat)}
    (h : walk target passed entries = some slot) : slot ∈ entries.map Prod.fst := by
  induction entries generalizing passed with
  | nil => cases h
  | cons entry rest ih =>
    obtain ⟨first, count⟩ := entry
    unfold walk at h
    split at h
    · exact Option.some.inj h ▸ List.mem_cons_self
    · exact List.mem_cons_of_mem _ (ih h)

/-- The walk stops at the first slot up to which there are as many latencies as are asked for. -/
theorem walk_le_iff {target passed slot : Nat} {entries : List (Nat × Nat)}
    (hordered : entries.Pairwise fun one other => one.1 < other.1) (hpassed : passed < target)
    (h : walk target passed entries = some slot) (last : Nat) :
    slot ≤ last ↔ target ≤ passed + upTo last entries := by
  -- By induction on the entries that are left; the latencies of those before are in `passed`.
  induction entries generalizing passed with
  | nil => cases h
  | cons entry rest ih =>
    obtain ⟨first, count⟩ := entry
    obtain ⟨hfirst, hrest⟩ := List.pairwise_cons.mp hordered
    -- Below the first entry there is nothing.
    have hbelow : last < first → upTo last rest = 0 := fun hlast =>
      upTo_eq_zero fun entry hentry => Nat.lt_trans hlast (hfirst entry hentry)
    rw [upTo_cons]
    unfold walk at h
    split at h
    · obtain rfl := Option.some.inj h
      by_cases hlast : first ≤ last
      · rw [if_pos hlast]
        omega
      · rw [if_neg hlast, hbelow (Nat.lt_of_not_le hlast)]
        omega
    · next hfurther =>
      have hrec := ih hrest (Nat.lt_of_not_le hfurther) h
      by_cases hlast : first ≤ last
      · rw [if_pos hlast, hrec, Nat.add_assoc]
      · rw [hbelow (Nat.lt_of_not_le hlast)] at hrec
        rw [if_neg hlast, hbelow (Nat.lt_of_not_le hlast), hrec]
        omega

/-- It stops if there are as many latencies at all. -/
theorem isSome_walk (target passed : Nat) (entries : List (Nat × Nat)) (hpassed : passed < target) :
    (walk target passed entries).isSome = decide (target ≤ passed + (entries.map Prod.snd).sum) := by
  induction entries generalizing passed with
  | nil =>
    rw [List.map_nil, List.sum_nil, Nat.add_zero, decide_eq_false (Nat.not_le.mpr hpassed)]
    rfl
  | cons entry rest ih =>
    obtain ⟨first, count⟩ := entry
    rw [List.map_cons, List.sum_cons, ← Nat.add_assoc]
    unfold walk
    split
    · next hreached =>
      rw [decide_eq_true (Nat.le_add_right_of_le hreached)]
      rfl
    · next hfurther => exact ih _ (Nat.lt_of_not_le hfurther)

/-! ## Values at percentiles -/

/-- The value that a slot shows at a percentile. -/
def edge (percentile : Binary64) (slot : Nat) : Nat :=
  if (fraction percentile).units = 0 && (fraction percentile).isFinite then Slot.lowest slot
  else Slot.highest slot

theorem valueAt_eq (histogram : Histogram) (percentile : Binary64) :
    histogram.valueAt percentile =
      match walk (rank (fraction percentile) histogram.total) 0 histogram.counts.entries with
      | none => 0
      | some slot => edge percentile slot := rfl

theorem edge_mono (percentile : Binary64) {slot next : Nat} (h : slot ≤ next) :
    edge percentile slot ≤ edge percentile next := by
  unfold edge
  split
  · exact Slot.lowest_strictMono.monotone h
  · exact Slot.highest_strictMono.monotone h

theorem edge_le_highest (percentile : Binary64) (slot : Nat) :
    edge percentile slot ≤ Slot.highest slot := by
  unfold edge
  split
  · exact Slot.lowest_le_highest slot
  · exact Nat.le_refl _

variable {histogram other : Histogram}

theorem one_le_rank (part : Binary64) (total : Nat) : 1 ≤ rank part total := Nat.le_max_left _ _

/-- The more latencies there are in low slots, the lower is the value at every percentile. -/
theorem valueAt_mono (h : histogram.Sparse) (hother : other.Sparse)
    (htotal : histogram.total = other.total)
    (hbelow : ∀ last, upTo last other.counts.entries ≤ upTo last histogram.counts.entries)
    (percentile : Binary64) : histogram.valueAt percentile ≤ other.valueAt percentile := by
  have hrank := one_le_rank (fraction percentile) other.total
  have hstops : ∀ histogram : Histogram, histogram.total = other.total →
      (walk (rank (fraction percentile) other.total) 0 histogram.counts.entries).isSome =
        decide (rank (fraction percentile) other.total ≤ 0 + other.total) := by
    intro histogram htotal
    rw [isSome_walk _ _ _ hrank, ← htotal]
    rfl
  rw [valueAt_eq, valueAt_eq, htotal]
  split
  · exact Nat.zero_le _
  · next slot hslot =>
    have hsome := (hstops histogram htotal).symm.trans (congrArg Option.isSome hslot)
    obtain ⟨slot', hslot'⟩ := Option.isSome_iff_exists.mp ((hstops other rfl).trans hsome)
    -- Up to the slot of the other one there are latencies enough of this one, too.
    have hle : slot ≤ slot' := by
      refine (walk_le_iff h.ordered hrank hslot slot').mpr (Nat.le_trans ?_
        (Nat.add_le_add_left (hbelow slot') 0))
      exact (walk_le_iff hother.ordered hrank hslot' slot').mp (Nat.le_refl _)
    rw [hslot']
    exact edge_mono percentile hle

/-- No value is beyond the slots that are in use. -/
theorem valueAt_le_edge {last : Nat} (h : ∀ slot ∈ histogram.counts.keys, slot ≤ last)
    (percentile : Binary64) : histogram.valueAt percentile ≤ edge percentile last := by
  rw [valueAt_eq]
  split
  · exact Nat.zero_le _
  · next slot hslot => exact edge_mono percentile (h slot (walk_mem hslot))

end Histogram

end LoadBench
