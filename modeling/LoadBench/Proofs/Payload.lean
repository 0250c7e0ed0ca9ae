/-
  LoadBench.Proofs.Payload

  Payloads are read back.  The format is read here as it is described, not as it
  is written: groups of seven bits up to a ninth byte of eight (`groupsOf?`), the
  signs (`unzigzag`), and a negative number for as many empty slots (`expand`).

  Whatever a histogram counts, below 2^63 in each slot, is what its payload is
  read as, slot by slot (`decode?_encode`).
-/

import LoadBench.Payload
import LoadBench.Proofs.Histogram
import Mathlib.Algebra.Group.Int.Defs

namespace LoadBench.Payload

/-! ## The format -/

/-- The number in some bytes, the highest first. -/
def ofBigEndian (bytes : List UInt8) : Nat :=
  bytes.foldl (fun value byte => value * 256 + byte.toNat) 0

/-- The numbers in groups of seven bits, the lowest first; what a number has come to so far, what
its next group counts, and how many groups may still follow. -/
def groupsOf? (more unit value : Nat) : List UInt8 → Option (List Nat)
  | [] => if more = 8 then some [] else none
  | byte :: rest =>
    -- The ninth byte of a number is its last, and has no mark.
    if more = 0 ∨ byte.toNat < 128 then
      (groupsOf? 8 1 0 rest).map ((value + unit * byte.toNat) :: ·)
    else groupsOf? (more - 1) (unit * 128) (value + unit * (byte.toNat - 128)) rest

/-- The integer that a natural number stands for. -/
def unzigzag (n : Nat) : Int := if n % 2 = 0 then (n / 2 : Nat) else -((n / 2 + 1 : Nat) : Int)

/-- The slots that numbers stand for: a negative one for as many empty slots. -/
def expand : List Int → List Nat
  | [] => []
  | n :: rest => if n < 0 then List.replicate (-n).toNat 0 ++ expand rest else n.toNat :: expand rest

/-- How long the header is. -/
def headerLength : Nat := 40

/-- The counts of the slots in a payload, from the first slot on. -/
def decode? (bytes : List UInt8) : Option (List Nat) :=
  let counts := bytes.drop headerLength
  if ofBigEndian (bytes.take 4) = cookie ∧ ofBigEndian ((bytes.drop 4).take 4) = counts.length then
    (groupsOf? 8 1 0 counts).map fun numbers => expand (numbers.map unzigzag)
  else none

/-! ## Numbers -/

theorem length_bigEndian (width n : Nat) : (bigEndian width n).length = width := by
  induction width generalizing n with
  | zero => rfl
  | succ width ih => rw [bigEndian, List.length_append, ih, List.length_singleton]

theorem ofBigEndian_bigEndian (width n : Nat) :
    ofBigEndian (bigEndian width n) = n % 256 ^ width := by
  induction width generalizing n with
  | zero => rw [Nat.pow_zero, Nat.mod_one]; rfl
  | succ width ih =>
    have hpow : 256 ^ (width + 1) = 256 * 256 ^ width := Nat.pow_succ'
    rw [bigEndian, ofBigEndian, List.foldl_concat, ← ofBigEndian, ih, UInt8.toNat_ofNat', hpow,
      Nat.mod_mul]
    omega

theorem unzigzag_zigzag (n : Int) : unzigzag (zigzag n) = n := by
  unfold unzigzag zigzag
  split <;> split <;> omega

/-- What is written in groups is read, whatever follows. -/
theorem groupsOf?_groups {more n : Nat} (h : n < 128 ^ more * 256) (unit value : Nat)
    (rest : List UInt8) :
    groupsOf? more unit value (groups more n ++ rest) =
      (groupsOf? 8 1 0 rest).map ((value + unit * n) :: ·) := by
  induction more generalizing n unit value with
  | zero =>
    have hbyte : (UInt8.ofNat n).toNat = n := by
      rw [UInt8.toNat_ofNat']
      omega
    rw [groups, List.singleton_append, groupsOf?, if_pos (Or.inl rfl), hbyte]
  | succ more ih =>
    unfold groups
    split
    · next hlast =>
      have hbyte : (UInt8.ofNat n).toNat = n := by
        rw [UInt8.toNat_ofNat']
        omega
      rw [List.singleton_append, groupsOf?, hbyte, if_pos (Or.inr hlast)]
    · next hmore =>
      have hbyte : (UInt8.ofNat (128 + n % 128)).toNat = 128 + n % 128 := by
        rw [UInt8.toNat_ofNat']
        omega
      have hnext : n / 128 < 128 ^ more * 256 := by
        rw [Nat.div_lt_iff_lt_mul (by decide)]
        rw [Nat.pow_succ] at h
        omega
      have hmarked : ¬(more + 1 = 0 ∨ 128 + n % 128 < 128) := by omega
      -- The groups that follow count a hundred and twenty-eight times as much.
      have hvalue : value + unit * (128 + n % 128 - 128) + unit * 128 * (n / 128) =
          value + unit * n := by
        rw [Nat.add_assoc, Nat.mul_assoc, ← Nat.mul_add, Nat.add_sub_cancel_left,
          Nat.mod_add_div]
      rw [List.cons_append, groupsOf?, hbyte, if_neg hmarked, Nat.add_sub_cancel, ih hnext, hvalue]

theorem length_groups_le (more n : Nat) : (groups more n).length ≤ more + 1 := by
  induction more generalizing n with
  | zero => exact Nat.le_refl _
  | succ more ih =>
    unfold groups
    split
    · exact Nat.succ_le_succ (Nat.zero_le _)
    · exact Nat.succ_le_succ (ih _)

/-- Whether a number is written in nine bytes at most. -/
def Fits (n : Int) : Prop := -2 ^ 63 < n ∧ n < 2 ^ 63

/-- Numbers are read as they were written. -/
theorem groupsOf?_numbers {numbers : List Int} (h : ∀ n ∈ numbers, Fits n) :
    (groupsOf? 8 1 0 (numbers.flatMap number)).map (List.map unzigzag) = some numbers := by
  induction numbers with
  | nil => rfl
  | cons n rest ih =>
    obtain ⟨hlow, hhigh⟩ := h n List.mem_cons_self
    have hzigzag : zigzag n < 128 ^ 8 * 256 := by
      unfold zigzag
      split <;> omega
    have hrest := ih fun other hother => h other (List.mem_cons_of_mem _ hother)
    obtain ⟨read, hread, hnumbers⟩ := Option.map_eq_some_iff.mp hrest
    rw [List.flatMap_cons, number, groupsOf?_groups hzigzag, hread, Option.map_some,
      Option.map_some, List.map_cons, hnumbers, Nat.zero_add, Nat.one_mul, unzigzag_zigzag]

/-! ## Slots -/

theorem expand_gap (length : Nat) (rest : List Int) :
    expand (gap length ++ rest) = List.replicate length 0 ++ expand rest := by
  unfold gap
  split
  · next hzero =>
    rw [hzero]
    rfl
  · split
    · next hone =>
      rw [hone]
      rfl
    · have hneg : -(length : Int) < 0 := by omega
      rw [List.singleton_append, expand, if_pos hneg, Int.neg_neg, Int.toNat_natCast]

theorem expand_count (count : Nat) (rest : List Int) :
    expand ((count : Int) :: rest) = count :: expand rest := by
  rw [expand, if_neg (by omega), Int.toNat_natCast]

/-- The slots of entries that ascend from a slot on. -/
theorem expand_numbers {next : Nat} {entries : List (Nat × Nat)}
    (hordered : entries.Pairwise fun one other => one.1 < other.1)
    (hnext : ∀ entry ∈ entries, next ≤ entry.1) (i : Nat) :
    (expand (numbers next entries)).getD i 0 = (Table.lookup (next + i) entries).getD 0 := by
  induction hordered generalizing next i with
  | nil => rfl
  | @cons entry rest hfirst _ ih =>
    obtain ⟨slot, count⟩ := entry
    have hslot : next ≤ slot := hnext _ List.mem_cons_self
    have hrest := @ih (slot + 1) (fun other hother => hfirst other hother)
    rw [numbers, expand_gap, expand_count, List.getD_eq_getElem?_getD, List.getElem?_append,
      List.length_replicate, Table.lookup]
    -- A slot is in the gap before the first entry, that of the entry, or behind it.
    rcases Nat.lt_trichotomy (next + i) slot with hbefore | hsame | hbehind
    · rw [if_pos (by omega), if_pos hbefore, List.getElem?_replicate]
      split <;> rfl
    · have hfound : i - (slot - next) = 0 := by omega
      rw [if_neg (by omega), hfound, if_neg (by omega), if_neg (by omega)]
      rfl
    · obtain ⟨j, hj⟩ : ∃ j, i - (slot - next) = j + 1 := ⟨i - (slot - next) - 1, by omega⟩
      have hplace : slot + 1 + j = next + i := by omega
      rw [if_neg (by omega), hj, if_neg (by omega), if_pos hbehind, ← hplace, ← hrest j,
        List.getD_eq_getElem?_getD, List.getElem?_cons_succ]

theorem sum_expand_numbers (next : Nat) (entries : List (Nat × Nat)) :
    (expand (numbers next entries)).sum = (entries.map Prod.snd).sum := by
  induction entries generalizing next with
  | nil => rfl
  | cons entry rest ih =>
    obtain ⟨slot, count⟩ := entry
    rw [numbers, expand_gap, expand_count, List.sum_append, List.sum_replicate_nat, List.sum_cons,
      ih, List.map_cons, List.sum_cons, Nat.mul_zero, Nat.zero_add]

theorem length_numbers_le (next : Nat) (entries : List (Nat × Nat)) :
    (numbers next entries).length ≤ 2 * entries.length := by
  induction entries generalizing next with
  | nil => exact Nat.le_refl _
  | cons entry rest ih =>
    obtain ⟨slot, count⟩ := entry
    have hrest := ih (slot + 1)
    have hgap : (gap (slot - next)).length ≤ 1 := by
      unfold gap
      split
      · exact Nat.zero_le _
      · split <;> exact Nat.le_refl _
    rw [numbers, List.length_append, List.length_cons, List.length_cons]
    omega

/-- Counts that fit, at slots that there are, are written in numbers that fit. -/
theorem fits_of_mem_numbers {next : Nat} {entries : List (Nat × Nat)}
    (hentries : ∀ entry ∈ entries, entry.1 < Histogram.slotCount ∧ entry.2 < 2 ^ 63) {n : Int}
    (hn : n ∈ numbers next entries) : Fits n := by
  induction entries generalizing next with
  | nil => cases hn
  | cons entry rest ih =>
    obtain ⟨slot, count⟩ := entry
    obtain ⟨hslot, hcount⟩ := hentries _ List.mem_cons_self
    rw [Histogram.slotCount] at hslot
    rcases List.mem_append.mp hn with hgap | htail
    · unfold gap at hgap
      split at hgap
      · cases hgap
      · split at hgap
        · rw [List.mem_singleton.mp hgap]
          exact ⟨by decide, by decide⟩
        · rw [List.mem_singleton.mp hgap]
          exact ⟨by dsimp only at hslot ⊢; omega, by omega⟩
    · rcases List.mem_cons.mp htail with rfl | hrest
      · exact ⟨by omega, by dsimp only at hcount ⊢; omega⟩
      · exact ih (fun other hother => hentries other (List.mem_cons_of_mem _ hother)) hrest

/-! ## The whole payload -/

variable {histogram : Histogram}

/-- The numbers of a histogram stand for its counts. -/
theorem expand_runs (h : histogram.Sparse) :
    (∀ slot, (expand (runs histogram)).getD slot 0 = histogram.countAt slot) ∧
      (expand (runs histogram)).sum = histogram.total := by
  obtain ⟨⟨entries⟩⟩ := histogram
  unfold runs
  split
  · next hempty =>
    obtain rfl : entries = [] := List.isEmpty_iff.mp hempty
    refine ⟨fun slot => ?_, rfl⟩
    cases slot <;> rfl
  · refine ⟨fun slot => ?_, ?_⟩
    · have hslot := expand_numbers h.ordered (fun _ _ => Nat.zero_le _) slot
      rw [Nat.zero_add] at hslot
      exact hslot
    · rw [sum_expand_numbers]
      rfl

theorem fits_of_mem_runs (h : histogram.Sparse)
    (hcounts : ∀ count ∈ histogram.counts.values, count < 2 ^ 63) {n : Int}
    (hn : n ∈ runs histogram) : Fits n := by
  unfold runs at hn
  split at hn
  · rw [List.mem_singleton.mp hn]
    exact ⟨by decide, by decide⟩
  · refine fits_of_mem_numbers (fun entry hentry => ⟨?_, ?_⟩) hn
    · exact h.slot_lt _ (List.mem_map_of_mem hentry)
    · exact hcounts _ (List.mem_map_of_mem hentry)

/-- The length of the counts has room in the header. -/
theorem length_counts_lt (h : histogram.Sparse) :
    ((runs histogram).flatMap number).length < 256 ^ 4 := by
  have hnumbers : ∀ numbers : List Int,
      (numbers.flatMap number).length ≤ 9 * numbers.length := by
    intro numbers
    induction numbers with
    | nil => exact Nat.le_refl _
    | cons n rest ih =>
      have hn : (number n).length ≤ 9 := length_groups_le 8 _
      rw [List.flatMap_cons, List.length_append, List.length_cons]
      omega
  have hruns : (runs histogram).length ≤ 1 + 2 * histogram.counts.entries.length := by
    unfold runs
    split
    · exact Nat.le_add_right _ _
    · exact Nat.le_trans (length_numbers_le 0 _) (Nat.le_add_left _ _)
  have hentries := h.length_le
  have hbytes := hnumbers (runs histogram)
  rw [Histogram.slotCount] at hentries
  omega

/-- A payload is read as the counts of its histogram, slot by slot. -/
theorem decode?_encode (h : histogram.Sparse)
    (hcounts : ∀ count ∈ histogram.counts.values, count < 2 ^ 63) :
    ∃ slots, decode? (encode histogram) = some slots ∧
      (∀ slot, slots.getD slot 0 = histogram.countAt slot) ∧ slots.sum = histogram.total := by
  obtain ⟨hslots, hsum⟩ := expand_runs h
  obtain ⟨read, hread, hruns⟩ := Option.map_eq_some_iff.mp
    (groupsOf?_numbers fun n hn => fits_of_mem_runs h hcounts hn)
  refine ⟨expand (runs histogram), ?_, hslots, hsum⟩
  obtain ⟨counts, hbytes⟩ : ∃ counts, (runs histogram).flatMap number = counts := ⟨_, rfl⟩
  have hlength := length_counts_lt h
  rw [hbytes] at hread hlength
  -- The header is as long as its fields.
  have hencode : encode histogram = bigEndian 4 cookie ++ (bigEndian 4 counts.length ++
      ((bigEndian 4 0 ++ bigEndian 4 3 ++ bigEndian 8 1 ++ bigEndian 8 Histogram.ceiling ++
        bigEndian 8 (Binary64.ofNat 1).toBits.toNat) ++ counts)) := by
    rw [encode, hbytes]
    simp only [List.append_assoc]
  have hfront : (encode histogram).take 4 = bigEndian 4 cookie := by
    rw [hencode, List.take_left' (length_bigEndian 4 _)]
  have hbehind : ((encode histogram).drop 4).take 4 = bigEndian 4 counts.length := by
    rw [hencode, List.drop_left' (length_bigEndian 4 _), List.take_left' (length_bigEndian 4 _)]
  have hcountsPart : (encode histogram).drop headerLength = counts := by
    rw [hencode, ← List.append_assoc, ← List.append_assoc]
    refine List.drop_left' ?_
    simp only [List.length_append, length_bigEndian]
    rfl
  unfold decode?
  simp only [hfront, hbehind, hcountsPart, ofBigEndian_bigEndian]
  rw [if_pos ⟨rfl, Nat.mod_eq_of_lt hlength⟩, hread, Option.map_some, hruns]

end LoadBench.Payload
