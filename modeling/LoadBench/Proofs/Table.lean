/-
  LoadBench.Proofs.Table

  Changing the value under one key of a table.  Under that key the new value is
  found, and under every other key what was found before (`get?_alter_self`,
  `get?_alter_ne`); the keys stay ascending, and changes under two keys come to the
  same in either order (`alter_comm`).  A table is that of its entries
  (`Ordered.ofList_entries`).
-/

import LoadBench.Table
import Mathlib.Algebra.GroupWithZero.Nat
import Mathlib.Data.List.Basic
import Mathlib.Data.List.Induction

namespace LoadBench

namespace Table

variable {κ ν : Type} [LT κ] [DecidableLT κ]

/-! ## Sums over the values -/

/-- A change that makes the weight of a value greater by an amount, an absent value weighing
nothing, makes the sum of all weights greater by it. -/
theorem sum_alter {weight : ν → Nat} {f : Option ν → ν} {added : Nat}
    (hf : ∀ before, weight (f before) = before.elim 0 weight + added) (table : Table κ ν)
    (key : κ) :
    ((table.alter key f).values.map weight).sum = (table.values.map weight).sum + added := by
  obtain ⟨entries⟩ := table
  show (((alterEntries key f entries).map Prod.snd).map weight).sum =
    ((entries.map Prod.snd).map weight).sum + added
  induction entries with
  | nil =>
    have hnone := hf none
    simp only [alterEntries, List.map_cons, List.map_nil, List.sum_cons, List.sum_nil,
      Option.elim_none] at hnone ⊢
    omega
  | cons entry rest ih =>
    obtain ⟨k, value⟩ := entry
    unfold alterEntries
    split
    · have hnone := hf none
      simp only [List.map_cons, List.sum_cons, Option.elim_none] at hnone ⊢
      omega
    · split
      · simp only [List.map_cons, List.sum_cons, ih]
        omega
      · have hsome := hf (some value)
        simp only [List.map_cons, List.sum_cons, Option.elim_some] at hsome ⊢
        omega

theorem ofList_concat (pairs : List (κ × ν)) (pair : κ × ν) :
    ofList (pairs ++ [pair]) = (ofList pairs).insert pair.1 pair.2 :=
  List.foldl_concat ..

/-! ## What holds of all values -/

theorem forall_values_alter {p : ν → Prop} {table : Table κ ν} (h : ∀ value ∈ table.values, p value)
    {f : Option ν → ν} (hf : ∀ before, (∀ value ∈ before, p value) → p (f before)) (key : κ) :
    ∀ value ∈ (table.alter key f).values, p value := by
  obtain ⟨entries⟩ := table
  change ∀ value ∈ entries.map Prod.snd, p value at h
  show ∀ value ∈ (alterEntries key f entries).map Prod.snd, p value
  induction entries with
  | nil => exact List.forall_mem_singleton.mpr (hf none nofun)
  | cons entry rest ih =>
    obtain ⟨k, first⟩ := entry
    obtain ⟨hfirst, hrest⟩ := List.forall_mem_cons.mp h
    unfold alterEntries
    split
    · exact List.forall_mem_cons.mpr ⟨hf none nofun, h⟩
    · split
      · exact List.forall_mem_cons.mpr ⟨hfirst, ih hrest⟩
      · refine List.forall_mem_cons.mpr ⟨hf (some first) ?_, hrest⟩
        rintro value ⟨⟩
        exact hfirst

theorem forall_values_ofList {p : ν → Prop} {pairs : List (κ × ν)}
    (h : ∀ pair ∈ pairs, p pair.2) : ∀ value ∈ (ofList pairs).values, p value := by
  induction pairs using List.reverseRecOn with
  | nil => exact nofun
  | append_singleton pairs pair ih =>
    rw [ofList_concat]
    refine forall_values_alter (ih fun other hother => h other (List.mem_append_left _ hother))
      (fun _ _ => h pair ?_) _
    exact List.mem_append_right _ (List.mem_singleton.mpr rfl)

/-! ## Changed values -/

section

variable {μ : Type} (f : ν → μ) (table : Table κ ν)

omit [LT κ] [DecidableLT κ] in
@[simp] theorem keys_map : (table.map f).keys = table.keys := List.map_map

omit [LT κ] [DecidableLT κ] in
@[simp] theorem values_map : (table.map f).values = table.values.map f := by
  unfold map mapEntries values
  rw [List.map_map, List.map_map]
  rfl

omit [DecidableLT κ] in
theorem Ordered.map {table : Table κ ν} (h : table.Ordered) (f : ν → μ) :
    (table.map f).Ordered :=
  List.pairwise_map.mpr h

@[simp] theorem get?_map (key : κ) : (table.map f).get? key = (table.get? key).map f := by
  obtain ⟨entries⟩ := table
  show lookup key (entries.map fun entry => (entry.1, f entry.2)) = (lookup key entries).map f
  induction entries with
  | nil => rfl
  | cons entry rest ih =>
    obtain ⟨k, value⟩ := entry
    rw [List.map_cons, lookup, lookup, ih]
    split
    · rfl
    · split <;> rfl

end

/-! ## One key -/

section

variable [LE κ] [Std.LawfulOrderLT κ]

theorem get?_alter_self (table : Table κ ν) (key : κ) (f : Option ν → ν) :
    (table.alter key f).get? key = some (f (table.get? key)) := by
  obtain ⟨entries⟩ := table
  show lookup key (alterEntries key f entries) = some (f (lookup key entries))
  induction entries with
  | nil => simp [alterEntries, lookup, Std.lt_irrefl]
  | cons entry rest ih =>
    obtain ⟨k, value⟩ := entry
    -- The key comes before the first entry, behind it, or is its key.
    by_cases hbefore : key < k
    · simp [alterEntries, lookup, hbefore, Std.lt_irrefl]
    · by_cases hbehind : k < key
      · simpa [alterEntries, lookup, hbefore, hbehind] using ih
      · simp [alterEntries, lookup, hbefore, hbehind]

theorem alterEntries_alterEntries_self (key : κ) (f g : Option ν → ν) (entries : List (κ × ν)) :
    alterEntries key g (alterEntries key f entries) =
      alterEntries key (fun before => g (some (f before))) entries := by
  induction entries with
  | nil => simp [alterEntries, Std.lt_irrefl]
  | cons entry rest ih =>
    obtain ⟨k, value⟩ := entry
    by_cases hbefore : key < k
    · simp [alterEntries, hbefore, Std.lt_irrefl]
    · by_cases hbehind : k < key
      · simpa [alterEntries, hbefore, hbehind] using ih
      · simp [alterEntries, hbefore, hbehind]

/-- Two changes under one key are one change. -/
theorem alter_alter_self (table : Table κ ν) (key : κ) (f g : Option ν → ν) :
    (table.alter key f).alter key g = table.alter key fun before => g (some (f before)) :=
  congrArg Table.mk (alterEntries_alterEntries_self key f g table.entries)

/-- In an ordered table every entry is found under its key. -/
theorem Ordered.get?_of_mem {table : Table κ ν} (h : table.Ordered) {key : κ} {value : ν}
    (hmem : (key, value) ∈ table.entries) : table.get? key = some value := by
  obtain ⟨entries⟩ := table
  have hentries : entries.Pairwise fun one other => one.1 < other.1 := h
  change (key, value) ∈ entries at hmem
  show lookup key entries = some value
  clear h
  induction hentries with
  | nil => exact absurd hmem List.not_mem_nil
  | @cons entry rest hfirst _ ih =>
    obtain ⟨k, first⟩ := entry
    rcases List.mem_cons.mp hmem with hhead | hrest
    · obtain ⟨rfl, rfl⟩ := Prod.mk.inj hhead
      simp [lookup, Std.lt_irrefl]
    · have hbehind : k < key := hfirst _ hrest
      have hnot : ¬ key < k := Std.not_gt_of_lt hbehind
      simp only [lookup, hnot, hbehind, if_true, if_false]
      exact ih hrest

omit [DecidableLT κ] in
theorem Ordered.nodup_keys {table : Table κ ν} (h : table.Ordered) : table.keys.Nodup := by
  refine List.pairwise_map.mpr (h.imp fun {one other} hlt hsame => ?_)
  rw [hsame] at hlt
  exact Std.lt_irrefl hlt

theorem alterEntries_last {key : κ} {entries : List (κ × ν)}
    (h : ∀ entry ∈ entries, entry.1 < key) (f : Option ν → ν) :
    alterEntries key f entries = entries ++ [(key, f none)] := by
  induction entries with
  | nil => rfl
  | cons entry rest ih =>
    obtain ⟨k, value⟩ := entry
    have hlt : k < key := h _ List.mem_cons_self
    rw [alterEntries, if_neg (Std.not_gt_of_lt hlt), if_pos hlt,
      ih fun other hother => h other (List.mem_cons_of_mem _ hother), List.cons_append]

/-- An ordered table is that of its entries. -/
theorem Ordered.ofList_entries {table : Table κ ν} (h : table.Ordered) :
    ofList table.entries = table := by
  obtain ⟨entries⟩ := table
  have hentries : entries.Pairwise fun one other => one.1 < other.1 := h
  show ofList entries = ⟨entries⟩
  clear h
  induction entries using List.reverseRecOn with
  | nil => rfl
  | append_singleton entries entry ih =>
    obtain ⟨hfront, -, hlast⟩ := List.pairwise_append.mp hentries
    rw [ofList_concat, ih hfront]
    exact congrArg mk (alterEntries_last (fun other hother =>
      hlast other hother entry (List.mem_singleton.mpr rfl)) _)

end

/-! ## Two keys -/

section

variable [LE κ] [Std.IsLinearOrder κ] [Std.LawfulOrderLT κ]

omit [DecidableLT κ] in
theorem eq_of_not_lt {one other : κ} (h : ¬ one < other) (h' : ¬ other < one) : one = other := by
  rcases Std.lt_trichotomy one other with hlt | heq | hlt
  · exact absurd hlt h
  · exact heq
  · exact absurd hlt h'

/-- What is found under a key is an entry with that key. -/
theorem mem_of_get? {table : Table κ ν} {key : κ} {value : ν}
    (h : table.get? key = some value) : (key, value) ∈ table.entries := by
  obtain ⟨entries⟩ := table
  change lookup key entries = some value at h
  show (key, value) ∈ entries
  induction entries with
  | nil => cases h
  | cons entry rest ih =>
    obtain ⟨k, first⟩ := entry
    unfold lookup at h
    split at h
    · cases h
    · split at h
      · exact List.mem_cons_of_mem _ (ih h)
      · have hsame : key = k := eq_of_not_lt ‹_› ‹_›
        rw [hsame, ← Option.some.inj h]
        exact List.mem_cons_self

theorem get?_alter_ne (table : Table κ ν) {key other : κ} (hne : other ≠ key)
    (f : Option ν → ν) : (table.alter key f).get? other = table.get? other := by
  obtain ⟨entries⟩ := table
  show lookup other (alterEntries key f entries) = lookup other entries
  have hfar : ¬ (¬ other < key ∧ ¬ key < other) := fun h => hne (eq_of_not_lt h.1 h.2)
  induction entries with
  | nil =>
    simp only [alterEntries, lookup]
    grind
  | cons entry rest ih =>
    obtain ⟨k, value⟩ := entry
    by_cases hbefore : key < k
    · -- The new entry is passed over like one that is not there.
      simp only [alterEntries, hbefore, if_true, lookup]
      grind
    · by_cases hbehind : k < key
      · simp only [alterEntries, hbefore, hbehind, if_true, if_false, lookup, ih]
      · simp only [alterEntries, hbefore, hbehind, if_false, lookup]
        grind

theorem mem_keys_alter (table : Table κ ν) (key other : κ) (f : Option ν → ν) :
    other ∈ (table.alter key f).keys ↔ other = key ∨ other ∈ table.keys := by
  obtain ⟨entries⟩ := table
  show other ∈ (alterEntries key f entries).map Prod.fst ↔
    other = key ∨ other ∈ entries.map Prod.fst
  induction entries with
  | nil => simp [alterEntries]
  | cons entry rest ih =>
    obtain ⟨k, value⟩ := entry
    unfold alterEntries
    split
    · simp
    · split
      · rw [List.map_cons, List.mem_cons, ih, List.map_cons, List.mem_cons]
        exact or_left_comm
      · have hsame : key = k := eq_of_not_lt ‹_› ‹_›
        simp [hsame]

theorem Ordered.alter {table : Table κ ν} (h : table.Ordered) (key : κ) (f : Option ν → ν) :
    (table.alter key f).Ordered := by
  obtain ⟨entries⟩ := table
  have hentries : entries.Pairwise fun one other => one.1 < other.1 := h
  show (alterEntries key f entries).Pairwise fun one other => one.1 < other.1
  clear h
  induction hentries with
  | nil => exact List.pairwise_singleton _ _
  | @cons entry rest hfirst hrest ih =>
    obtain ⟨k, value⟩ := entry
    unfold alterEntries
    split
    · rename_i hbefore
      refine List.Pairwise.cons ?_ (List.Pairwise.cons hfirst hrest)
      intro entry hentry
      rcases List.mem_cons.mp hentry with rfl | hentry
      · exact hbefore
      · exact Std.lt_trans hbefore (hfirst entry hentry)
    · split
      · rename_i hbehind
        refine List.Pairwise.cons (fun entry hentry => ?_) ih
        -- The keys of the rest are those it had and the one that was changed.
        have hkey := (mem_keys_alter ⟨rest⟩ key entry.1 f).mp (List.mem_map_of_mem hentry)
        rcases hkey with hkey | hkey
        · exact hkey ▸ hbehind
        · obtain ⟨before, hbefore, hsame⟩ := List.mem_map.mp hkey
          exact hsame ▸ hfirst before hbefore
      · exact List.Pairwise.cons hfirst hrest

theorem alterEntries_comm {one other : κ} (hne : one ≠ other) (f g : Option ν → ν)
    (entries : List (κ × ν)) :
    alterEntries other g (alterEntries one f entries) =
      alterEntries one f (alterEntries other g entries) := by
  have hfar : ¬ (¬ one < other ∧ ¬ other < one) := fun h => hne (eq_of_not_lt h.1 h.2)
  induction entries with
  | nil =>
    simp only [alterEntries]
    grind
  | cons entry rest ih =>
    obtain ⟨k, value⟩ := entry
    -- Each of the two keys comes before the first entry, behind it, or is its key.
    rcases Std.lt_trichotomy one k with hone | hone | hone <;>
      rcases Std.lt_trichotomy other k with hother | hother | hother <;> grind [alterEntries]

/-- Changes under two keys come to the same in either order. -/
theorem alter_comm (table : Table κ ν) {one other : κ} (hne : one ≠ other)
    (f g : Option ν → ν) :
    (table.alter one f).alter other g = (table.alter other g).alter one f :=
  congrArg Table.mk (alterEntries_comm hne f g table.entries)

/-! ## Tables of lists -/

theorem ordered_ofList (pairs : List (κ × ν)) : (ofList pairs).Ordered := by
  induction pairs using List.reverseRecOn with
  | nil => exact List.Pairwise.nil
  | append_singleton pairs pair ih =>
    rw [ofList_concat]
    exact ih.alter _ _

theorem mem_keys_ofList (pairs : List (κ × ν)) (key : κ) :
    key ∈ (ofList pairs).keys ↔ key ∈ pairs.map Prod.fst := by
  induction pairs using List.reverseRecOn with
  | nil => exact Iff.rfl
  | append_singleton pairs pair ih =>
    rw [ofList_concat, insert, mem_keys_alter, ih, List.map_append, List.mem_append,
      List.map_singleton, List.mem_singleton, or_comm]

/-- Of pairs with different keys every one is found. -/
theorem get?_ofList {pairs : List (κ × ν)} (h : (pairs.map Prod.fst).Nodup) {key : κ} {value : ν}
    (hmem : (key, value) ∈ pairs) : (ofList pairs).get? key = some value := by
  induction pairs using List.reverseRecOn with
  | nil => cases hmem
  | append_singleton pairs pair ih =>
    rw [List.map_append, List.map_singleton] at h
    obtain ⟨hpairs, -, hapart⟩ := List.nodup_append.mp h
    rw [ofList_concat]
    rcases List.mem_append.mp hmem with hbefore | hlast
    · have hne := hapart key (List.mem_map_of_mem hbefore) pair.1 (List.mem_singleton.mpr rfl)
      exact (get?_alter_ne _ hne _).trans (ih hpairs hbefore)
    · obtain rfl := List.mem_singleton.mp hlast
      exact get?_alter_self _ _ _

end

end Table

end LoadBench
