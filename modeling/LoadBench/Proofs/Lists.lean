/-
  LoadBench.Proofs.Lists

  Lists and sums that change in one place, and lists that are read value by value.
-/

import Mathlib.Algebra.BigOperators.Group.Finset.Piecewise
import Mathlib.Algebra.GroupWithZero.Nat
import Mathlib.Algebra.Order.BigOperators.Group.Finset
import Mathlib.Data.List.GetD
import Mathlib.Data.List.TakeWhile

namespace LoadBench

/-- Where one value of a list has changed, a value that is found is the new one, or was there
before. -/
theorem eq_or_of_getElem?_set {β : Type} {values : List β} {i j : Nat} {value found : β}
    (h : (values.set i value)[j]? = some found) :
    i = j ∧ value = found ∨ i ≠ j ∧ values[j]? = some found := by
  rw [List.getElem?_set] at h
  by_cases hsame : i = j
  · rw [if_pos hsame] at h
    split at h
    · exact Or.inl ⟨hsame, Option.some.inj h⟩
    · cases h
  · rw [if_neg hsame] at h
    exact Or.inr ⟨hsame, h⟩

theorem getD_set {β : Type} {values : List β} {place : Nat} (h : place < values.length) (value : β)
    (other : Nat) (fallback : β) :
    (values.set place value).getD other fallback =
      if other = place then value else values.getD other fallback := by
  rw [List.getD_eq_getElem?_getD, List.getElem?_set, List.getD_eq_getElem?_getD]
  by_cases hother : other = place
  · subst hother
    simp [h]
  · rw [if_neg (Ne.symm hother), if_neg hother]

section

variable {α : Type} {p : α → Bool} {front rest : List α} (hrest : ∀ a ∈ rest.head?, p a = false)

include hrest

/-- What is taken from the front ends where the rest begins. -/
theorem takeWhile_append_eq (hfront : ∀ a ∈ front, p a = true) :
    (front ++ rest).takeWhile p = front := by
  rw [List.takeWhile_append_of_pos hfront]
  cases rest with
  | nil => exact List.append_nil front
  | cons a others =>
    rw [List.takeWhile_cons, hrest a rfl]
    exact List.append_nil front

theorem dropWhile_append_eq (hfront : ∀ a ∈ front, p a = true) :
    (front ++ rest).dropWhile p = rest := by
  rw [List.dropWhile_append_of_pos hfront]
  cases rest with
  | nil => rfl
  | cons a others =>
    rw [List.dropWhile_cons, hrest a rfl]
    rfl

end

/-- A list whose every value is read is read as a whole. -/
theorem mapM_map_eq_some {α β γ : Type} {read : β → Option γ} {write : α → β} {shown : α → γ}
    {values : List α} (h : ∀ value ∈ values, read (write value) = some (shown value)) :
    (values.map write).mapM read = some (values.map shown) := by
  induction values with
  | nil => rfl
  | cons value rest ih =>
    rw [List.map_cons, List.mapM_cons, h value List.mem_cons_self,
      ih fun other hother => h other (List.mem_cons_of_mem _ hother)]
    rfl

/-- A sum changes by what changes in its one changed place. -/
theorem sum_range_change {n place : Nat} {f g : Nat → Nat} (hplace : place < n)
    (h : ∀ other, other ≠ place → g other = f other) :
    (∑ i ∈ Finset.range n, g i) + f place = (∑ i ∈ Finset.range n, f i) + g place := by
  have hmem : place ∈ Finset.range n := Finset.mem_range.mpr hplace
  have hrest : ∑ i ∈ (Finset.range n).erase place, g i = ∑ i ∈ (Finset.range n).erase place, f i :=
    Finset.sum_congr rfl fun i hi => h i (Finset.ne_of_mem_erase hi)
  have hg := Finset.add_sum_erase (Finset.range n) (fun i => g i) hmem
  have hf := Finset.add_sum_erase (Finset.range n) (fun i => f i) hmem
  rw [← hg, ← hf, hrest]
  omega

theorem sum_map_set {β : Type} {values : List β} {index : Nat} {before : β}
    (h : values[index]? = some before) (after : β) (f : β → Nat) :
    ((values.set index after).map f).sum + f before = (values.map f).sum + f after := by
  obtain ⟨hlt, hget⟩ := List.getElem?_eq_some_iff.mp h
  obtain ⟨front, back, hsplit, -, hset⟩ := List.exists_of_set hlt
  rw [hget] at hsplit
  rw [hset, hsplit]
  simp only [List.map_append, List.map_cons, List.sum_append, List.sum_cons]
  omega

/-- Those counted change with the one that changes. -/
theorem countP_set_add {β : Type} {values : List β} {index : Nat} {before : β}
    (h : values[index]? = some before) (after : β) (p : β → Bool) :
    (values.set index after).countP p + (p before).toNat =
      values.countP p + (p after).toNat := by
  obtain ⟨hlt, hget⟩ := List.getElem?_eq_some_iff.mp h
  obtain ⟨front, back, hsplit, -, hset⟩ := List.exists_of_set hlt
  rw [hget] at hsplit
  rw [hset, hsplit]
  simp only [List.countP_append, List.countP_cons]
  cases p before <;> cases p after <;>
    simp only [Bool.toNat_false, Bool.toNat_true, if_true, if_false, Bool.false_eq_true] <;> omega

/-- The sum over a list is that over its places. -/
theorem sum_map_eq_sum_range {β : Type} (values : List β) (f : β → Nat) :
    (values.map f).sum = ∑ i ∈ Finset.range values.length, (values[i]?.map f).getD 0 := by
  induction values with
  | nil => rfl
  | cons value rest ih =>
    rw [List.map_cons, List.sum_cons, List.length_cons, Finset.sum_range_succ', ih, Nat.add_comm]
    rfl

/-- Those counted are among those counted for one of the keys. -/
theorem countP_le_sum {β : Type} {values : List β} {p q : β → Bool} {key : β → Nat} {n : Nat}
    (h : ∀ value ∈ values, p value = true → q value = true ∧ key value < n) :
    values.countP p ≤
      ∑ i ∈ Finset.range n, values.countP fun value => decide (key value = i) && q value := by
  induction values with
  | nil => exact Nat.zero_le _
  | cons value rest ih =>
    have hrest := ih fun other hother => h other (List.mem_cons_of_mem _ hother)
    simp only [List.countP_cons, Finset.sum_add_distrib]
    refine Nat.add_le_add hrest ?_
    split
    · next hp =>
      -- The value itself is counted for its own key.
      obtain ⟨hq, hkey⟩ := h value List.mem_cons_self hp
      refine le_trans (le_of_eq ?_)
        (Finset.single_le_sum (fun _ _ => Nat.zero_le _) (Finset.mem_range.mpr hkey))
      rw [hq, decide_eq_true rfl]
      rfl
    · exact Nat.zero_le _

/-- Values are counted once each, if every one has a key. -/
theorem sum_countP_eq {β : Type} {values : List β} {key : β → Nat} {n : Nat}
    (h : ∀ value ∈ values, key value < n) :
    ∑ i ∈ Finset.range n, values.countP (fun value => key value = i) = values.length := by
  induction values with
  | nil => exact Finset.sum_const_zero
  | cons value rest ih =>
    obtain ⟨hvalue, hrest⟩ := List.forall_mem_cons.mp h
    simp only [List.countP_cons, decide_eq_true_eq, Finset.sum_add_distrib, ih hrest,
      Finset.sum_ite_eq, Finset.mem_range, hvalue, if_true, List.length_cons]

end LoadBench
