/-
  LoadBench.Proofs.Text.Blank

  Texts between white space.  Trimming takes white space away and nothing else
  (`exists_trim`), and takes all of it (`trim_append`).
-/

import LoadBench.Proofs.Lists
import LoadBench.Text.Blank

namespace LoadBench.Text

/-- A text of white space. -/
def Blank (text : List Char) : Prop := ∀ c ∈ text, isBlank c = true

theorem blank_nil : Blank [] := nofun

theorem Blank.append {text more : List Char} (h : Blank text) (hmore : Blank more) :
    Blank (text ++ more) := by
  intro c hc
  rcases List.mem_append.mp hc with htext | hrest
  · exact h c htext
  · exact hmore c hrest

/-- A text without white space at its two ends. -/
structure Trimmed (text : List Char) : Prop where
  head : ∀ c ∈ text.head?, isBlank c = false
  last : ∀ c ∈ text.getLast?, isBlank c = false

/-- Visible characters of ASCII are not white space. -/
theorem isBlank_of_visible {c : Char} (hlow : 0x21 ≤ c.toNat) (hhigh : c.toNat ≤ 0x7E) :
    isBlank c = false := by
  have hranges : ∀ range ∈ blankRanges, range.2 < 0x21 ∨ 0x7E < range.1 := by decide
  rw [isBlank, List.any_eq_false]
  intro range hrange
  have hapart := hranges range hrange
  rw [Bool.and_eq_true, decide_eq_true_eq, decide_eq_true_eq]
  omega

/-! ## Trimming -/

/-- Trimming takes away nothing but white space. -/
theorem exists_trim (text : List Char) :
    ∃ before after, Blank before ∧ Blank after ∧ text = before ++ (trim text ++ after) := by
  have hfront := List.takeWhile_append_dropWhile (l := text) (p := isBlank)
  have hback := congrArg List.reverse
    (List.takeWhile_append_dropWhile (l := (text.dropWhile isBlank).reverse) (p := isBlank))
  rw [List.reverse_append, List.reverse_reverse] at hback
  refine ⟨text.takeWhile isBlank,
    ((text.dropWhile isBlank).reverse.takeWhile isBlank).reverse, ?_, ?_, ?_⟩
  · intro c hc
    exact List.mem_takeWhile_imp hc
  · intro c hc
    exact List.mem_takeWhile_imp (List.mem_reverse.mp hc)
  · rw [trim, trimRight, hback]
    exact hfront.symm

theorem trimRight_append {text after : List Char} (hafter : Blank after)
    (h : ∀ c ∈ text.getLast?, isBlank c = false) : trimRight (text ++ after) = text := by
  have hback : (after.reverse ++ text.reverse).dropWhile isBlank = text.reverse := by
    apply dropWhile_append_eq
    · rwa [List.head?_reverse]
    · intro c hc
      exact hafter c (List.mem_reverse.mp hc)
  rw [trimRight, List.reverse_append, hback, List.reverse_reverse]

/-- Trimming takes away all white space at the two ends. -/
theorem trim_append {before text after : List Char} (hbefore : Blank before)
    (hafter : Blank after) (h : Trimmed text) : trim (before ++ (text ++ after)) = text := by
  cases text with
  | nil =>
    -- There is nothing to stop at, so the first pass takes all of it.
    have hall : (before ++ ([] ++ after)).dropWhile isBlank = [] :=
      List.dropWhile_eq_nil_iff.mpr (hbefore.append hafter)
    rw [trim, hall]
    rfl
  | cons first others =>
    have hfront : (before ++ (first :: others ++ after)).dropWhile isBlank =
        first :: others ++ after := dropWhile_append_eq h.head hbefore
    rw [trim, hfront]
    exact trimRight_append hafter h.last

theorem trim_of_trimmed {text : List Char} (h : Trimmed text) : trim text = text := by
  have htrim := trim_append blank_nil blank_nil h
  rwa [List.nil_append, List.append_nil] at htrim

end LoadBench.Text
