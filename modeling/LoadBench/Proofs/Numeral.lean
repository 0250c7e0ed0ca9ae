/-
  LoadBench.Proofs.Numeral

  The numerals of a user.  A numeral is read from just the texts that spell it: a sign or
  none, digits, and a point with more digits behind it or neither
  (`Decimal.Numeral.ofText?_eq_some_iff`).
-/

import LoadBench.Decimal.Numeral
import LoadBench.Proofs.Json.Number
import Mathlib.Algebra.Order.Field.Basic
import Mathlib.Algebra.Order.Ring.Rat

namespace LoadBench.Decimal.Numeral

/-- The number that a numeral spells. -/
def exact (numeral : Numeral) : ℚ :=
  Binary64.signed numeral.negative (Nat.ofDigitChars 10 (numeral.whole ++ numeral.fraction) 0) /
    10 ^ numeral.fraction.length

/-! ## Spellings -/

/-- What may stand in front of the digits. -/
def signs (negative : Bool) : List (List Char) := if negative then [['-']] else [[], ['+']]

/-- What may stand behind the whole digits: the point may be left out if nothing follows it. -/
def tails (fraction : List Char) : List (List Char) :=
  if fraction = [] then [[], ['.']] else ['.' :: fraction]

/-- A text that spells a numeral. -/
structure Spells (text : List Char) (numeral : Numeral) : Prop where
  text : ∃ sign ∈ signs numeral.negative, ∃ tail ∈ tails numeral.fraction,
    text = sign ++ (numeral.whole ++ tail)
  isDigit : ∀ c ∈ numeral.whole ++ numeral.fraction, c.isDigit = true
  ne_nil : numeral.whole ++ numeral.fraction ≠ []

theorem mem_signs {negative : Bool} {sign : List Char} (h : sign ∈ signs negative) :
    ∀ c ∈ sign, c = '-' ∨ c = '+' := by
  cases negative with
  | true =>
    rw [List.mem_singleton.mp h]
    exact fun c hc => Or.inl (List.mem_singleton.mp hc)
  | false =>
    rcases List.mem_cons.mp h with rfl | hplus
    · exact nofun
    · rw [List.mem_singleton.mp hplus]
      exact fun c hc => Or.inr (List.mem_singleton.mp hc)

theorem mem_tails {fraction tail : List Char} (h : tail ∈ tails fraction) :
    ∀ c ∈ tail, c = '.' ∨ c ∈ fraction := by
  unfold tails at h
  split at h <;> grind

/-- Nothing but digits, signs and points is in a numeral. -/
theorem Spells.mem {text : List Char} {numeral : Numeral} (h : Spells text numeral) {c : Char}
    (hc : c ∈ text) : c.isDigit = true ∨ (c = '-' ∨ c = '+') ∨ c = '.' := by
  obtain ⟨sign, hsign, tail, htail, rfl⟩ := h.text
  rcases List.mem_append.mp hc with hfront | hrest
  · exact Or.inr (Or.inl (mem_signs hsign c hfront))
  · rcases List.mem_append.mp hrest with hwhole | hlast
    · exact Or.inl (h.isDigit c (List.mem_append_left _ hwhole))
    · rcases mem_tails htail c hlast with hpoint | hfraction
      · exact Or.inr (Or.inr hpoint)
      · exact Or.inl (h.isDigit c (List.mem_append_right _ hfraction))

theorem Spells.text_ne_nil {text : List Char} {numeral : Numeral} (h : Spells text numeral) :
    text ≠ [] := by
  obtain ⟨sign, -, tail, htail, rfl⟩ := h.text
  intro hnil
  obtain ⟨-, hbody⟩ := List.append_eq_nil_iff.mp hnil
  obtain ⟨hwhole, rfl⟩ := List.append_eq_nil_iff.mp hbody
  -- Only without digits behind it is the point left out.
  have hfraction : numeral.fraction = [] := by
    unfold tails at htail
    split at htail <;> grind
  exact h.ne_nil (List.append_eq_nil_iff.mpr ⟨hwhole, hfraction⟩)

/-- A sign is split off whatever stands behind it. -/
theorem splitSign_spec (text : List Char) :
    ∃ sign ∈ signs (splitSign text).1, text = sign ++ (splitSign text).2 := by
  unfold splitSign
  split
  · exact ⟨['-'], List.mem_singleton_self _, rfl⟩
  · exact ⟨['+'], List.mem_cons_of_mem _ (List.mem_singleton_self _), rfl⟩
  · exact ⟨[], List.mem_cons_self, rfl⟩

theorem splitSign_append {negative : Bool} {sign body : List Char} (h : sign ∈ signs negative)
    (hbody : ∀ c ∈ body.head?, c ≠ '-' ∧ c ≠ '+') :
    splitSign (sign ++ body) = (negative, body) := by
  cases negative with
  | true =>
    rw [List.mem_singleton.mp h]
    rfl
  | false =>
    have hsign : sign = [] ∨ sign = ['+'] := by simpa [signs] using h
    rcases hsign with rfl | rfl
    · rw [List.nil_append]
      unfold splitSign
      split
      · exact absurd rfl (hbody _ rfl).1
      · exact absurd rfl (hbody _ rfl).2
      · rfl
    · rfl

theorem fractionOf?_eq_some_iff (text fraction : List Char) :
    fractionOf? text = some fraction ↔
      text ∈ tails fraction ∧ ∀ c ∈ fraction, c.isDigit = true := by
  unfold fractionOf? tails
  split
  · grind
  · grind
  · grind

theorem head?_tails {fraction tail : List Char} (h : tail ∈ tails fraction) :
    ∀ c ∈ tail.head?, c = '.' := by
  unfold tails at h
  split at h <;> grind

/-- Behind the sign of a numeral there is a digit or a point. -/
theorem head?_body {numeral : Numeral} {tail : List Char} (htail : tail ∈ tails numeral.fraction)
    (hdigits : ∀ c ∈ numeral.whole ++ numeral.fraction, c.isDigit = true) :
    ∀ c ∈ (numeral.whole ++ tail).head?, c ≠ '-' ∧ c ≠ '+' := by
  intro c hc
  have hcases : c.isDigit = true ∨ c = '.' := by
    cases hwhole : numeral.whole with
    | nil =>
      rw [hwhole, List.nil_append] at hc
      exact Or.inr (head?_tails htail c hc)
    | cons first others =>
      rw [hwhole] at hc hdigits
      cases hc
      exact Or.inl (hdigits _ List.mem_cons_self)
  constructor
  · rintro rfl
    revert hcases
    decide
  · rintro rfl
    revert hcases
    decide

/-- A numeral is read from the texts that spell it, and from no other one. -/
theorem ofText?_eq_some_iff (text : List Char) (numeral : Numeral) :
    ofText? text = some numeral ↔ Spells text numeral := by
  constructor
  · intro h
    obtain ⟨sign, hsign, htext⟩ := splitSign_spec text
    unfold ofText? at h
    dsimp only at h
    split at h
    · cases h
    · next fraction hfraction =>
      obtain ⟨htail, hdigits⟩ := (fractionOf?_eq_some_iff _ _).mp hfraction
      split at h
      · cases h
      · next hsome =>
        cases h
        refine ⟨⟨sign, hsign, _, htail, ?_⟩, fun c hc => ?_, hsome⟩
        · rw [List.takeWhile_append_dropWhile]
          exact htext
        · exact (List.mem_append.mp hc).elim List.mem_takeWhile_imp (hdigits c)
  · intro h
    obtain ⟨sign, hsign, tail, htail, rfl⟩ := h.text
    -- The scan of the sign stops before a digit or a point, and that of the digits before a point.
    have hpoint : ∀ c ∈ tail.head?, c.isDigit = false := by
      intro c hc
      rw [head?_tails htail c hc]
      rfl
    have hwhole : ∀ c ∈ numeral.whole, c.isDigit = true :=
      fun c hc => h.isDigit c (List.mem_append_left _ hc)
    have hfraction : fractionOf? tail = some numeral.fraction :=
      (fractionOf?_eq_some_iff _ _).mpr
        ⟨htail, fun c hc => h.isDigit c (List.mem_append_right _ hc)⟩
    unfold ofText?
    rw [splitSign_append hsign (head?_body htail h.isDigit)]
    dsimp only
    rw [Json.Number.takeWhile_digits hpoint hwhole, Json.Number.dropWhile_digits hpoint hwhole,
      hfraction]
    exact if_neg h.ne_nil

end LoadBench.Decimal.Numeral
