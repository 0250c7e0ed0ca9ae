/-
  LoadBench.Proofs.Units

  Doubles by their units.  A finite double that is not below zero is `Counted`: its units
  need no more bits than there are.  Every pattern of 64 bits stands for such a double, and
  so does every rounded quotient within the range (`counted_round`); from 2^52 on they are
  whole numbers (`Counted.one_dvd`).
-/

import LoadBench.Proofs.Ranks
import Mathlib.Algebra.Order.Field.Basic
import Mathlib.Algebra.Order.Ring.Rat

namespace LoadBench

namespace Binary64

/-- The number that a finite double stands for. -/
def exact (x : Binary64) : ℚ := x.place / one

theorem signed_of_zero {negative : Bool} {magnitude : Nat}
    (h : negative = true → magnitude = 0) : signed negative magnitude = magnitude := by
  cases negative with
  | true =>
    rw [h rfl]
    rfl
  | false => rfl

/-! ## Doubles in units -/

/-- A finite double that is not below zero, of so many units. -/
structure Counted (x : Binary64) (units : Nat) : Prop where
  finite : ∃ negative mantissa exponent, x = .finite negative mantissa exponent ∧
    mantissa * 2 ^ exponent = units ∧ (negative = true → units = 0)
  /-- The units need no more bits than there are. -/
  fits : 2 ^ exponentOf units ∣ units
  range : units < 2 ^ 2098

variable {x : Binary64} {units : Nat}

theorem Counted.place_eq (h : Counted x units) : x.place = units := by
  obtain ⟨negative, mantissa, exponent, rfl, hunits, hsign⟩ := h.finite
  rw [← hunits] at hsign ⊢
  exact signed_of_zero hsign

theorem Counted.ne_nan (h : Counted x units) : x ≠ .nan := by
  obtain ⟨negative, mantissa, exponent, rfl, -⟩ := h.finite
  exact nofun

theorem Counted.isFinite_eq (h : Counted x units) : x.isFinite = true := by
  obtain ⟨negative, mantissa, exponent, rfl, -⟩ := h.finite
  rfl

theorem Counted.lt_zero_eq (h : Counted x units) : lt x zero = false := by
  rw [Bool.eq_false_iff, ne_eq, lt_iff, h.place_eq]
  exact fun hlt => absurd hlt.2.2 (Int.not_lt.mpr (Int.natCast_nonneg units))

/-- A finite double that is not below zero is at least zero. -/
theorem le_zero_of_lt_eq (hfinite : x.isFinite = true) (h : lt x zero = false) :
    le zero x = true := by
  have hnan : x ≠ .nan := by
    rintro rfl
    cases hfinite
  refine (le_iff _ _).mpr ⟨nofun, hnan, Int.not_lt.mp fun hlt => ?_⟩
  have htrue : lt x zero = true := (lt_iff _ _).mpr ⟨hnan, nofun, hlt⟩
  rw [h] at htrue
  cases htrue

theorem Counted.exact_eq (h : Counted x units) : x.exact = units / one := by
  rw [Binary64.exact, h.place_eq]
  rfl

/-- Every pattern of 64 bits stands for a number in normal form. -/
theorem normal_ofBits (bits : UInt64) : (ofBits bits).Normal := by
  have hfraction : bits.toNat % Nat.pow 2 52 < Nat.pow 2 52 := Nat.mod_lt _ (by decide)
  have hbiased : bits.toNat / Nat.pow 2 52 % Nat.pow 2 11 < Nat.pow 2 11 :=
    Nat.mod_lt _ (by decide)
  have hbits : Nat.pow 2 53 = 2 * Nat.pow 2 52 := by decide
  have hmost : Nat.pow 2 11 = 2048 := by decide
  unfold ofBits
  dsimp only
  split
  · split <;> trivial
  · split
    · exact ⟨by omega, Nat.zero_le _, nofun⟩
    · exact ⟨by omega, by omega, fun _ => Nat.le_add_right _ _⟩

/-- What is in normal form needs no more bits than there are. -/
theorem counted_of_normal (hnormal : x.Normal) (hfinite : x.isFinite = true)
    (h : le zero x = true) : Counted x x.units := by
  obtain ⟨-, -, hplace⟩ := (le_iff _ _).mp h
  cases x with
  | nan => cases hfinite
  | infinite negative => cases hfinite
  | finite negative mantissa exponent =>
    obtain ⟨hmantissa, hexponent, -⟩ := hnormal
    have hunits : mantissa * 2 ^ exponent < 2 ^ (53 + exponent) := by
      rw [pow_add]
      exact Nat.mul_lt_mul_of_pos_right hmantissa (Nat.two_pow_pos exponent)
    refine ⟨⟨negative, mantissa, exponent, rfl, rfl, ?_⟩, ?_, ?_⟩
    · rintro rfl
      exact Int.ofNat_eq_zero.mp (Int.le_antisymm (Int.neg_nonneg.mp hplace) (Int.natCast_nonneg _))
    · -- The exponent that the units ask for is no greater than the one that the number has.
      have hless := exponentOf_lt hunits (by omega)
      refine Nat.dvd_mul_left_of_dvd (two_pow_dvd ?_) mantissa
      show exponentOf (mantissa * 2 ^ exponent) ≤ exponent
      omega
    · exact Nat.lt_of_lt_of_le hunits (two_pow_le (by omega))

theorem normal_round (negative : Bool) (num den : Nat) : (round negative num den).Normal := by
  have hle := mantissaOf_le num den
  have hmantissa : mantissaOf num den =
      nearestEven num (den * Nat.pow 2 (exponentOf (num / den))) := rfl
  have hleast : 0 < exponentOf (num / den) → 2 ^ 52 ≤ mantissaOf num den := le_mantissaOf
  unfold round
  dsimp only
  rw [← hmantissa]
  split
  · -- After a carry the mantissa is the least one that uses all bits.
    split
    · trivial
    · next hsmall => exact ⟨by decide, by omega, fun _ => Nat.le_refl _⟩
  · next hcarry =>
    split
    · trivial
    · next hsmall => exact ⟨Nat.lt_of_le_of_ne hle hcarry, Nat.le_of_not_lt hsmall, hleast⟩

/-- Zero keeps its sign. -/
theorem round_true_zero {den : Nat} (h : 0 < den) : round true 0 den = .finite true 0 0 := by
  have hnone := nearestEven_mul 0 h
  rw [Nat.zero_mul] at hnone
  have hexponent : exponentOf 0 = 0 := by decide
  have hunit : den * Nat.pow 2 0 = den := Nat.mul_one den
  unfold round
  dsimp only
  rw [Nat.zero_div, hexponent, hunit, hnone]
  rfl

theorem counted_zero (negative : Bool) : Counted (.finite negative 0 0) 0 where
  finite := ⟨negative, 0, 0, rfl, Nat.zero_mul _, fun _ => rfl⟩
  fits := Nat.dvd_zero _
  range := pow_pos Nat.two_pos _

/-- A quotient that is not below zero is rounded to its rounded units, or is beyond the range. -/
theorem counted_round {negative : Bool} {num den : Nat} (hden : 0 < den)
    (hsign : negative = true → num = 0) :
    (2 ^ 2098 ≤ rounded num den ∧ round negative num den = .infinite false) ∨
      Counted (round negative num den) (rounded num den) := by
  cases negative with
  | true =>
    rw [hsign rfl, round_true_zero hden, rounded_zero hden]
    exact Or.inr (counted_zero true)
  | false =>
    have hnormal := normal_round false num den
    rcases round_cases num den with hgreat | ⟨-, mantissa, exponent, hround, hunits⟩
    · exact Or.inl hgreat
    · rw [hround] at hnormal ⊢
      rw [← hunits]
      refine Or.inr (counted_of_normal hnormal rfl ?_)
      exact (le_iff _ _).mpr ⟨nofun, nofun, Int.natCast_nonneg _⟩

/-- Rounding does not change a double. -/
theorem Counted.rounded_one (h : Counted x units) : rounded units 1 = units := by
  have hrounded := rounded_mul Nat.one_pos h.fits
  rwa [Nat.mul_one] at hrounded

/-- From 2^52 on, doubles are whole numbers. -/
theorem Counted.one_dvd (h : Counted x units) (hgreat : 2 ^ 52 * one ≤ units) : one ∣ units := by
  have hfits := h.fits
  have hone := one_pos
  have hnonzero : units ≠ 0 := by omega
  revert hgreat
  unfold one
  generalize 1074 = bits
  intro hgreat
  have hlog : 52 + bits ≤ units.log2 := by
    rw [Nat.le_log2 hnonzero, Nat.pow_add]
    exact hgreat
  -- The last bit in use stands for one at least.
  refine Nat.dvd_trans (two_pow_dvd ?_) hfits
  unfold exponentOf
  omega

end Binary64

end LoadBench
