/-
  LoadBench.Proofs.Ranks

  The ranks that percentiles ask for.  A percentile above zero is divided by a hundred
  and cut off at one (`share`), so a greater percentile does not ask for a lower rank
  (`rank_fraction_mono`).  Up to 2^53 latencies are counted exactly by a double, and of
  so many no percentile asks for more than there are (`rank_fraction_le`).  A percentile
  that is as small as `vanishing` is a fraction of zero after the division, and is not
  told from zero then (`fraction_of_vanishing`).
-/

import LoadBench.Proofs.Rounding

namespace LoadBench

/-- A quotient that is not reduced is rounded like the reduced one. -/
theorem nearestEven_mul_mul {factor : Nat} (h : 0 < factor) (num den : Nat) :
    nearestEven (num * factor) (den * factor) = nearestEven num den := by
  -- The comparisons of the rest with half a unit hold on either scale.
  have hbelow : 2 * (num % den * factor) < den * factor ↔ 2 * (num % den) < den := by
    rw [← Nat.mul_assoc]
    exact Nat.mul_lt_mul_right h
  have habove : den * factor < 2 * (num % den * factor) ↔ den < 2 * (num % den) := by
    rw [← Nat.mul_assoc]
    exact Nat.mul_lt_mul_right h
  unfold nearestEven
  dsimp only
  rw [Nat.mul_div_mul_right _ _ h, Nat.mul_mod_mul_right]
  simp only [hbelow, habove]

namespace Binary64

theorem lt_iff (x y : Binary64) : lt x y = true ↔ x ≠ nan ∧ y ≠ nan ∧ x.place < y.place := by
  cases x <;> cases y <;> simp [lt]

/-! ## Powers of two -/

theorem one_eq : one = 2 ^ 1074 := by
  unfold one
  generalize 1074 = bits
  rfl

theorem two_pow_dvd {bits more : Nat} (h : bits ≤ more) : 2 ^ bits ∣ 2 ^ more :=
  Nat.pow_dvd_pow 2 h

/-! ## Places -/

theorem place_infinite : (infinite false).place = (2 ^ 2200 : Nat) := by
  show ((Nat.pow 2 2200 : Nat) : Int) = _
  generalize 2200 = bits
  rfl

theorem one_lt_place_infinite : (one : Int) < (infinite false).place := by
  rw [place_infinite, one_eq]
  exact Int.ofNat_lt.mpr (two_pow_lt (by decide))

theorem place_infinite_pos : 0 < (infinite false).place :=
  Int.lt_trans (Int.natCast_pos.mpr one_pos) one_lt_place_infinite

theorem place_infinite_true : (infinite true).place ≤ 0 :=
  Int.neg_nonpos_of_nonneg (Int.natCast_nonneg _)

theorem place_finite_true (mantissa exponent : Nat) : (finite true mantissa exponent).place ≤ 0 :=
  Int.neg_nonpos_of_nonneg (Int.natCast_nonneg _)

/-! ## Rounded quotients -/

theorem rounded_zero {den : Nat} (h : 0 < den) : rounded 0 den = 0 := by
  have hrounded := rounded_mul h (Nat.dvd_zero (2 ^ exponentOf 0))
  rwa [Nat.zero_mul] at hrounded

/-- Rounding keeps the sign. -/
theorem round_sign (negative : Bool) (num den : Nat) :
    round negative num den = .infinite negative ∨
      ∃ mantissa exponent, round negative num den = .finite negative mantissa exponent := by
  unfold round
  dsimp only
  split <;> split
  · exact Or.inl rfl
  · exact Or.inr ⟨_, _, rfl⟩
  · exact Or.inl rfl
  · exact Or.inr ⟨_, _, rfl⟩

theorem place_round_true (num den : Nat) : (round true num den).place ≤ 0 := by
  rcases round_sign true num den with hround | ⟨mantissa, exponent, hround⟩
  · rw [hround]
    exact place_infinite_true
  · rw [hround]
    exact place_finite_true mantissa exponent

/-- Nothing is rounded to nothing. -/
theorem place_round_zero {den : Nat} (h : 0 < den) : (round false 0 den).place = 0 := by
  have hrange : 0 / den < 2 ^ 2097 :=
    Nat.lt_of_le_of_lt (Nat.div_le_self 0 den)
      (Nat.zero_lt_of_lt (two_pow_lt (by decide : 0 < 2097)))
  obtain ⟨mantissa, exponent, hround, hunits⟩ := round_eq_finite hrange
  rw [rounded_zero h] at hunits
  rw [hround]
  exact congrArg Int.ofNat hunits

theorem round_mul_mul {factor : Nat} (h : 0 < factor) (negative : Bool) (num den : Nat) :
    round negative (num * factor) (den * factor) = round negative num den := by
  unfold round
  rw [Nat.mul_div_mul_right _ _ h]
  simp only [Nat.mul_right_comm den factor, nearestEven_mul_mul h]

/-! ## Rounding up -/

theorem ceilWithin_finite (limit mantissa exponent : Nat) :
    (finite false mantissa exponent).ceilWithin limit =
      Nat.min limit (ceilDiv (mantissa * 2 ^ exponent) one) := by
  unfold ceilWithin
  exact if_neg Bool.false_ne_true

/-- A rounded number is rounded up from its units, and what is beyond the range is beyond any
limit that is not beyond it. -/
theorem ceilWithin_round {limit : Nat} (h : limit ≤ ceilDiv (2 ^ 2098) one) (num den : Nat) :
    (round false num den).ceilWithin limit = Nat.min limit (ceilDiv (rounded num den) one) := by
  rcases round_cases num den with ⟨hgreat, hround⟩ | ⟨-, mantissa, exponent, hround, hunits⟩
  · rw [hround]
    exact (Nat.min_eq_left (Nat.le_trans h (ceilDiv_mono hgreat one))).symm
  · rw [hround, ceilWithin_finite, hunits]

/-- What is not above zero is rounded up to none. -/
theorem ceilWithin_eq_zero {x : Binary64} (h : x.place ≤ 0) (limit : Nat) :
    x.ceilWithin limit = 0 := by
  cases x with
  | nan => rfl
  | infinite negative =>
    cases negative with
    | true => rfl
    | false => exact absurd place_infinite_pos (Int.not_lt.mpr h)
  | finite negative mantissa exponent =>
    cases negative with
    | true => rfl
    | false =>
      have hzero : mantissa * 2 ^ exponent = 0 := Nat.eq_zero_of_le_zero (Int.ofNat_le.mp h)
      have hnone := ceilDiv_mul_self 0 one_pos
      rw [Nat.zero_mul] at hnone
      rw [ceilWithin_finite, hzero, hnone]
      exact Nat.min_zero limit

/-! ## Whole numbers -/

/-- Up to 2^53 whole numbers need no more bits than there are. -/
theorem two_pow_exponentOf_dvd {n : Nat} (h : n ≤ 2 ^ 53) :
    2 ^ exponentOf (n * one) ∣ n * one := by
  -- 2^53 itself has a bit more than there is room for, but is a power of two.
  rcases Nat.lt_or_eq_of_le h with hlt | rfl
  · have hscaled : n * one < 2 ^ (53 + 1074) := by
      rw [pow_add, ← one_eq]
      exact Nat.mul_lt_mul_of_pos_right hlt one_pos
    have hexponent := exponentOf_lt hscaled (by decide)
    have hdvd : 2 ^ exponentOf (n * one) ∣ 2 ^ 1074 := two_pow_dvd (by omega)
    rw [← one_eq] at hdvd
    exact Nat.dvd_mul_left_of_dvd hdvd n
  · rw [one_eq, ← pow_add, exponentOf, Nat.log2_two_pow]
    exact two_pow_dvd (Nat.sub_le _ _)

/-- They are doubles. -/
theorem ofNat_eq_finite {n : Nat} (h : n ≤ 2 ^ 53) :
    ∃ mantissa exponent, ofNat n = .finite false mantissa exponent ∧
      mantissa * 2 ^ exponent = n * one := by
  have hrounded := rounded_mul Nat.one_pos (two_pow_exponentOf_dvd h)
  have hrange : n * one / 1 < 2 ^ 2097 := by
    have hle : n * one ≤ 2 ^ 53 * one := Nat.mul_le_mul_right one h
    rw [one_eq, ← pow_add, ← one_eq] at hle
    rw [Nat.div_one]
    exact Nat.lt_of_le_of_lt hle (two_pow_lt (by decide))
  obtain ⟨mantissa, exponent, hround, hunits⟩ := round_eq_finite hrange
  rw [Nat.mul_one] at hrounded
  exact ⟨mantissa, exponent, hround, hunits.trans hrounded⟩

theorem ofNat_one : ∃ m e, ofNat 1 = .finite false m e ∧ m * 2 ^ e = one := by
  obtain ⟨m, e, hfinite, hunits⟩ := ofNat_eq_finite (n := 1) (by decide)
  exact ⟨m, e, hfinite, hunits.trans (Nat.one_mul one)⟩

theorem ofNat_cases (n : Nat) :
    ofNat n = .infinite false ∨ ∃ m e, ofNat n = .finite false m e := round_sign false (n * one) 1

/-! ## Products -/

theorem mul_finite (negative : Bool) (m e n f : Nat) :
    finite negative m e * .finite false n f = round negative (m * 2 ^ e * (n * 2 ^ f)) one := by
  show mul (.finite negative m e) (.finite false n f) = _
  rw [mul, Bool.bne_false]
  rfl

theorem mul_infinite (negative : Bool) (m e : Nat) :
    finite negative m e * .infinite false = if m = 0 then .nan else .infinite negative := by
  show mul (.finite negative m e) (.infinite false) = _
  rw [mul, Bool.bne_false]

theorem infinite_mul (n f : Nat) :
    infinite true * .finite false n f = if n = 0 then .nan else .infinite true := by
  show mul (.infinite true) (.finite false n f) = _
  rw [mul, Bool.bne_false]

/-- A product with a whole number is not above zero if the other factor is not. -/
theorem place_mul_ofNat_nonpos {part : Binary64} (h : part.place ≤ 0) (total : Nat) :
    (part * ofNat total).place ≤ 0 := by
  cases part with
  | nan => exact Int.le_refl 0
  | infinite negative =>
    cases negative with
    | false => exact absurd place_infinite_pos (Int.not_lt.mpr h)
    | true =>
      rcases ofNat_cases total with hwhole | ⟨n, f, hwhole⟩
      · rw [hwhole]
        exact place_infinite_true
      · rw [hwhole, infinite_mul]
        split
        · exact Int.le_refl 0
        · exact place_infinite_true
  | finite negative m e =>
    rcases ofNat_cases total with hwhole | ⟨n, f, hwhole⟩
    · rw [hwhole, mul_infinite]
      by_cases hzero : m = 0
      · -- Zero times infinity is no number.
        rw [if_pos hzero]
        exact Int.le_refl 0
      · rw [if_neg hzero]
        cases negative with
        | true => exact place_infinite_true
        | false =>
          -- Only zero is not above zero without a sign.
          have hpos : 0 < m * 2 ^ e := Nat.mul_pos (Nat.pos_of_ne_zero hzero) (Nat.two_pow_pos e)
          exact absurd (Int.ofNat_le.mp h) (Nat.not_le.mpr hpos)
    · rw [hwhole, mul_finite]
      cases negative with
      | true => exact place_round_true _ _
      | false =>
        have hzero : m * 2 ^ e = 0 := Nat.eq_zero_of_le_zero (Int.ofNat_le.mp h)
        rw [hzero, Nat.zero_mul]
        exact Int.le_of_eq (place_round_zero one_pos)

/-! ## Whole factors and divisors -/

/-- A product with a whole number is rounded as it is, without units. -/
theorem mul_ofNat {n : Nat} (h : n ≤ 2 ^ 53) (negative : Bool) (mantissa exponent : Nat) :
    finite negative mantissa exponent * ofNat n =
      round negative (mantissa * 2 ^ exponent * n) 1 := by
  obtain ⟨m, e, hfinite, hunits⟩ := ofNat_eq_finite h
  -- Both are counted in units, of which there are `one` in each whole number.
  rw [hfinite, mul_finite, hunits, ← Nat.mul_assoc]
  have hreduced := round_mul_mul one_pos negative (mantissa * 2 ^ exponent * n) 1
  rwa [Nat.one_mul] at hreduced

/-- A quotient by a whole number is rounded as it is, without units. -/
theorem div_ofNat {n : Nat} (hpos : 0 < n) (h : n ≤ 2 ^ 53) (negative : Bool)
    (mantissa exponent : Nat) :
    finite negative mantissa exponent / ofNat n = round negative (mantissa * 2 ^ exponent) n := by
  obtain ⟨m, e, hfinite, hunits⟩ := ofNat_eq_finite h
  have hnonzero : m ≠ 0 := by
    rintro rfl
    have hscaled : 0 < n * one := Nat.mul_pos hpos one_pos
    omega
  have hdiv : finite negative mantissa exponent / .finite false m e =
      round negative (mantissa * 2 ^ exponent * one) (m * 2 ^ e) := by
    show div (.finite negative mantissa exponent) (.finite false m e) = _
    rw [div, if_neg hnonzero, Bool.bne_false]
    rfl
  rw [hfinite, hdiv, hunits]
  exact round_mul_mul one_pos negative _ _

end Binary64

namespace Histogram

open Binary64 (one rounded)

/-! ## Fractions -/

/-- The rank of the latency that a percentile asks for, counted from one. -/
def rankAt (histogram : Histogram) (percentile : Binary64) : Nat :=
  rank (fraction percentile) histogram.total

/-- The greatest percentile that is zero after the division by a hundred. -/
def vanishing : Binary64 := .finite false 50 0

/-- The units of the fraction that so many units of a percentile come to. -/
def share (units : Nat) : Nat := Nat.min (rounded units 100) one

theorem share_mono {units more : Nat} (h : units ≤ more) : share units ≤ share more :=
  Nat.le_min.mpr ⟨Nat.le_trans (Nat.min_le_left _ _) (Binary64.rounded_mono h _),
    Nat.min_le_right _ _⟩

theorem share_le (units : Nat) : share units ≤ one := Nat.min_le_right _ _

/-- Half a unit goes to the even number of units, which is none. -/
theorem share_eq_zero_iff (units : Nat) : share units = 0 ↔ units ≤ 50 := by
  have hlast : rounded 50 100 = 0 := by decide
  have hnext : rounded 51 100 = 1 := by decide
  refine ⟨fun hzero => Nat.le_of_not_lt fun hlt => ?_, fun hle => ?_⟩
  · have hle : 1 ≤ share units :=
      Nat.le_min.mpr ⟨hnext ▸ Binary64.rounded_mono hlt 100, Binary64.one_pos⟩
    omega
  · have hle := Nat.le_trans (Nat.min_le_left _ one) (Binary64.rounded_mono hle 100)
    rw [hlast] at hle
    exact Nat.eq_zero_of_le_zero hle

theorem div_hundred (negative : Bool) (mantissa exponent : Nat) :
    Binary64.finite negative mantissa exponent / Binary64.ofNat 100 =
      Binary64.round negative (mantissa * 2 ^ exponent) 100 :=
  Binary64.div_ofNat (by decide) (by decide) negative mantissa exponent

theorem infinite_div_hundred (negative : Bool) :
    Binary64.infinite negative / Binary64.ofNat 100 = .infinite negative := by
  obtain ⟨m, e, hfinite, -⟩ := Binary64.ofNat_eq_finite (n := 100) (by decide)
  show Binary64.div (.infinite negative) (Binary64.ofNat 100) = _
  rw [hfinite, Binary64.div, Bool.bne_false]

/-- What is not above one is not cut off. -/
theorem lt_ofNat_one_iff (part : Binary64) :
    Binary64.lt (Binary64.ofNat 1) part = true ↔ part ≠ .nan ∧ (one : Int) < part.place := by
  obtain ⟨m, e, hone, hunits⟩ := Binary64.ofNat_one
  have hplace : (Binary64.finite false m e).place = one := congrArg Int.ofNat hunits
  rw [Binary64.lt_iff, hone, hplace]
  exact and_iff_right nofun

theorem fraction_of_le {percentile part : Binary64}
    (hpart : percentile / Binary64.ofNat 100 = part) (h : part.place ≤ one) :
    fraction percentile = part := by
  have hcut : ¬ Binary64.lt (Binary64.ofNat 1) part = true := by
    rw [lt_ofNat_one_iff]
    exact fun hlt => absurd hlt.2 (Int.not_lt.mpr h)
  unfold fraction
  dsimp only
  rw [hpart, if_neg hcut]

theorem fraction_of_lt {percentile part : Binary64}
    (hpart : percentile / Binary64.ofNat 100 = part) (hnan : part ≠ .nan)
    (h : (one : Int) < part.place) : fraction percentile = Binary64.ofNat 1 := by
  unfold fraction
  dsimp only
  rw [hpart, if_pos ((lt_ofNat_one_iff part).mpr ⟨hnan, h⟩)]

/-- A percentile that is finite and not negative is a fraction of its share. -/
theorem fraction_finite (mantissa exponent : Nat) :
    ∃ m e, fraction (.finite false mantissa exponent) = .finite false m e ∧
      m * 2 ^ e = share (mantissa * 2 ^ exponent) := by
  obtain ⟨n, f, hone, hunit⟩ := Binary64.ofNat_one
  have hpart := div_hundred false mantissa exponent
  unfold share
  rcases Binary64.round_cases (mantissa * 2 ^ exponent) 100 with
    ⟨hgreat, hround⟩ | ⟨-, m, e, hround, hunits⟩
  · -- What is beyond the range is cut off at one.
    have hle : one ≤ 2 ^ 2098 := by
      rw [Binary64.one_eq]
      exact Binary64.two_pow_le (by decide)
    refine ⟨n, f, ?_, hunit.trans (Nat.min_eq_right (Nat.le_trans hle hgreat)).symm⟩
    exact (fraction_of_lt (hpart.trans hround) nofun Binary64.one_lt_place_infinite).trans hone
  · rw [← hunits]
    by_cases hlt : one < m * 2 ^ e
    · refine ⟨n, f, ?_, hunit.trans (Nat.min_eq_right (Nat.le_of_lt hlt)).symm⟩
      exact (fraction_of_lt (hpart.trans hround) nofun (Int.ofNat_lt.mpr hlt)).trans hone
    · have hle : m * 2 ^ e ≤ one := Nat.le_of_not_lt hlt
      refine ⟨m, e, ?_, (Nat.min_eq_left hle).symm⟩
      exact fraction_of_le (hpart.trans hround) (Int.ofNat_le.mpr hle)

/-- An infinite percentile is a fraction of one. -/
theorem share_infinite : share (2 ^ 2200) = one := by
  have hbits : 2 ^ Binary64.exponentOf one ∣ one := by
    have hdvd := Binary64.two_pow_exponentOf_dvd (n := 1) (by decide)
    rwa [Nat.one_mul] at hdvd
  -- The share of a hundred is one, and infinity is placed far above a hundred.
  have hone : rounded (one * 100) 100 = one := Binary64.rounded_mul (by decide) hbits
  have hle : one * 100 ≤ 2 ^ 2200 := by
    have hscaled : one * 100 ≤ one * 2 ^ 7 := Nat.mul_le_mul_left one (by decide)
    rw [Binary64.one_eq, ← pow_add, ← Binary64.one_eq] at hscaled
    exact Nat.le_trans hscaled (Binary64.two_pow_le (by decide))
  refine Nat.min_eq_right ?_
  calc one
    _ = rounded (one * 100) 100 := hone.symm
    _ ≤ rounded (2 ^ 2200) 100 := Binary64.rounded_mono hle 100

/-- Every percentile above zero is a fraction of its share. -/
theorem fraction_of_pos {percentile : Binary64} (h : 0 < percentile.place) :
    ∃ m e, fraction percentile = .finite false m e ∧ m * 2 ^ e = share percentile.place.toNat := by
  cases percentile with
  | nan => exact absurd h (Int.lt_irrefl 0)
  | infinite negative =>
    cases negative with
    | true => exact absurd h (Int.not_lt.mpr Binary64.place_infinite_true)
    | false =>
      obtain ⟨m, e, hone, hunits⟩ := Binary64.ofNat_one
      rw [Binary64.place_infinite, Int.toNat_natCast, share_infinite]
      have hgreat := Binary64.one_lt_place_infinite
      refine ⟨m, e, ?_, hunits⟩
      exact (fraction_of_lt (infinite_div_hundred false) nofun hgreat).trans hone
  | finite negative mantissa exponent =>
    cases negative with
    | true => exact absurd h (Int.not_lt.mpr (Binary64.place_finite_true mantissa exponent))
    | false => exact fraction_finite mantissa exponent

/-- A percentile that is not above zero is no fraction above zero. -/
theorem place_fraction_nonpos {percentile : Binary64} (h : percentile.place ≤ 0) :
    (fraction percentile).place ≤ 0 := by
  have hone : (0 : Int) ≤ one := Int.natCast_nonneg one
  cases percentile with
  | nan =>
    have hpart : Binary64.nan / Binary64.ofNat 100 = .nan := rfl
    rw [fraction_of_le hpart hone]
    exact Int.le_refl 0
  | infinite negative =>
    cases negative with
    | true =>
      rwa [fraction_of_le (infinite_div_hundred true)
        (Int.le_trans Binary64.place_infinite_true hone)]
    | false => exact absurd Binary64.place_infinite_pos (Int.not_lt.mpr h)
  | finite negative mantissa exponent =>
    cases negative with
    | true =>
      have hplace := Binary64.place_round_true (mantissa * 2 ^ exponent) 100
      rwa [fraction_of_le (div_hundred true mantissa exponent) (Int.le_trans hplace hone)]
    | false =>
      obtain ⟨m, e, hfraction, hunits⟩ := fraction_finite mantissa exponent
      have hzero : mantissa * 2 ^ exponent = 0 := Nat.eq_zero_of_le_zero (Int.ofNat_le.mp h)
      rw [hzero, (share_eq_zero_iff 0).mpr (Nat.zero_le 50)] at hunits
      rw [hfraction]
      exact Int.le_of_eq (congrArg Int.ofNat hunits)

/-! ## Percentiles that vanish -/

/-- Zero, with either sign, is a fraction of zero. -/
theorem fraction_of_zero {percentile : Binary64} (hnan : percentile ≠ .nan)
    (h : percentile.place = 0) :
    (fraction percentile).units = 0 ∧ (fraction percentile).isFinite = true := by
  have hone : (0 : Int) < one := Int.natCast_pos.mpr Binary64.one_pos
  cases percentile with
  | nan => exact absurd rfl hnan
  | infinite negative =>
    have hne := Int.ne_of_gt Binary64.place_infinite_pos
    cases negative with
    | true => exact absurd (Int.neg_eq_zero.mp h) hne
    | false => exact absurd h hne
  | finite negative mantissa exponent =>
    have hunits : mantissa * 2 ^ exponent = 0 := by
      cases negative with
      | true => exact Int.ofNat_eq_zero.mp (Int.neg_eq_zero.mp h)
      | false => exact Int.ofNat_eq_zero.mp h
    have hround : Binary64.round negative 0 100 = .finite negative 0 0 := by
      cases negative <;> rfl
    have hplace : (Binary64.finite negative 0 0).place = 0 := by
      cases negative <;> rfl
    have hpart := div_hundred negative mantissa exponent
    rw [hunits, hround] at hpart
    rw [fraction_of_le hpart (hplace ▸ Int.le_of_lt hone)]
    exact ⟨Nat.zero_mul _, rfl⟩

/-- A percentile from zero to the vanishing one is a fraction of zero. -/
theorem fraction_of_vanishing {percentile : Binary64}
    (hzero : Binary64.le Binary64.zero percentile = true)
    (h : Binary64.le percentile vanishing = true) :
    (fraction percentile).units = 0 ∧ (fraction percentile).isFinite = true := by
  obtain ⟨-, hnan, hplace⟩ := (Binary64.le_iff _ _).mp hzero
  obtain ⟨-, -, hle⟩ := (Binary64.le_iff _ _).mp h
  have hfirst : Binary64.zero.place = 0 := rfl
  have hlast : vanishing.place = 50 := rfl
  rw [hfirst] at hplace
  rw [hlast] at hle
  rcases Int.lt_or_eq_of_le hplace with hpos | heq
  · obtain ⟨m, e, hfraction, hunits⟩ := fraction_of_pos hpos
    rw [hfraction]
    refine ⟨hunits.trans ((share_eq_zero_iff _).mpr ?_), rfl⟩
    omega
  · exact fraction_of_zero hnan heq.symm

/-- A percentile above the vanishing one is not. -/
theorem units_fraction_ne_zero {percentile : Binary64}
    (h : Binary64.lt vanishing percentile = true) : (fraction percentile).units ≠ 0 := by
  obtain ⟨-, -, hlt⟩ := (Binary64.lt_iff _ _).mp h
  have hlast : vanishing.place = 50 := rfl
  rw [hlast] at hlt
  obtain ⟨m, e, hfraction, hunits⟩ := fraction_of_pos (Int.lt_trans (by decide) hlt)
  rw [hfraction]
  intro hzero
  have hle := (share_eq_zero_iff _).mp (hunits.symm.trans hzero)
  omega

/-! ## Ranks -/

/-- Ranks that 64 bits hold are far below the range of doubles. -/
theorem le_limit : UInt64.size - 1 ≤ ceilDiv (2 ^ 2098) one := by
  have hroom : UInt64.size - 1 ≤ 2 ^ 64 := by decide
  have hpow : 2 ^ 1024 * one = 2 ^ 2098 := by rw [Binary64.one_eq, ← pow_add]
  rw [← hpow, ceilDiv_mul_self _ Binary64.one_pos]
  exact Nat.le_trans hroom (Binary64.two_pow_le (by decide))

/-- A greater fraction does not ask for a lower rank. -/
theorem rank_finite_mono {m e m' e' : Nat} (h : m * 2 ^ e ≤ m' * 2 ^ e') (total : Nat) :
    rank (.finite false m e) total ≤ rank (.finite false m' e') total := by
  refine Nat.max_le.mpr ⟨Nat.le_max_left _ _, Nat.le_trans ?_ (Nat.le_max_right _ _)⟩
  -- A total that is beyond the doubles is infinite, and so is each of its fractions but zero.
  rcases Binary64.ofNat_cases total with htotal | ⟨n, f, htotal⟩
  · rw [htotal, Binary64.mul_infinite, Binary64.mul_infinite]
    by_cases hzero : m = 0
    · rw [if_pos hzero]
      exact Nat.zero_le _
    · have hpos : 0 < m * 2 ^ e := Nat.mul_pos (Nat.pos_of_ne_zero hzero) (Nat.two_pow_pos e)
      have hmore : m' ≠ 0 := by
        rintro rfl
        omega
      rw [if_neg hzero, if_neg hmore]
  · rw [htotal, Binary64.mul_finite, Binary64.mul_finite, Binary64.ceilWithin_round le_limit,
      Binary64.ceilWithin_round le_limit]
    refine Nat.le_min.mpr ⟨Nat.min_le_left _ _, Nat.le_trans (Nat.min_le_right _ _) ?_⟩
    exact ceilDiv_mono (Binary64.rounded_mono (Nat.mul_le_mul_right _ h) one) one

/-- What is no fraction above zero asks for the first rank. -/
theorem rank_eq_one {part : Binary64} (h : part.place ≤ 0) (total : Nat) : rank part total = 1 := by
  rw [rank, Binary64.ceilWithin_eq_zero (Binary64.place_mul_ofNat_nonpos h total)]
  rfl

/-- A percentile that is not above the vanishing one asks for the first rank. -/
theorem rank_of_not_lt {percentile : Binary64} (h : ¬ Binary64.lt vanishing percentile = true)
    (total : Nat) : rank (fraction percentile) total = 1 := by
  refine rank_eq_one ?_ total
  by_cases hpos : 0 < percentile.place
  · have hnan : percentile ≠ .nan := by
      rintro rfl
      exact Int.lt_irrefl 0 hpos
    have hlast : vanishing.place = 50 := rfl
    rw [Binary64.lt_iff, hlast] at h
    have hle : percentile.place ≤ 50 := Int.not_lt.mp fun hlt => h ⟨nofun, hnan, hlt⟩
    -- Up to fifty units have a share of none.
    obtain ⟨m, e, hfraction, hunits⟩ := fraction_of_pos hpos
    rw [(share_eq_zero_iff _).mpr (by omega)] at hunits
    rw [hfraction]
    exact Int.le_of_eq (congrArg Int.ofNat hunits)
  · exact place_fraction_nonpos (Int.not_lt.mp hpos)

/-- A greater percentile does not ask for a lower rank. -/
theorem rank_fraction_mono {percentile greater : Binary64}
    (h : Binary64.le percentile greater = true) (total : Nat) :
    rank (fraction percentile) total ≤ rank (fraction greater) total := by
  obtain ⟨-, -, hplace⟩ := (Binary64.le_iff _ _).mp h
  by_cases hpos : 0 < percentile.place
  · obtain ⟨m, e, hfraction, hunits⟩ := fraction_of_pos hpos
    obtain ⟨m', e', hgreater, hunits'⟩ := fraction_of_pos (Int.lt_of_lt_of_le hpos hplace)
    rw [hfraction, hgreater]
    refine rank_finite_mono ?_ total
    rw [hunits, hunits']
    exact share_mono (Int.toNat_le_toNat hplace)
  · rw [rank_eq_one (place_fraction_nonpos (Int.not_lt.mp hpos))]
    exact one_le_rank _ _

/-- A fraction of one asks for the last of up to 2^53 latencies. -/
theorem rank_one {total : Nat} (hpos : 1 ≤ total) (h : total ≤ 2 ^ 53) :
    rank (Binary64.ofNat 1) total = total := by
  obtain ⟨m, e, hone, hunits⟩ := Binary64.ofNat_one
  obtain ⟨n, f, htotal, hunits'⟩ := Binary64.ofNat_eq_finite h
  have hrounded := Binary64.rounded_mul Binary64.one_pos (Binary64.two_pow_exponentOf_dvd h)
  have hroom : 2 ^ 53 ≤ UInt64.size - 1 := by decide
  -- The product has the units of the total, so neither rounding changes it.
  rw [rank, hone, htotal, Binary64.mul_finite, hunits, hunits', Nat.mul_comm,
    Binary64.ceilWithin_round le_limit, hrounded, ceilDiv_mul_self _ Binary64.one_pos]
  exact (congrArg _ (Nat.min_eq_right (Nat.le_trans h hroom))).trans (Nat.max_eq_right hpos)

/-- Of up to 2^53 latencies no percentile asks for more than there are. -/
theorem rank_fraction_le {total : Nat} (hpos : 1 ≤ total) (h : total ≤ 2 ^ 53)
    (percentile : Binary64) : rank (fraction percentile) total ≤ total := by
  by_cases hplace : 0 < percentile.place
  · obtain ⟨m, e, hfraction, hunits⟩ := fraction_of_pos hplace
    obtain ⟨n, f, hone, hunits'⟩ := Binary64.ofNat_one
    calc rank (fraction percentile) total
      _ ≤ rank (Binary64.ofNat 1) total := by
        rw [hfraction, hone]
        refine rank_finite_mono ?_ total
        rw [hunits, hunits']
        exact share_le _
      _ = total := rank_one hpos h
  · rw [rank_eq_one (place_fraction_nonpos (Int.not_lt.mp hplace))]
    exact hpos

end Histogram

end LoadBench
