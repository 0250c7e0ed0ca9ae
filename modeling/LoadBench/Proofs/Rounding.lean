/-
  LoadBench.Proofs.Rounding

  Rounding keeps order.  Of two quotients the greater is not rounded to the smaller
  double (`Binary64.le_round`): with one exponent the mantissas are in order, and where
  the exponents differ a power of two lies between the two.  So a greater number of
  microseconds is not published as fewer milliseconds (`Binary64.le_thousandths`).
-/

import LoadBench.Proofs.Published

namespace LoadBench

/-- A greater quotient is not rounded to a smaller whole number. -/
theorem nearestEven_mono {num more : Nat} (h : num ≤ more) (den : Nat) :
    nearestEven num den ≤ nearestEven more den := by
  have hquotient : num / den ≤ more / den := Nat.div_le_div_right h
  rcases Nat.lt_or_eq_of_le hquotient with hlt | heq
  · exact Nat.le_trans (nearestEven_le num den)
      (Nat.le_trans (Nat.succ_le_of_lt hlt) (le_nearestEven more den))
  · -- With one quotient it is the rest that decides, and it decides for the greater one first.
    have hrest : num % den ≤ more % den := by
      have hnum := Nat.div_add_mod num den
      have hmore := Nat.div_add_mod more den
      rw [heq] at hnum
      omega
    unfold nearestEven
    dsimp only
    rw [heq]
    split <;> split <;> (try split) <;> (try split) <;> omega

/-- A whole number is not changed. -/
theorem nearestEven_mul (n : Nat) {den : Nat} (h : 0 < den) : nearestEven (n * den) den = n := by
  unfold nearestEven
  rw [Nat.mul_mod_left, Nat.mul_div_cancel _ h, Nat.mul_zero]
  exact if_pos h

/-- A bound that is a whole number holds after rounding. -/
theorem nearestEven_le_of_le {num den bound : Nat} (hden : 0 < den) (h : num ≤ bound * den) :
    nearestEven num den ≤ bound := by
  have hnear := nearestEven_mono h den
  rwa [nearestEven_mul bound hden] at hnear

theorem le_nearestEven_of_le {num den bound : Nat} (hden : 0 < den) (h : bound * den ≤ num) :
    bound ≤ nearestEven num den := by
  have hnear := nearestEven_mono h den
  rwa [nearestEven_mul bound hden] at hnear

/-- The nearest whole number is at most one half away. -/
theorem nearestEven_near (num : Nat) {den : Nat} (h : 0 < den) :
    2 * num ≤ 2 * (nearestEven num den * den) + den ∧
      2 * (nearestEven num den * den) ≤ 2 * num + den := by
  have hnum := Nat.div_add_mod' num den
  have hrest := Nat.mod_lt num h
  unfold nearestEven
  dsimp only
  split
  · omega
  · split
    · rw [Nat.add_mul, Nat.one_mul]
      omega
    · -- In the middle both neighbours are one half away.
      rcases Nat.mod_two_eq_zero_or_one (num / den) with heven | hodd
      · rw [heven, Nat.add_zero]
        omega
      · rw [hodd, Nat.add_mul, Nat.one_mul]
        omega

/-- An even number is reached from one half below it on. -/
theorem le_nearestEven_iff {bound : Nat} (heven : bound % 2 = 0) (num : Nat) {den : Nat}
    (h : 0 < den) : bound ≤ nearestEven num den ↔ 2 * (bound * den) ≤ 2 * num + den := by
  have hnear := nearestEven_near num h
  refine ⟨fun hle => ?_, fun hle => Nat.le_of_not_lt fun hlt => ?_⟩
  · have hscaled : bound * den ≤ nearestEven num den * den := Nat.mul_le_mul_right den hle
    omega
  · have hnum := Nat.div_add_mod' num den
    have hrest := Nat.mod_lt num h
    have hquotient := le_nearestEven num den
    have hbound : bound = num / den + 1 := by
      refine Nat.le_antisymm (Nat.le_of_not_lt fun hgreat => ?_) (by omega)
      have hscaled : (num / den + 2) * den ≤ bound * den := Nat.mul_le_mul_right den hgreat
      rw [Nat.add_mul] at hscaled
      omega
    -- The quotient is odd then, so that the middle goes to the bound.
    rw [hbound, Nat.add_mul, Nat.one_mul] at hle
    unfold nearestEven at hlt
    dsimp only at hlt
    rw [if_neg (by omega)] at hlt
    split at hlt <;> omega

namespace Binary64

/-! ## The order -/

theorem le_iff (x y : Binary64) : le x y = true ↔ x ≠ nan ∧ y ≠ nan ∧ x.place ≤ y.place := by
  cases x <;> cases y <;> simp [le]

theorem le_trans {x y z : Binary64} (hxy : le x y = true) (hyz : le y z = true) :
    le x z = true := by
  rw [le_iff] at hxy hyz ⊢
  exact ⟨hxy.1, hyz.2.1, Int.le_trans hxy.2.2 hyz.2.2⟩

theorem le_finite {mantissa exponent mantissa' exponent' : Nat}
    (h : mantissa * 2 ^ exponent ≤ mantissa' * 2 ^ exponent') :
    le (.finite false mantissa exponent) (.finite false mantissa' exponent') = true :=
  (le_iff _ _).mpr ⟨nofun, nofun, Int.ofNat_le.mpr h⟩

/-! ## Powers of two -/

theorem two_pow_lt {bits more : Nat} (h : bits < more) : 2 ^ bits < 2 ^ more :=
  Nat.pow_lt_pow_right Nat.one_lt_two h

theorem two_pow_le {bits more : Nat} (h : bits ≤ more) : 2 ^ bits ≤ 2 ^ more :=
  Nat.pow_le_pow_right Nat.two_pos h

/-! ## Rounding -/

/-- What a quotient is rounded to, before a carry into the next power of two. -/
def mantissaOf (num den : Nat) : Nat := nearestEven num (den * 2 ^ exponentOf (num / den))

/-- The units to which a quotient is rounded, as if there were no greatest double. -/
def rounded (num den : Nat) : Nat := mantissaOf num den * 2 ^ exponentOf (num / den)

theorem exponentOf_mono {units more : Nat} (h : units ≤ more) :
    exponentOf units ≤ exponentOf more := by
  refine Nat.sub_le_sub_right ?_ 52
  by_cases hzero : units = 0
  · rw [hzero, Nat.log2_zero]
    exact Nat.zero_le _
  · have hmore : more ≠ 0 := Nat.ne_of_gt (Nat.lt_of_lt_of_le (Nat.pos_of_ne_zero hzero) h)
    exact (Nat.le_log2 hmore).mpr (Nat.le_trans (Nat.log2_self_le hzero) h)

theorem mantissaOf_le (num den : Nat) : mantissaOf num den ≤ 2 ^ 53 := by
  have hnear := nearestEven_le num (den * 2 ^ exponentOf (num / den))
  rw [← Nat.div_div_eq_div_mul] at hnear
  have hlt : num / den / 2 ^ exponentOf (num / den) < 2 ^ 53 := by
    rw [Nat.div_lt_iff_lt_mul (Nat.two_pow_pos _), ← Nat.pow_add]
    refine Nat.lt_of_lt_of_le Nat.lt_log2_self (Nat.pow_le_pow_right Nat.two_pos ?_)
    unfold exponentOf
    omega
  exact Nat.le_trans hnear hlt

/-- Above the least exponent all bits of the mantissa are in use. -/
theorem le_mantissaOf {num den : Nat} (h : 0 < exponentOf (num / den)) :
    2 ^ 52 ≤ mantissaOf num den := by
  have hnear := le_nearestEven num (den * 2 ^ exponentOf (num / den))
  rw [← Nat.div_div_eq_div_mul] at hnear
  refine Nat.le_trans ?_ hnear
  have hlog : 52 + exponentOf (num / den) = (num / den).log2 := by
    unfold exponentOf at h ⊢
    omega
  have hpos : num / den ≠ 0 := by
    intro hzero
    rw [hzero] at h
    exact absurd h (by decide)
  rw [Nat.le_div_iff_mul_le (Nat.two_pow_pos _), ← Nat.pow_add, hlog]
  exact Nat.log2_self_le hpos

/-- The numbers with one exponent end with the power of two that the next begins with. -/
theorem rounded_le (num den : Nat) : rounded num den ≤ 2 ^ (53 + exponentOf (num / den)) := by
  rw [Nat.pow_add]
  exact Nat.mul_le_mul_right _ (mantissaOf_le num den)

theorem le_rounded {num den : Nat} (h : 0 < exponentOf (num / den)) :
    2 ^ (52 + exponentOf (num / den)) ≤ rounded num den := by
  rw [Nat.pow_add]
  exact Nat.mul_le_mul_right _ (le_mantissaOf h)

theorem rounded_mono {num more : Nat} (h : num ≤ more) (den : Nat) :
    rounded num den ≤ rounded more den := by
  have hexponents := exponentOf_mono (Nat.div_le_div_right (c := den) h)
  rcases Nat.lt_or_eq_of_le hexponents with hlt | heq
  · -- The power of two with which the greater exponent begins lies between the two.
    calc rounded num den
      _ ≤ 2 ^ (53 + exponentOf (num / den)) := rounded_le num den
      _ ≤ 2 ^ (52 + exponentOf (more / den)) := two_pow_le (by omega)
      _ ≤ rounded more den := le_rounded (Nat.zero_lt_of_lt hlt)
  · unfold rounded mantissaOf
    rw [heq]
    exact Nat.mul_le_mul_right _ (nearestEven_mono h _)

/-- Rounding gives infinity, or a double of the rounded units, which are within the range then. -/
theorem round_cases (num den : Nat) :
    (2 ^ 2098 ≤ rounded num den ∧ round false num den = .infinite false) ∨
      (rounded num den < 2 ^ 2098 ∧ ∃ mantissa exponent,
        round false num den = .finite false mantissa exponent ∧
          mantissa * 2 ^ exponent = rounded num den) := by
  have hle := mantissaOf_le num den
  have hmantissa : mantissaOf num den = nearestEven num (den * Nat.pow 2 (exponentOf (num / den))) :=
    rfl
  unfold round
  dsimp only
  rw [← hmantissa]
  split
  · next hcarry =>
    have hrounded : rounded num den = 2 ^ (53 + exponentOf (num / den)) := by
      rw [rounded, hcarry, Nat.pow_add]
    split
    · next hgreat =>
      have hbits : 2098 ≤ 53 + exponentOf (num / den) := Nat.add_le_add_left hgreat 53
      refine Or.inl ⟨?_, rfl⟩
      rw [hrounded]
      exact two_pow_le hbits
    · next hsmall =>
      -- A carry halves the mantissa and doubles its unit.
      have hbits : 53 + exponentOf (num / den) < 2098 := by omega
      rw [hrounded]
      refine Or.inr ⟨two_pow_lt hbits, _, _, rfl, ?_⟩
      show 2 ^ 52 * 2 ^ (exponentOf (num / den) + 1) = 2 ^ (53 + exponentOf (num / den))
      rw [← Nat.pow_add]
      exact congrArg _ (by omega)
  · next hcarry =>
    split
    · next hgreat =>
      refine Or.inl ⟨?_, rfl⟩
      calc 2 ^ 2098
        _ ≤ 2 ^ (52 + exponentOf (num / den)) := two_pow_le (by omega)
        _ ≤ rounded num den := le_rounded (Nat.lt_trans (by decide) hgreat)
    · next hsmall =>
      refine Or.inr ⟨?_, _, _, rfl, rfl⟩
      have hlt : mantissaOf num den < 2 ^ 53 := Nat.lt_of_le_of_ne hle hcarry
      calc rounded num den
        _ < 2 ^ 53 * 2 ^ exponentOf (num / den) := Nat.mul_lt_mul_of_pos_right hlt (Nat.two_pow_pos _)
        _ ≤ 2 ^ 2098 := by
          rw [← Nat.pow_add]
          exact two_pow_le (by omega)

/-- Within the range, rounding gives the double of the rounded units. -/
theorem round_eq_finite {num den : Nat} (h : num / den < 2 ^ 2097) :
    ∃ mantissa exponent, round false num den = .finite false mantissa exponent ∧
      mantissa * 2 ^ exponent = rounded num den := by
  have hexponent : exponentOf (num / den) < 2045 := exponentOf_lt h (by decide)
  rcases round_cases num den with ⟨hgreat, -⟩ | ⟨-, hfinite⟩
  · have hsmall := rounded_le num den
    have hpow := (Nat.pow_le_pow_iff_right Nat.one_lt_two).mp (Nat.le_trans hgreat hsmall)
    omega
  · exact hfinite

/-- A number of units that needs no more than the bits there are is not changed by rounding. -/
theorem rounded_mul {units den : Nat} (hden : 0 < den) (h : 2 ^ exponentOf units ∣ units) :
    rounded (units * den) den = units := by
  obtain ⟨mantissa, hmantissa⟩ := h
  have hexact : nearestEven (units * den) (den * 2 ^ exponentOf units) = mantissa := by
    have hunits : units * den = mantissa * (den * 2 ^ exponentOf units) := by
      rw [Nat.mul_comm den, ← Nat.mul_assoc, Nat.mul_comm mantissa, ← hmantissa]
    rw [hunits]
    exact nearestEven_mul mantissa (Nat.mul_pos hden (Nat.two_pow_pos _))
  rw [rounded, mantissaOf, Nat.mul_div_cancel _ hden, hexact, Nat.mul_comm]
  exact hmantissa.symm

/-- A power of two is reached from half a unit of the numbers below it on. -/
theorem two_pow_le_rounded_iff (bits num : Nat) {den : Nat} (hden : 0 < den) :
    2 ^ (bits + 54) ≤ rounded num den ↔ (2 ^ 54 - 1) * (den * 2 ^ bits) ≤ num := by
  have hquotient := Nat.div_mul_le_self num den
  have hnext : num < (num / den + 1) * den := Nat.lt_mul_of_div_lt (Nat.lt_succ_self _) hden
  have hscale : 2 ^ (bits + 54) * den = 2 ^ 54 * (den * 2 ^ bits) := by
    rw [Nat.pow_add, Nat.mul_comm (2 ^ bits), Nat.mul_assoc, Nat.mul_comm den]
  rcases Nat.lt_trichotomy (exponentOf (num / den)) (bits + 1) with hless | heq | hgreat
  · -- The numbers with smaller exponents end below it.
    have hmost : rounded num den ≤ 2 ^ (53 + bits) :=
      Nat.le_trans (rounded_le num den) (two_pow_le (by omega))
    have hrange : num / den < 2 ^ (53 + bits) := by
      refine Nat.lt_of_lt_of_le Nat.lt_log2_self (two_pow_le ?_)
      unfold exponentOf at hless
      omega
    have hscaled : (num / den + 1) * den ≤ 2 ^ (53 + bits) * den := Nat.mul_le_mul_right den hrange
    have hhalf : 2 ^ (bits + 54) = 2 * 2 ^ (53 + bits) := by
      rw [← Nat.pow_succ']
      exact congrArg _ (by omega)
    have hpos := Nat.two_pow_pos (53 + bits)
    rw [hhalf, Nat.mul_assoc] at hscale
    omega
  · -- With this exponent it is a carry.
    have hpow : 2 ^ (bits + 54) = 2 ^ 53 * 2 ^ (bits + 1) := by
      rw [← Nat.pow_add]
      exact congrArg _ (by omega)
    have hcarry : 2 ^ (bits + 54) ≤ rounded num den ↔ 2 ^ 53 ≤ mantissaOf num den := by
      rw [hpow, rounded, heq]
      exact Nat.mul_le_mul_right_iff (Nat.two_pow_pos _)
    have hunit : den * 2 ^ (bits + 1) = 2 * (den * 2 ^ bits) := by
      rw [Nat.pow_succ, ← Nat.mul_assoc, Nat.mul_comm]
    have hpos : 0 < den * 2 ^ (bits + 1) := Nat.mul_pos hden (Nat.two_pow_pos _)
    rw [hcarry, mantissaOf, heq, le_nearestEven_iff (by decide) num hpos, hunit]
    omega
  · -- The numbers with greater exponents begin there.
    have hleast : 2 ^ (bits + 54) ≤ rounded num den :=
      Nat.le_trans (two_pow_le (by omega)) (le_rounded (Nat.zero_lt_of_lt hgreat))
    have hrange : 2 ^ (bits + 54) ≤ num / den := by
      have hnonzero : num / den ≠ 0 := by
        intro hzero
        rw [hzero] at hgreat
        exact absurd hgreat (Nat.not_lt.mpr (Nat.zero_le _))
      refine (Nat.le_log2 hnonzero).mp ?_
      unfold exponentOf at hgreat
      omega
    have hscaled : 2 ^ (bits + 54) * den ≤ num / den * den := Nat.mul_le_mul_right den hrange
    refine iff_of_true hleast ?_
    omega

/-- Of two quotients within the range, the greater is not rounded to the smaller double. -/
theorem le_round {num more den : Nat} (h : num ≤ more) (hrange : more / den < 2 ^ 2097) :
    le (round false num den) (round false more den) = true := by
  obtain ⟨_, _, hmore, hunits⟩ := round_eq_finite hrange
  obtain ⟨_, _, hnum, hunits'⟩ :=
    round_eq_finite (Nat.lt_of_le_of_lt (Nat.div_le_div_right h) hrange)
  rw [hmore, hnum]
  refine le_finite ?_
  rw [hunits, hunits']
  exact rounded_mono h den

/-- Divided by a number that is not below one, the greater of two does not become the smaller. -/
theorem le_div {m e n f t g : Nat} (h : m * 2 ^ e ≤ n * 2 ^ f) (hone : one ≤ t * Nat.pow 2 g)
    (hrange : n * 2 ^ f < 2 ^ 2097) :
    le (.finite false m e / .finite false t g) (.finite false n f / .finite false t g) = true := by
  have hnonzero : t ≠ 0 := by
    rintro rfl
    rw [Nat.zero_mul] at hone
    exact absurd hone (Nat.not_le.mpr one_pos)
  show le (div (.finite false m e) (.finite false t g)) (div (.finite false n f) (.finite false t g)) =
    true
  rw [div, div, if_neg hnonzero, if_neg hnonzero]
  refine le_round (Nat.mul_le_mul_right _ h) ?_
  exact Nat.lt_of_le_of_lt (units_div_le (n * 2 ^ f) hone) hrange

/-! ## Milliseconds -/

theorem ofNat_thousand : ofNat 1000 = .finite false 8796093022208000 1031 := by decide +kernel

/-- A greater number of microseconds is not fewer milliseconds. -/
theorem le_thousandths {micros more : Nat} (h : micros ≤ more) (hmore : more < 2 ^ 24) :
    le (ofNat micros / ofNat 1000) (ofNat more / ofNat 1000) = true := by
  have hroom : 2 * (2 ^ 24 * one) + 1 < 2 ^ 2097 := by decide +kernel
  have hscaled : micros * one ≤ more * one := Nat.mul_le_mul_right _ h
  have hless : more * one < 2 ^ 24 * one := Nat.mul_lt_mul_of_pos_right hmore one_pos
  have hrange : more * one / 1 < 2 ^ 2097 := by
    rw [Nat.div_one]
    omega
  have hunits := units_ofNat_le more
  obtain ⟨m, e, hround, hm⟩ :=
    round_eq_finite (Nat.lt_of_le_of_lt (Nat.div_le_div_right hscaled) hrange)
  obtain ⟨n, f, hround', hn⟩ := round_eq_finite hrange
  rw [ofNat, hround'] at hunits
  rw [ofNat_thousand, ofNat, ofNat, hround, hround']
  refine le_div ?_ (by decide +kernel) (Nat.lt_of_le_of_lt hunits (by omega))
  rw [hm, hn]
  exact rounded_mono hscaled 1

end Binary64

end LoadBench
