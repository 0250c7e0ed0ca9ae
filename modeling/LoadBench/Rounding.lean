/-
  LoadBench.Rounding

  The one rounding rule of the library: a quotient goes to the nearest whole
  number, and a tie goes to the even one.  Doubles, decimal places and
  nanoseconds are all rounded by it.
-/

namespace LoadBench

/-- The whole number nearest to `num / den`; of two equally near ones, the even one. -/
def nearestEven (num den : Nat) : Nat :=
  let quotient := num / den
  let twice := 2 * (num % den)
  if twice < den then quotient
  else if den < twice then quotient + 1
  else quotient + quotient % 2

theorem le_nearestEven (num den : Nat) : num / den ≤ nearestEven num den := by
  unfold nearestEven
  dsimp only
  split
  · exact Nat.le_refl _
  · split
    · exact Nat.le_succ _
    · exact Nat.le_add_right _ _

theorem nearestEven_le (num den : Nat) : nearestEven num den ≤ num / den + 1 := by
  unfold nearestEven
  dsimp only
  split
  · exact Nat.le_succ _
  · split
    · exact Nat.le_refl _
    · exact Nat.add_le_add_left (Nat.le_of_lt_succ (Nat.mod_lt _ Nat.two_pos)) _

/-- The least whole number that is not below `num / den`. -/
def ceilDiv (num den : Nat) : Nat := (num + den - 1) / den

theorem ceilDiv_mono {num more : Nat} (h : num ≤ more) (den : Nat) :
    ceilDiv num den ≤ ceilDiv more den :=
  Nat.div_le_div_right (Nat.sub_le_sub_right (Nat.add_le_add_right h den) 1)

theorem ceilDiv_add_self (num : Nat) {den : Nat} (h : 0 < den) :
    ceilDiv (num + den) den = ceilDiv num den + 1 := by
  have hsum : num + den + den - 1 = num + den - 1 + den := by omega
  rw [ceilDiv, hsum, Nat.add_div_right _ h]
  rfl

theorem ceilDiv_mul_self (n : Nat) {den : Nat} (h : 0 < den) : ceilDiv (n * den) den = n := by
  have hsum : n * den + den - 1 = den - 1 + den * n := by
    rw [Nat.mul_comm n]
    omega
  rw [ceilDiv, hsum, Nat.add_mul_div_left _ _ h, Nat.div_eq_of_lt (Nat.sub_lt h Nat.one_pos),
    Nat.zero_add]

end LoadBench
