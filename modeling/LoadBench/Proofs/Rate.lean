/-
  LoadBench.Proofs.Rate

  What the text of a byte count states.  Dividing by 1024 takes nothing from a double
  that is at least 1024 (`Binary64.Counted.div`), so the text states the byte count in the
  greatest unit that it fills, rounded once, to a tenth (`Rate.stated_bytesText`).  The
  unit is chosen before the number is rounded: less than half a tenth short of the next
  unit, the text states 1024 of the smaller one (`Rate.not_below_nextUnit`).
-/

import LoadBench.Proofs.Numeral
import LoadBench.Proofs.Units
import LoadBench.Rate
import Mathlib.Algebra.Order.AbsoluteValue.Basic
import Mathlib.Data.Nat.Log
import Mathlib.Tactic.FieldSimp
import Mathlib.Tactic.Linarith
import Mathlib.Tactic.NormNum
import Mathlib.Tactic.Positivity
import Mathlib.Tactic.Ring

namespace LoadBench

namespace Binary64

variable {x : Binary64} {units : Nat}

/-! ## Division by 1024 -/

/-- From 1024 on, units can be divided by 1024, and the bits are enough for the quotient. -/
theorem fits_div (hgreat : 1024 * one ≤ units) (h : 2 ^ exponentOf units ∣ units) :
    units / 1024 * 1024 = units ∧ 2 ^ exponentOf (units / 1024) ∣ units / 1024 := by
  -- The last bit in use stands for 1024 units at least, so it is still a unit after the division.
  have hbits : 62 ≤ units.log2 := by
    have hone : 2 ^ 62 ≤ one := by decide +kernel
    have hscaled : 2 ^ 62 ≤ units :=
      Nat.le_trans hone (Nat.le_trans (Nat.le_mul_of_pos_left one (by decide)) hgreat)
    rw [Nat.log2_eq_log_two]
    exact Nat.le_log_of_pow_le Nat.one_lt_two hscaled
  have hlog : (units / 1024).log2 = units.log2 - 10 := by
    rw [Nat.log2_eq_log_two, Nat.log2_eq_log_two]
    exact Nat.log_div_base_pow 2 units 10
  have hexponent : exponentOf units = exponentOf (units / 1024) + 10 := by
    unfold exponentOf
    omega
  obtain ⟨mantissa, hmantissa⟩ := h
  rw [hexponent, pow_add, Nat.mul_right_comm] at hmantissa
  have hpart : units / 1024 = 2 ^ exponentOf (units / 1024) * mantissa :=
    Nat.div_eq_of_eq_mul_left (by decide) hmantissa
  refine ⟨?_, mantissa, hpart⟩
  rw [hpart]
  exact hmantissa.symm

theorem Counted.le_iff (h : Counted x units) :
    le (ofNat 1024) x = true ↔ 1024 * one ≤ units := by
  obtain ⟨m, e, hfinite, hunits⟩ := ofNat_eq_finite (n := 1024) (by decide)
  have hplace : (Binary64.finite false m e).place = (1024 * one : Nat) := congrArg Int.ofNat hunits
  rw [Binary64.le_iff, hfinite, hplace, h.place_eq, Int.ofNat_le]
  exact ⟨fun hle => hle.2.2, fun hle => ⟨nofun, h.ne_nan, hle⟩⟩

/-- From 1024 on, the quotient is exact. -/
theorem Counted.div (h : Counted x units) (hgreat : 1024 * one ≤ units) :
    Counted (x / ofNat 1024) (units / 1024) ∧ units / 1024 * 1024 = units := by
  obtain ⟨hunits, hfits⟩ := fits_div hgreat h.fits
  obtain ⟨negative, mantissa, exponent, rfl, hmantissa, hsign⟩ := h.finite
  have hpos : negative = false := by
    have hone := one_pos
    cases negative with
    | true =>
      have hzero := hsign rfl
      omega
    | false => rfl
  have hrange : units / 1024 < 2 ^ 2097 := by
    apply Nat.div_lt_of_lt_mul
    rw [(by decide : 1024 = 2 ^ 10), ← pow_add]
    exact Nat.lt_trans h.range (two_pow_lt (by decide))
  obtain ⟨m, e, hround, hrounded⟩ := round_eq_finite hrange
  have hexact : rounded (units / 1024 * 1024) 1024 = units / 1024 := rounded_mul (by decide) hfits
  rw [hunits] at hexact
  refine ⟨⟨⟨false, m, e, ?_, hrounded.trans hexact, nofun⟩, hfits, ?_⟩, hunits⟩
  · rw [div_ofNat (by decide) (by decide), hmantissa, hpos]
    exact hround
  · exact Nat.lt_trans hrange (two_pow_lt (by decide))

end Binary64

namespace Rate

open Binary64 (one Counted)
open Decimal (Numeral natural)

/-! ## The unit -/

/-- A byte count of `units` as `part` of the unit that `letter` stands for. -/
structure InUnit (letters : List Char) (units power : Nat) (letter : Char) (scaled : Binary64)
    (part : Nat) : Prop where
  letter_eq : letters[power]? = some letter
  counted : Counted scaled part
  part_mul : part * 1024 ^ power = units
  filled : 0 < power → one ≤ part
  less : power + 1 < letters.length → part < 1024 * one

section

variable {letters : List Char} {value : Binary64} {units : Nat}

/-- What does not fill the next unit, or has none, stays in its own. -/
theorem inUnit_zero (letter : Char) (h : Counted value units)
    (hless : letters ≠ [] → units < 1024 * one) :
    InUnit (letter :: letters) units 0 letter value units where
  letter_eq := rfl
  counted := h
  part_mul := Nat.mul_one units
  filled := nofun
  less hlt := hless (List.ne_nil_of_length_pos (Nat.lt_of_succ_lt_succ hlt))

/-- What fills the next unit is in its unit after the division as it was before. -/
theorem InUnit.cons {power part : Nat} {letter : Char} {scaled : Binary64} (first : Char)
    (h : InUnit letters (units / 1024) power letter scaled part) (hgreat : 1024 * one ≤ units)
    (hunits : units / 1024 * 1024 = units) :
    InUnit (first :: letters) units (power + 1) letter scaled part where
  letter_eq := h.letter_eq
  counted := h.counted
  part_mul := by rw [pow_succ, ← Nat.mul_assoc, h.part_mul, hunits]
  filled _ := by
    rcases Nat.eq_zero_or_pos power with rfl | hpos
    · have hpart := h.part_mul
      rw [pow_zero, Nat.mul_one] at hpart
      omega
    · exact h.filled hpos
  less hlt := h.less (Nat.lt_of_succ_lt_succ hlt)

/-- A byte count is divided until the next unit is not filled, or there is none. -/
theorem scaleBytes_spec (hsome : letters ≠ []) (h : Counted value units) :
    ∃ power letter scaled part, scaleBytes value letters = (scaled, [letter]) ∧
      InUnit letters units power letter scaled part := by
  induction letters generalizing value units with
  | nil => exact absurd rfl hsome
  | cons letter others ih =>
    cases others with
    | nil => exact ⟨0, letter, value, units, rfl, inUnit_zero letter h (absurd rfl)⟩
    | cons larger rest =>
      by_cases hle : Binary64.le (Binary64.ofNat 1024) value = true
      · have hgreat := h.le_iff.mp hle
        obtain ⟨hcounted, hunits⟩ := h.div hgreat
        obtain ⟨power, last, scaled, part, hscale, hpart⟩ :=
          ih (List.cons_ne_nil larger rest) hcounted
        refine ⟨power + 1, last, scaled, part, ?_, hpart.cons letter hgreat hunits⟩
        rw [scaleBytes, if_pos hle]
        exact hscale
      · refine ⟨0, letter, value, units, ?_, inUnit_zero letter h fun _ => ?_⟩
        · rw [scaleBytes, if_neg hle]
        · exact Nat.lt_of_not_le fun hgreat => hle (h.le_iff.mpr hgreat)

end

/-! ## The number -/

/-- A number of tenths, without a place for none. -/
def tenths (negative : Bool) (count : Nat) : Numeral where
  negative := negative
  whole := natural (count / 10)
  fraction := if count % 10 = 0 then [] else [Nat.digitChar (count % 10)]

theorem ofDigitChars_tenths (negative : Bool) (count : Nat) :
    Nat.ofDigitChars 10 ((tenths negative count).whole ++ (tenths negative count).fraction) 0 * 10 =
      count * 10 ^ (tenths negative count).fraction.length := by
  have hcount := Nat.div_add_mod' count 10
  unfold tenths
  dsimp only
  by_cases hzero : count % 10 = 0
  · rw [if_pos hzero, List.append_nil, Decimal.ofDigitChars_natural, List.length_nil, pow_zero]
    omega
  · rw [if_neg hzero, Nat.ofDigitChars_append, Decimal.ofDigitChars_natural,
      Nat.ofDigitChars_cons_digitChar_of_lt_ten (Nat.mod_lt _ (by decide)), Nat.ofDigitChars_nil,
      List.length_singleton, pow_one]
    omega

theorem exact_tenths {negative : Bool} {count : Nat} (h : negative = true → count = 0) :
    (tenths negative count).exact = count / 10 := by
  have hdigits := ofDigitChars_tenths negative count
  unfold Numeral.exact
  rw [Binary64.signed_of_zero, div_eq_div_iff (by positivity) (by norm_num)]
  · exact_mod_cast hdigits
  · intro hnegative
    rw [h hnegative] at hdigits ⊢
    omega

theorem dropZeroPlace_append (front : List Char) (last : Char) :
    dropZeroPlace (front ++ ['.', last]) =
      if last = '0' then front else front ++ ['.', last] := by
  have hreverse : (front ++ ['.', last]).reverse = last :: '.' :: front.reverse :=
    List.reverse_append
  unfold dropZeroPlace
  rw [hreverse]
  split
  · next rest heq =>
    cases heq
    rw [if_pos rfl, List.reverse_reverse]
  · next hother =>
    rw [if_neg]
    rintro rfl
    exact hother _ rfl

/-- A number with one place, as it is written. -/
theorem fixed_one (negative : Bool) (mantissa exponent : Nat) {count : Nat}
    (h : nearestEven (mantissa * 2 ^ exponent * 10) one = count) :
    Decimal.fixed 1 (.finite negative mantissa exponent) =
      (if negative then ['-'] else []) ++ natural (count / 10) ++
        ['.', Nat.digitChar (count % 10)] := by
  have hplace : Decimal.padLeft 1 '0' (natural (count % 10)) = [Nat.digitChar (count % 10)] := by
    rw [natural, Nat.toDigits_of_lt_base (Nat.mod_lt _ (by decide))]
    rfl
  rw [List.append_assoc, ← hplace, ← h]
  rfl

/-- The text of a number with one place spells its tenths. -/
theorem spells_tenths (negative : Bool) (mantissa exponent : Nat) {count : Nat}
    (h : nearestEven (mantissa * 2 ^ exponent * 10) one = count) :
    Numeral.Spells (dropZeroPlace (Decimal.fixed 1 (.finite negative mantissa exponent)))
      (tenths negative count) := by
  have hsign : (if negative then ['-'] else []) ∈ Numeral.signs negative := by
    cases negative <;> exact List.mem_cons_self
  have hdigit : (Nat.digitChar (count % 10)).isDigit = true := by
    rw [Nat.isDigit_digitChar]
    exact decide_eq_true (Nat.mod_lt _ (by decide))
  -- The point goes together with the zero behind it, or both stay.
  rw [fixed_one negative mantissa exponent h, dropZeroPlace_append]
  simp only [Nat.digitChar_eq_zero]
  constructor
  · refine ⟨_, hsign, if count % 10 = 0 then [] else ['.', Nat.digitChar (count % 10)], ?_, ?_⟩
    · unfold tenths Numeral.tails
      split <;> simp
    · unfold tenths
      split <;> simp
  · intro c hc
    rcases List.mem_append.mp hc with hwhole | hfraction
    · exact Decimal.isDigit_of_mem_natural hwhole
    · unfold tenths at hfraction
      dsimp only at hfraction
      split at hfraction
      · cases hfraction
      · rw [List.mem_singleton.mp hfraction]
        exact hdigit
  · exact List.append_ne_nil_of_left_ne_nil (Decimal.natural_ne_nil _) _

/-! ## What the text says -/

/-- The number and the power of 1024 that the text of a byte count states. -/
def stated? (text : List Char) : Option (ℚ × Nat) := do
  let letter ← text.getLast?
  let numeral ← Numeral.ofText? text.dropLast
  let power ← byteUnits.idxOf? letter
  return (numeral.exact, power)

theorem idxOf?_byteUnits {power : Nat} {letter : Char} (h : byteUnits[power]? = some letter) :
    byteUnits.idxOf? letter = some power := by
  have hnodup : byteUnits.Nodup := by decide
  obtain ⟨hpower, rfl⟩ := List.getElem?_eq_some_iff.mp h
  refine List.idxOf?_eq_some_iff.mpr ⟨hpower, rfl, fun other hother heq => ?_⟩
  have hsame := (List.Nodup.getElem_inj_iff hnodup).mp heq
  omega

/-- How a number of units of `1024 ^ power` bytes stands for a byte count. -/
structure Scaled (bytes number : ℚ) (power : Nat) : Prop where
  power_le : power ≤ 5
  /-- The unit is filled, unless it is the smallest one, ... -/
  filled : 0 < power → 1024 ^ power ≤ bytes
  /-- ... and the next one is not, unless there is none. -/
  less : power < 5 → bytes < 1024 ^ (power + 1)
  /-- The number is the byte count in that unit, rounded to a tenth. -/
  tenths : ∃ count : Nat, number = count / 10
  near : |number - bytes / 1024 ^ power| ≤ 1 / 20
  one_le : 0 < power → 1 ≤ number
  le : power < 5 → number ≤ 1024
  /-- The next unit is stated as 1024 of this one from half a tenth below it on. -/
  lt_iff : power < 5 → (number < 1024 ↔ bytes / 1024 ^ power < 1024 - 1 / 20)

section

variable {num den power : Nat} (hden : 0 < den)

include hden

/-- A quotient is nowhere more than half a tenth away from its tenths. -/
theorem abs_tenths_sub_le :
    |(nearestEven (num * 10) den / 10 : ℚ) - num / den| ≤ 1 / 20 := by
  obtain ⟨hup, hdown⟩ := nearestEven_near (num * 10) hden
  have hpos : (0 : ℚ) < den := Nat.cast_pos.mpr hden
  have hnum : (num / den : ℚ) * den = num := div_mul_cancel₀ _ hpos.ne'
  have hup' : (2 : ℚ) * (num * 10) ≤ 2 * (nearestEven (num * 10) den * den) + den := by
    exact_mod_cast hup
  have hdown' : (2 : ℚ) * (nearestEven (num * 10) den * den) ≤ 2 * (num * 10) + den := by
    exact_mod_cast hdown
  rw [← hnum] at hup' hdown'
  rw [abs_le]
  constructor
  · apply le_of_mul_le_mul_right _ hpos
    linarith
  · apply le_of_mul_le_mul_right _ hpos
    linarith

/-- It is rounded to less than 1024 just below the last half of a tenth. -/
theorem tenths_lt_iff :
    (nearestEven (num * 10) den / 10 : ℚ) < 1024 ↔ (num / den : ℚ) < 1024 - 1 / 20 := by
  have hpos : (0 : ℚ) < den := Nat.cast_pos.mpr hden
  have hreach : 10240 ≤ nearestEven (num * 10) den ↔ 2 * (10240 * den) ≤ 2 * (num * 10) + den :=
    le_nearestEven_iff (by decide) (num * 10) hden
  have hcount : (nearestEven (num * 10) den / 10 : ℚ) < 1024 ↔
      nearestEven (num * 10) den < 10240 := by
    rw [div_lt_iff₀ (by norm_num)]
    norm_num
  have hquotient : (num / den : ℚ) < 1024 - 1 / 20 ↔ 20 * num < 20479 * den := by
    rw [div_lt_iff₀ hpos]
    constructor
    · intro hlt
      have hscaled : (20 : ℚ) * num < 20479 * den := by linarith
      exact_mod_cast hscaled
    · intro hlt
      have hscaled : (20 : ℚ) * num < 20479 * den := by exact_mod_cast hlt
      linarith
  rw [hcount, hquotient]
  omega

/-- The number is rounded once, and its bounds are those of the rounding. -/
theorem scaled_nearestEven (hpower : power ≤ 5) (hfilled : 0 < power → den ≤ num)
    (hless : power < 5 → num < 1024 * den) :
    Scaled ((num * 1024 ^ power : Nat) / den) (nearestEven (num * 10) den / 10 : ℚ) power := by
  have hpos : (0 : ℚ) < den := Nat.cast_pos.mpr hden
  have hunit : (0 : ℚ) < 1024 ^ power := by positivity
  have hsize : ((num * 1024 ^ power : Nat) / den : ℚ) / 1024 ^ power = num / den := by
    push_cast
    field_simp
  refine ⟨hpower, fun hlarge => ?_, fun hlt => ?_, ⟨_, rfl⟩, ?_, fun hlarge => ?_, fun hlt => ?_,
    fun hlt => ?_⟩
  · rw [le_div_iff₀ hpos, mul_comm]
    exact_mod_cast Nat.mul_le_mul_right (1024 ^ power) (hfilled hlarge)
  · rw [div_lt_iff₀ hpos, pow_succ, mul_assoc, mul_comm (1024 ^ power : ℚ)]
    exact_mod_cast Nat.mul_lt_mul_of_pos_right (hless hlt) (by positivity)
  · rw [hsize]
    exact abs_tenths_sub_le hden
  · have hten : 10 ≤ nearestEven (num * 10) den := by
      apply le_nearestEven_of_le hden
      have hnum := hfilled hlarge
      omega
    rw [le_div_iff₀ (by norm_num), one_mul]
    exact_mod_cast hten
  · have hmost : nearestEven (num * 10) den ≤ 10240 := by
      apply nearestEven_le_of_le hden
      have hnum := hless hlt
      omega
    have hcast : (nearestEven (num * 10) den : ℚ) ≤ 10240 := by exact_mod_cast hmost
    linarith
  · rw [hsize]
    exact tenths_lt_iff hden

end

theorem stated?_concat {front : List Char} {letter : Char} {numeral : Numeral} {power : Nat}
    (h : Numeral.Spells front numeral) (hletter : byteUnits[power]? = some letter) :
    stated? (front ++ [letter]) = some (numeral.exact, power) := by
  have hread := (Numeral.ofText?_eq_some_iff front numeral).mpr h
  unfold stated?
  simp only [List.getLast?_concat, List.dropLast_concat, hread, idxOf?_byteUnits hletter,
    Option.bind_eq_bind, Option.bind_some]
  rfl

theorem bytesText_of_counted {bytes : Binary64} {units : Nat} (h : Counted bytes units) :
    bytesText bytes = dropZeroPlace (Decimal.fixed 1 (scaleBytes bytes byteUnits).1) ++
      (scaleBytes bytes byteUnits).2 := by
  unfold bytesText
  rw [h.isFinite_eq, h.lt_zero_eq, Bool.not_true, Bool.or_false, if_neg Bool.false_ne_true]

/-- The text of a byte count states it in the greatest unit that it fills, rounded to a tenth.
The number is at least one then unless the unit is a byte, and at most 1024 unless there is no
greater unit. -/
theorem stated_bytesText (bits : UInt64) (hfinite : (Binary64.ofBits bits).isFinite = true)
    (h : Binary64.le Binary64.zero (Binary64.ofBits bits) = true) :
    ∃ number power, stated? (bytesText (Binary64.ofBits bits)) = some (number, power) ∧
      Scaled (Binary64.ofBits bits).exact number power := by
  have hcounted := Binary64.counted_of_normal (Binary64.normal_ofBits bits) hfinite h
  have hletters : byteUnits ≠ [] := List.cons_ne_nil _ _
  obtain ⟨power, letter, scaled, part, hscale, hpart⟩ := scaleBytes_spec hletters hcounted
  obtain ⟨negative, mantissa, exponent, rfl, hmantissa, hsign⟩ := hpart.counted.finite
  have hpower : power < byteUnits.length := (List.getElem?_eq_some_iff.mp hpart.letter_eq).1
  have hcount : nearestEven (mantissa * 2 ^ exponent * 10) one = nearestEven (part * 10) one := by
    rw [hmantissa]
  -- A minus only stands in front of zero.
  have hzero : negative = true → nearestEven (part * 10) one = 0 := by
    intro hnegative
    have hnone := nearestEven_mul 0 Binary64.one_pos
    rw [Nat.zero_mul] at hnone
    rw [hsign hnegative, Nat.zero_mul, hnone]
  have hstated := stated?_concat (spells_tenths negative mantissa exponent hcount) hpart.letter_eq
  rw [exact_tenths hzero] at hstated
  refine ⟨(nearestEven (part * 10) one : ℚ) / 10, power, ?_, ?_⟩
  · rw [bytesText_of_counted hcounted, hscale]
    exact hstated
  · rw [hcounted.exact_eq, ← hpart.part_mul]
    exact scaled_nearestEven Binary64.one_pos (Nat.le_of_lt_succ hpower) hpart.filled fun hlt =>
      hpart.less (Nat.succ_lt_succ hlt)

/-- One and a half kilobytes. -/
theorem stated_kilobytes :
    (Binary64.ofBits 0x4098000000000000).isFinite = true ∧
      Binary64.le Binary64.zero (Binary64.ofBits 0x4098000000000000) = true ∧
      ∃ number power,
        stated? (bytesText (Binary64.ofBits 0x4098000000000000)) = some (number, power) ∧
          Scaled (Binary64.ofBits 0x4098000000000000).exact number power := by
  have hfinite : (Binary64.ofBits 0x4098000000000000).isFinite = true := by decide
  have hle : Binary64.le Binary64.zero (Binary64.ofBits 0x4098000000000000) = true := by
    decide +kernel
  exact ⟨hfinite, hle, stated_bytesText 0x4098000000000000 hfinite hle⟩

/-- One byte less than a megabyte is stated as 1024 kilobytes. -/
theorem not_below_nextUnit :
    ¬∀ number power,
      stated? (bytesText (Binary64.ofBits 0x412ffffe00000000)) = some (number, power) →
        power < 5 → number < 1024 := by
  intro h
  have hstated : stated? (bytesText (Binary64.ofBits 0x412ffffe00000000)) = some (1024, 1) := by
    decide +kernel
  exact lt_irrefl _ (h 1024 1 hstated (by decide))

end Rate

end LoadBench
