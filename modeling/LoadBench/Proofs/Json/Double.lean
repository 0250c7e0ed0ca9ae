/-
  LoadBench.Proofs.Json.Double

  A finite double is written as a number, and never as a whole one
  (`Number.scan?_writeDouble`): with a point, or with an exponent.  What is left to
  chance is its value.  A double is read by one multiplication or division, which
  may round, so whether it comes back has to be computed (`Faithful`).
-/

import LoadBench.Proofs.Json.Number

namespace LoadBench

/-! ## Shortest names -/

namespace Decimal

/-- What a basin of a double above zero contains is above zero. -/
theorem Basin.pos_of_contains {mantissa exponent point scale : Nat} (hmantissa : mantissa ≠ 0)
    (hscale : 0 < scale) (h : (Basin.of mantissa exponent).contains point scale = true) :
    0 < point := by
  have hlow : 0 < (Basin.of mantissa exponent).low := by
    refine Nat.mul_pos ?_ (Nat.two_pow_pos exponent)
    split <;> omega
  have hscaled := Nat.mul_pos hlow hscale
  unfold contains at h
  split at h <;> rw [Bool.and_eq_true, decide_eq_true_eq] at h <;> omega

/-- Zero is not among the numbers that round to a double above it. -/
theorem Basin.meet?_ne_zero {mantissa exponent digits : Nat} (hmantissa : mantissa ≠ 0) {grid : Int}
    (h : (Basin.of mantissa exponent).meet? grid = some digits) : digits ≠ 0 := by
  have hscale : 0 < Nat.pow 10 (-grid).toNat := Nat.pow_pos (by decide)
  unfold meet? at h
  dsimp only at h
  split at h
  · cases h
  · next hcontains _ =>
    obtain rfl := Option.some.inj h
    exact (Nat.pos_of_mul_pos_right (pos_of_contains hmantissa hscale hcontains)).ne'
  · exact Option.some.inj h ▸ Nat.succ_ne_zero _
  · next hcontains _ =>
    -- The lower neighbour is above zero, and rounding goes to one of the two.
    obtain rfl := Option.some.inj h
    have hbelow := Nat.pos_of_mul_pos_right (pos_of_contains hmantissa hscale hcontains)
    exact (Nat.lt_of_lt_of_le hbelow (le_nearestEven _ _)).ne'

/-- The shortest name of a double above zero begins with another digit than zero. -/
theorem shortest_digits {mantissa : Nat} (hmantissa : mantissa ≠ 0) (exponent : Nat) :
    (shortest mantissa exponent).digits ≠ 0 ∨ (shortest mantissa exponent).exponent = 0 := by
  unfold shortest
  dsimp only
  cases hfound : (grids _).findSome? _ with
  | none => exact Or.inr rfl
  | some decimal =>
    obtain ⟨grid, -, hgrid⟩ := List.exists_of_findSome?_eq_some hfound
    obtain ⟨digits, hmeet, rfl⟩ := Option.map_eq_some_iff.mp hgrid
    exact Or.inl (Basin.meet?_ne_zero hmantissa hmeet)

end Decimal

namespace Json.Number

open Value (placed scientific writeDouble)

/-! ## Points and exponents -/

variable {digits : List Char}

theorem scanFraction?_point {rest : List Char} (hrest : ∀ c ∈ rest.head?, c.isDigit = false)
    (hdigits : ∀ c ∈ digits, c.isDigit = true) (hne : digits ≠ []) :
    scanFraction? ('.' :: (digits ++ rest)) = some (digits, rest) := by
  rw [scanFraction?, takeWhile_digits hrest hdigits, dropWhile_digits hrest hdigits]
  exact if_neg (by rwa [List.isEmpty_iff])

/-- Digits, a point and more digits are a number that is not a whole one. -/
theorem Leads.scanBody?_point {whole : List Char} (h : Leads whole)
    (hdigits : ∀ c ∈ digits, c.isDigit = true) (hne : digits ≠ []) (negative : Bool) :
    ∃ number, scanBody? negative (whole ++ '.' :: digits) = some (number, []) ∧
      number.isWhole = false := by
  have hfraction := scanFraction?_point isDigit_head_nil hdigits hne
  rw [List.append_nil] at hfraction
  have hpoint : ∀ c ∈ ('.' :: digits).head?, c.isDigit = false := by
    rintro c ⟨⟩
    rfl
  refine ⟨⟨negative, whole, digits, none⟩, ?_, ?_⟩
  · rw [h.scanBody?_append hpoint, hfraction]
    rfl
  · rw [isWhole, List.isEmpty_eq_false_iff.mpr hne, Bool.false_and]

/-- An exponent as it is written. -/
def exponentText (exponent : Int) : List Char :=
  'e' :: (if exponent < 0 then '-' else '+') :: Decimal.natural exponent.natAbs

theorem isDigit_head_exponentText (exponent : Int) :
    ∀ c ∈ (exponentText exponent).head?, c.isDigit = false := by
  rintro c ⟨⟩
  rfl

theorem scanExponent?_exponentText (exponent : Int) : scanExponent? (exponentText exponent) =
    some (some (decide (exponent < 0), Decimal.natural exponent.natAbs), []) := by
  have hall : ∀ c ∈ Decimal.natural exponent.natAbs, c.isDigit = true :=
    fun _ => Decimal.isDigit_of_mem_natural
  have htake := takeWhile_digits isDigit_head_nil hall
  have hdrop := dropWhile_digits isDigit_head_nil hall
  rw [List.append_nil] at htake hdrop
  have hsign : splitExponentSign ((if exponent < 0 then '-' else '+') ::
      Decimal.natural exponent.natAbs) =
        (decide (exponent < 0), Decimal.natural exponent.natAbs) := by
    by_cases hneg : exponent < 0
    · rw [if_pos hneg, decide_eq_true hneg]
      rfl
    · rw [if_neg hneg, decide_eq_false hneg]
      rfl
  rw [exponentText, scanExponent?, if_pos (by decide), hsign]
  simp only [htake, hdrop]
  rw [if_neg]
  rw [List.isEmpty_iff]
  exact Decimal.natural_ne_nil _

/-- A number with an exponent is not a whole one. -/
theorem Leads.scanBody?_exponent {whole rest : List Char} (h : Leads whole) {exponent : Int}
    (hrest : ∀ c ∈ rest.head?, c.isDigit = false)
    (hfraction : scanFraction? rest = some (digits, exponentText exponent)) (negative : Bool) :
    ∃ number, scanBody? negative (whole ++ rest) = some (number, []) ∧
      number.isWhole = false := by
  rw [h.scanBody?_append hrest, hfraction, Option.bind_some, scanExponent?_exponentText]
  exact ⟨_, rfl, Bool.and_false _⟩

/-! ## Both forms of a double -/

/-- What stands before the point of a number below the point: its front digits or one zero. -/
theorem leads_take {n : Nat} (h : n ≠ 0) (places : Nat) :
    Leads ((Decimal.padLeft (places + 1) '0' (Decimal.natural n)).take
      ((Decimal.padLeft (places + 1) '0' (Decimal.natural n)).length - places)) := by
  have hnatural := leads_natural n
  have hlength := List.length_pos_of_ne_nil hnatural.ne_nil
  by_cases hlong : places < (Decimal.natural n).length
  · -- Nothing was padded.
    have hpad : Decimal.padLeft (places + 1) '0' (Decimal.natural n) = Decimal.natural n := by
      rw [Decimal.padLeft, Nat.sub_eq_zero_of_le hlong]
      rfl
    have hpos : (Decimal.natural n).length - places ≠ 0 := by omega
    rw [hpad]
    refine ⟨fun c hc => hnatural.isDigit c (List.mem_of_mem_take hc), ?_, Or.inr ?_⟩
    · simp [List.take_eq_nil_iff, hpos, hnatural.ne_nil]
    · rw [List.head?_take, if_neg hpos]
      exact Decimal.head?_natural h
  · have hpad : Decimal.padLeft (places + 1) '0' (Decimal.natural n) =
        '0' :: (List.replicate (places - (Decimal.natural n).length) '0' ++ Decimal.natural n) := by
      rw [Decimal.padLeft, Nat.succ_sub (Nat.le_of_not_lt hlong), List.replicate_succ]
      rfl
    have hone : (Decimal.padLeft (places + 1) '0' (Decimal.natural n)).length - places = 1 := by
      rw [hpad]
      simp only [List.length_cons, List.length_append, List.length_replicate]
      omega
    rw [hone, hpad]
    exact ⟨List.forall_mem_singleton.mpr rfl, List.cons_ne_nil _ _, Or.inl rfl⟩

/-- Digits with a point among or behind them. -/
theorem scanBody?_placed {n : Nat} {power : Int} (h : n ≠ 0 ∨ power = 0) (negative : Bool) :
    ∃ number, scanBody? negative (placed (Decimal.natural n) power) = some (number, []) ∧
      number.isWhole = false := by
  have hnatural := leads_natural n
  unfold placed
  split
  · -- Zeros follow the digits up to the point.
    have hleads : Leads (Decimal.natural n ++ List.replicate power.toNat '0') := by
      refine ⟨List.forall_mem_append.mpr ⟨hnatural.isDigit, ?_⟩, ?_, ?_⟩
      · intro c hc
        rw [List.eq_of_mem_replicate hc]
        rfl
      · exact fun hnil => hnatural.ne_nil (List.append_eq_nil_iff.mp hnil).1
      · rcases h with hn | rfl
        · rw [List.head?_append_of_ne_nil _ hnatural.ne_nil]
          exact Or.inr (Decimal.head?_natural hn)
        · rw [Int.toNat_zero, List.replicate_zero, List.append_nil]
          exact hnatural.zero
    exact hleads.scanBody?_point (List.forall_mem_singleton.mpr rfl) (List.cons_ne_nil '0' []) negative
  · next hpower =>
    have hn : n ≠ 0 := h.resolve_right fun hzero => hpower (hzero ▸ Int.le_refl 0)
    refine (leads_take hn _).scanBody?_point (fun c hc => ?_) (fun hnil => ?_) negative
    · -- Digits and zeros before them.
      rcases List.mem_append.mp (List.mem_of_mem_drop hc) with hzero | hdigit
      · rw [List.eq_of_mem_replicate hzero]
        rfl
      · exact hnatural.isDigit c hdigit
    · have hlength := congrArg List.length hnil
      simp only [Decimal.padLeft, List.length_drop, List.length_append, List.length_replicate,
        List.length_nil] at hlength
      omega

/-- One digit before the point, and an exponent. -/
theorem scanBody?_scientific (n : Nat) (exponent : Int) (negative : Bool) :
    ∃ number, scanBody? negative (scientific (Decimal.natural n) exponent) = some (number, []) ∧
      number.isWhole = false := by
  have hmark := isDigit_head_exponentText exponent
  obtain ⟨hdigits, hne, -⟩ := leads_natural n
  unfold scientific
  cases hnatural : Decimal.natural n with
  | nil => exact absurd hnatural hne
  | cons digit rest =>
    rw [hnatural] at hdigits
    obtain ⟨hdigit, hrest⟩ := List.forall_mem_cons.mp hdigits
    have hleads : Leads [digit] :=
      ⟨List.forall_mem_singleton.mpr hdigit, List.cons_ne_nil _ _, Or.inl rfl⟩
    cases rest with
    | nil => exact hleads.scanBody?_exponent hmark rfl negative
    | cons next others =>
      have hpoint := scanFraction?_point hmark hrest (List.cons_ne_nil next others)
      refine hleads.scanBody?_exponent ?_ hpoint negative
      rintro c ⟨⟩
      rfl

/-- Every finite double is written as a number, which is not a whole one. -/
theorem scan?_writeDouble {x : Binary64} (h : x.isFinite = true) :
    ∃ number, scan? (writeDouble x) = some (number, []) ∧ number.isWhole = false := by
  cases x with
  | nan => cases h
  | infinite negative => cases h
  | finite negative mantissa exponent =>
    suffices hbody : ∃ body, writeDouble (.finite negative mantissa exponent) =
        (if negative then ['-'] else []) ++ body ∧
        ∃ number, scanBody? negative body = some (number, []) ∧ number.isWhole = false by
      obtain ⟨body, hwritten, number, hscan, hwhole⟩ := hbody
      exact ⟨number, hwritten ▸ scan?_signed hscan, hwhole⟩
    unfold writeDouble
    by_cases hzero : mantissa = 0
    · exact ⟨['0', '.', '0'], if_pos hzero, _, rfl, rfl⟩
    · refine ⟨_, if_neg hzero, ?_⟩
      split
      · exact scanBody?_placed (Decimal.shortest_digits hzero exponent) negative
      · exact scanBody?_scientific _ _ negative

/-! ## Values -/

/-- A double as it is written. -/
def ofDouble (x : Binary64) : Number :=
  match scan? (writeDouble x) with
  | some (number, _) => number
  | none => ⟨false, [], [], none⟩

end Number

/-- Whether a double comes back: what is read of what is written for it has just its value. -/
def Faithful (x : Binary64) : Prop :=
  ((Number.scan? (Value.writeDouble x)).bind fun found => found.1.double?) = some x

instance (x : Binary64) : Decidable (Faithful x) := inferInstanceAs (Decidable (_ = _))

/-- Numbers that are not finite are written as no number. -/
theorem Faithful.isFinite {x : Binary64} (h : Faithful x) : x.isFinite = true := by
  cases x with
  | nan => exact absurd h nofun
  | infinite negative => exact absurd h nofun
  | finite => rfl

namespace Faithful

variable {x : Binary64} (h : Faithful x)

include h

theorem scan?_eq : Number.scan? (Value.writeDouble x) = some (Number.ofDouble x, []) := by
  obtain ⟨number, hscan, -⟩ := Number.scan?_writeDouble h.isFinite
  rw [Number.ofDouble, hscan]

theorem integer?_eq : (Number.ofDouble x).integer? = none := by
  obtain ⟨number, hscan, hwhole⟩ := Number.scan?_writeDouble h.isFinite
  rw [Number.ofDouble, hscan, Number.integer?, hwhole]
  rfl

theorem double?_eq : (Number.ofDouble x).double? = some x := by
  have hread := h
  rwa [Faithful, h.scan?_eq] at hread

end Faithful

example : Faithful (Binary64.ofNat 250 / Binary64.ofNat 1000) := by decide +kernel

end Json

end LoadBench
