/-
  LoadBench.Proofs.Duration

  The texts of lengths of time.  A text gives a length if it is made of a numeral and a unit
  with white space around them (`Duration.States`), and the numeral is finite as a double
  and not below zero.  Every text that gives none is refused with a message.  A length is
  rounded once to seconds and once to nanoseconds, and is a span that fits as long as it is
  below `TimeSpan.limit`; from there on it passes every check and ends the program
  (`Duration.settled_ofText`, `Duration.unanswered_twentyNines`).
-/

import LoadBench.Proofs.Numeral
import LoadBench.Proofs.Text.Blank
import LoadBench.Proofs.Units
import LoadBench.Settings.Flags

namespace LoadBench

open Binary64 (one rounded Counted)
open Decimal (Numeral)
open Text (Blank Trimmed isBlank trim)

/-! ## Units -/

/-- The units of lengths of time. -/
inductive TimeUnit where
  | millisecond
  | second
  | minute
  | hour
  deriving DecidableEq, Repr

namespace TimeUnit

/-- The name of a unit. -/
def name : TimeUnit → List Char
  | .millisecond => ['m', 's']
  | .second => ['s']
  | .minute => ['m']
  | .hour => ['h']

/-- What stands for a unit: its name, or nothing for seconds. -/
def names (unit : TimeUnit) : List (List Char) :=
  if unit = .second then [unit.name, []] else [unit.name]

/-- How many seconds `divisor` of a unit are. -/
def factor : TimeUnit → Nat
  | .millisecond => 1
  | .second => 1
  | .minute => 60
  | .hour => 3600

def divisor : TimeUnit → Nat
  | .millisecond => 1000
  | .second => 1
  | .minute => 1
  | .hour => 1

/-- How many seconds a unit has. -/
def seconds (unit : TimeUnit) : ℚ := unit.factor / unit.divisor

/-- A number of units as a number of seconds. -/
def inSeconds (unit : TimeUnit) (value : Binary64) : Binary64 :=
  match unit with
  | .millisecond => value / Binary64.ofNat 1000
  | .second => value
  | .minute => value * Binary64.ofNat 60
  | .hour => value * Binary64.ofNat 3600

theorem mem_names_iff (unit : TimeUnit) (letters : List Char) :
    letters ∈ unit.names ↔ letters = unit.name ∨ letters = [] ∧ unit = .second := by
  unfold names
  by_cases hsecond : unit = .second
  · rw [if_pos hsecond, List.mem_cons, List.mem_singleton, and_iff_left hsecond]
  · rw [if_neg hsecond, List.mem_singleton]
    exact (or_iff_left fun hboth => hsecond hboth.2).symm

theorem isLetter_name (unit : TimeUnit) : ∀ c ∈ unit.name, isLetter c = true := by
  rw [← List.all_eq_true]
  cases unit <;> decide

theorem name_ne_nil (unit : TimeUnit) : unit.name ≠ [] := by
  cases unit <;> exact List.cons_ne_nil _ _

theorem divisor_pos (unit : TimeUnit) : 0 < unit.divisor := by
  cases unit <;> decide

theorem inSeconds?_name (unit : TimeUnit) (value : Binary64) :
    inSeconds? value unit.name = some (unit.inSeconds value) := by
  cases unit <;> rfl

theorem exists_of_inSeconds? {value seconds : Binary64} {letters : List Char}
    (h : inSeconds? value letters = some seconds) : ∃ unit : TimeUnit, letters = unit.name := by
  unfold inSeconds? at h
  split at h
  · next hname => exact ⟨.millisecond, hname⟩
  · split at h
    · next hname => exact ⟨.second, hname⟩
    · split at h
      · next hname => exact ⟨.minute, hname⟩
      · split at h
        · next hname => exact ⟨.hour, hname⟩
        · cases h

theorem inSeconds_finite {unit : TimeUnit} (h : unit ≠ .second) (negative : Bool)
    (mantissa exponent : Nat) :
    unit.inSeconds (.finite negative mantissa exponent) =
      Binary64.round negative (mantissa * 2 ^ exponent * unit.factor) unit.divisor := by
  cases unit with
  | millisecond =>
    rw [factor, Nat.mul_one]
    exact Binary64.div_ofNat (by decide) (by decide) negative mantissa exponent
  | second => exact absurd rfl h
  | minute => exact Binary64.mul_ofNat (by decide) negative mantissa exponent
  | hour => exact Binary64.mul_ofNat (by decide) negative mantissa exponent

/-- A number of units is rounded once to a number of seconds. -/
theorem inSeconds_cases (unit : TimeUnit) {value : Binary64} {units : Nat}
    (h : Counted value units) :
    (2 ^ 2098 ≤ rounded (units * unit.factor) unit.divisor ∧
        unit.inSeconds value = .infinite false) ∨
      Counted (unit.inSeconds value) (rounded (units * unit.factor) unit.divisor) := by
  by_cases hsecond : unit = .second
  · -- A number of seconds stays as it is.
    subst hsecond
    refine Or.inr ?_
    rwa [factor, divisor, Nat.mul_one, h.rounded_one]
  · obtain ⟨negative, mantissa, exponent, rfl, hunits, hsign⟩ := h.finite
    rw [inSeconds_finite hsecond, hunits]
    apply Binary64.counted_round unit.divisor_pos
    intro hnegative
    rw [hsign hnegative, Nat.zero_mul]

end TimeUnit

/-! ## Spans -/

/-- The span of so many units of seconds. -/
def TimeSpan.ofUnits (units : Nat) : TimeSpan := ⟨nearestEven (units * nanosPerSecond) one⟩

theorem TimeSpan.ofSeconds?_counted {seconds : Binary64} {units : Nat}
    (h : Counted seconds units) :
    ofSeconds? seconds = if UInt64.size * one ≤ units then none else some (ofUnits units) := by
  obtain ⟨negative, mantissa, exponent, rfl, hunits, hsign⟩ := h.finite
  have hnegative : ¬(negative && units != 0) = true := by
    rw [Bool.and_eq_true, bne_iff_ne]
    exact fun hboth => hboth.2 (hsign hboth.1)
  rw [← hunits] at hnegative ⊢
  exact if_neg hnegative

theorem le_mul_of_dvd {units last den : Nat} (hdvd : den ∣ units)
    (hless : units < (last + 1) * den) : units ≤ last * den := by
  obtain ⟨whole, rfl⟩ := hdvd
  rw [Nat.mul_comm den] at hless ⊢
  exact Nat.mul_le_mul_right den (Nat.le_of_lt_succ (Nat.lt_of_mul_lt_mul_right hless))

theorem nearestEven_mul_le {units last den : Nat} (factor : Nat) (hden : 0 < den)
    (h : units ≤ last * den) : nearestEven (units * factor) den ≤ last * factor := by
  apply nearestEven_le_of_le hden
  rw [Nat.mul_right_comm]
  exact Nat.mul_le_mul_right factor h

theorem TimeSpan.fits_of_nanos_le {span : TimeSpan} {last : Nat} (hlast : last < UInt64.size)
    (h : span.nanos ≤ last * nanosPerSecond) : span.fits = true := by
  have hseconds : span.seconds ≤ last := by
    refine Nat.le_trans (Nat.div_le_div_right h) (Nat.le_of_eq ?_)
    exact Nat.mul_div_cancel _ (by decide)
  exact decide_eq_true (Nat.lt_of_le_of_lt hseconds hlast)

/-- A number of seconds below 2^64 stays below when it is rounded to nanoseconds. -/
theorem TimeSpan.fits_ofUnits {seconds : Binary64} {units : Nat} (h : Counted seconds units)
    (hless : units < UInt64.size * one) : (ofUnits units).fits = true := by
  obtain ⟨last, hlast⟩ : ∃ last, UInt64.size = last + 1 := ⟨_, rfl⟩
  have hroom : 2 ^ 52 < UInt64.size := by decide
  rw [hlast] at hless hroom
  -- Doubles of that size are whole numbers, so the last second is not passed.
  have hwhole : units ≤ last * one := by
    by_cases hgreat : 2 ^ 52 * one ≤ units
    · exact le_mul_of_dvd (h.one_dvd hgreat) hless
    · exact Nat.le_trans (Nat.le_of_not_le hgreat) (Nat.mul_le_mul_right one (by omega))
  have hnanos : nearestEven (units * nanosPerSecond) one ≤ last * nanosPerSecond :=
    nearestEven_mul_le nanosPerSecond Binary64.one_pos hwhole
  refine fits_of_nanos_le (hlast ▸ Nat.lt_add_one last) ?_
  unfold ofUnits
  dsimp only
  exact hnanos

/-- From so many seconds on, the nearest double is not below 2^64. -/
def TimeSpan.limit : ℚ := 2 ^ 64 - 2 ^ 10

theorem Binary64.size_le_rounded_iff (num : Nat) {den : Nat} (hden : 0 < den) :
    UInt64.size * one ≤ rounded num den ↔ (2 ^ 64 - 2 ^ 10) * (den * one) ≤ num := by
  unfold one
  generalize 1074 = bits
  have hreach := two_pow_le_rounded_iff (bits + 10) num hden
  have hleft : UInt64.size * Nat.pow 2 bits = 2 ^ (bits + 10 + 54) := by
    rw [Nat.add_assoc, Nat.pow_add, Nat.mul_comm]
    rfl
  have hright : (2 ^ 64 - 2 ^ 10) * (den * Nat.pow 2 bits) =
      (2 ^ 54 - 1) * (den * 2 ^ (bits + 10)) := by
    have hscale : den * 2 ^ (bits + 10) = 2 ^ 10 * (den * Nat.pow 2 bits) := by
      rw [Nat.pow_add, ← Nat.mul_assoc, Nat.mul_comm]
      rfl
    rw [hscale]
    omega
  rw [hleft, hright]
  exact hreach

theorem TimeUnit.limit_le_iff (unit : TimeUnit) {value : Binary64} {units : Nat}
    (h : Counted value units) : TimeSpan.limit ≤ value.exact * unit.seconds ↔
      UInt64.size * one ≤ rounded (units * unit.factor) unit.divisor := by
  have hone : (0 : ℚ) < one := Nat.cast_pos.mpr Binary64.one_pos
  have hdivisor : (0 : ℚ) < unit.divisor := Nat.cast_pos.mpr unit.divisor_pos
  -- With both denominators on the other side there are whole numbers on both.
  have hlimit : TimeSpan.limit = (2 ^ 64 - 2 ^ 10 : Nat) := by
    unfold TimeSpan.limit
    norm_num
  rw [Binary64.size_le_rounded_iff _ unit.divisor_pos, h.exact_eq, TimeUnit.seconds,
    div_mul_div_comm, le_div_iff₀ (mul_pos hone hdivisor), mul_comm (one : ℚ), hlimit,
    ← Nat.cast_mul, ← Nat.cast_mul, ← Nat.cast_mul, Nat.cast_le]

/-- The seconds of as many units as a numeral says. -/
def TimeUnit.lengthOf (unit : TimeUnit) (numeral : Numeral) : ℚ :=
  numeral.value.exact * unit.seconds

/-- The nanoseconds nearest to the double nearest to these seconds. -/
def TimeUnit.spanOf (unit : TimeUnit) (numeral : Numeral) : TimeSpan :=
  TimeSpan.ofUnits (rounded (numeral.value.units * unit.factor) unit.divisor)

/-! ## Texts -/

namespace Duration

/-- A text of a numeral and a unit, with white space around both. -/
inductive States : List Char → Numeral → TimeUnit → Prop
  | intro {before spelled between name after : List Char} {numeral : Numeral} {unit : TimeUnit}
      (hbefore : Blank before) (hspelled : Numeral.Spells spelled numeral)
      (hbetween : Blank between) (hname : name ∈ unit.names) (hafter : Blank after) :
      States (before ++ (spelled ++ between ++ name ++ after)) numeral unit

theorem isLetter_iff (c : Char) : isLetter c = true ↔
    0x61 ≤ c.toNat ∧ c.toNat ≤ 0x7A ∨ 0x41 ≤ c.toNat ∧ c.toNat ≤ 0x5A := by
  simp only [isLetter, Bool.or_eq_true, Bool.and_eq_true, decide_eq_true_eq, Char.le_def,
    UInt32.le_iff_toNat_le]
  rfl

theorem isBlank_of_isLetter {c : Char} (h : isLetter c = true) : isBlank c = false := by
  rw [isLetter_iff] at h
  exact Text.isBlank_of_visible (by omega) (by omega)

theorem isLetter_of_isBlank {c : Char} (h : isBlank c = true) : isLetter c = false := by
  rw [Bool.eq_false_iff]
  intro hletter
  rw [isBlank_of_isLetter hletter] at h
  cases h

section

variable {spelled : List Char} {numeral : Numeral} (h : Numeral.Spells spelled numeral)

include h

/-- The characters of a numeral are visible ones before the letters. -/
theorem toNat_of_spells {c : Char} (hc : c ∈ spelled) : 0x21 ≤ c.toNat ∧ c.toNat < 0x41 := by
  rcases h.mem hc with hdigit | (rfl | rfl) | rfl
  · have hrange := Char.isDigit_iff_toNat.mp hdigit
    have hfirst : '0'.toNat = 0x30 := rfl
    have hlast : '9'.toNat = 0x39 := rfl
    omega
  · decide
  · decide
  · decide

theorem isLetter_of_spells {c : Char} (hc : c ∈ spelled) : isLetter c = false := by
  have hrange := toNat_of_spells h hc
  rw [Bool.eq_false_iff, ne_eq, isLetter_iff]
  omega

theorem trimmed_of_spells : Trimmed spelled := by
  have hvisible : ∀ c ∈ spelled, isBlank c = false := by
    intro c hc
    obtain ⟨hlow, hhigh⟩ := toNat_of_spells h hc
    exact Text.isBlank_of_visible hlow (by omega)
  exact ⟨fun c hc => hvisible c (List.mem_of_mem_head? hc),
    fun c hc => hvisible c (List.mem_of_mem_getLast? hc)⟩

/-- With the name of a unit behind it, a numeral still has no white space at its ends. -/
theorem trimmed_append (between : List Char) (unit : TimeUnit) :
    Trimmed (spelled ++ between ++ unit.name) where
  head := by
    rw [List.append_assoc, List.head?_append_of_ne_nil _ h.text_ne_nil]
    exact (trimmed_of_spells h).head
  last := by
    rw [List.getLast?_append_of_ne_nil _ unit.name_ne_nil]
    exact fun c hc => isBlank_of_isLetter (unit.isLetter_name c (List.mem_of_mem_getLast? hc))

end

/-- No letter is in a numeral, or behind it before its unit. -/
theorem isLetter_of_mem {spelled between : List Char} {numeral : Numeral}
    (hspelled : Numeral.Spells spelled numeral) (hbetween : Blank between) :
    ∀ c ∈ spelled ++ between, (!isLetter c) = true := by
  intro c hc
  rw [Bool.not_eq_true']
  rcases List.mem_append.mp hc with hfront | hback
  · exact isLetter_of_spells hspelled hfront
  · exact isLetter_of_isBlank (hbetween c hback)

/-! ## Splitting -/

section

variable {front : List Char} (h : ∀ c ∈ front, (!isLetter c) = true)

include h

theorem splitUnit_front : splitUnit front = (front, TimeUnit.second.name) := by
  have hnone : front.dropWhile (fun c => !isLetter c) = [] := List.dropWhile_eq_nil_iff.mpr h
  unfold splitUnit
  rw [hnone]
  rfl

theorem splitUnit_append (unit : TimeUnit) :
    splitUnit (front ++ unit.name) = (front, unit.name) := by
  have hname : ∀ c ∈ unit.name.head?, (!isLetter c) = false := by
    intro c hc
    rw [unit.isLetter_name c (List.mem_of_mem_head? hc)]
    rfl
  unfold splitUnit
  rw [dropWhile_append_eq hname h, takeWhile_append_eq hname h]
  split
  · next hnil => exact absurd hnil unit.name_ne_nil
  · rfl

end

/-- What is split is put together again, where seconds may stand without their name. -/
theorem eq_of_splitUnit {text front : List Char} {unit : TimeUnit}
    (h : splitUnit text = (front, unit.name)) :
    ∃ name ∈ unit.names, text = front ++ name := by
  have htext : text.takeWhile (fun c => !isLetter c) ++ text.dropWhile (fun c => !isLetter c) =
      text := List.takeWhile_append_dropWhile
  unfold splitUnit at h
  split at h
  · obtain ⟨rfl, hname⟩ := Prod.mk.inj h
    have hsecond : unit = .second := by
      cases unit <;> first | rfl | cases hname
    exact ⟨[], (unit.mem_names_iff _).mpr (Or.inr ⟨rfl, hsecond⟩), (List.append_nil _).symm⟩
  · obtain ⟨rfl, hname⟩ := Prod.mk.inj h
    refine ⟨unit.name, (unit.mem_names_iff _).mpr (Or.inl rfl), ?_⟩
    rw [← hname]
    exact htext.symm

/-- The parts of a text are found again. -/
theorem splitUnit_of_states {text : List Char} {numeral : Numeral} {unit : TimeUnit}
    (h : States text numeral unit) : ∃ front, splitUnit (trim text) = (front, unit.name) ∧
      Numeral.ofText? (trim front) = some numeral := by
  obtain @⟨before, spelled, between, name, after, numeral, unit, hbefore, hspelled, hbetween,
    hname, hafter⟩ := h
  have hread := (Numeral.ofText?_eq_some_iff spelled numeral).mpr hspelled
  have htrimmed := trimmed_of_spells hspelled
  rcases (unit.mem_names_iff name).mp hname with rfl | ⟨rfl, rfl⟩
  · have htrim : trim (before ++ (spelled ++ between ++ unit.name ++ after)) =
        spelled ++ between ++ unit.name :=
      Text.trim_append hbefore hafter (trimmed_append hspelled between unit)
    have hfront : trim (spelled ++ between) = spelled :=
      Text.trim_append Text.blank_nil hbetween htrimmed
    rw [htrim]
    refine ⟨spelled ++ between, splitUnit_append (isLetter_of_mem hspelled hbetween) unit, ?_⟩
    rwa [hfront]
  · -- Without a name, all that is behind the numeral is trimmed away.
    have htrim : trim (before ++ (spelled ++ between ++ [] ++ after)) = spelled := by
      rw [List.append_nil, List.append_assoc]
      exact Text.trim_append hbefore (hbetween.append hafter) htrimmed
    rw [htrim]
    refine ⟨spelled, splitUnit_front fun c hc => ?_, ?_⟩
    · rw [isLetter_of_spells hspelled hc]
      rfl
    · rwa [Text.trim_of_trimmed htrimmed]

/-- A text whose parts are a numeral and a unit states them. -/
theorem states_of_splitUnit {text front : List Char} {numeral : Numeral} {unit : TimeUnit}
    (hsplit : splitUnit (trim text) = (front, unit.name))
    (hread : Numeral.ofText? (trim front) = some numeral) : States text numeral unit := by
  obtain ⟨before, after, hbefore, hafter, htext⟩ := Text.exists_trim text
  obtain ⟨lead, between, hlead, hbetween, hfront⟩ := Text.exists_trim front
  obtain ⟨name, hname, htrim⟩ := eq_of_splitUnit hsplit
  have hspelled := (Numeral.ofText?_eq_some_iff _ _).mp hread
  -- White space in front of the number counts to that in front of the text.
  have hstates := States.intro (hbefore.append hlead) hspelled hbetween hname hafter
  have hwhole : before ++ lead ++ (trim front ++ between ++ name ++ after) = text := by
    rw [htext, htrim]
    conv_rhs => rw [hfront]
    simp only [List.append_assoc]
  rwa [hwhole] at hstates

/-! ## Reading -/

/-- A text that gives a length of time: a number that is finite as a double and not below zero,
and a unit. -/
structure Gives (text : List Char) (numeral : Numeral) (unit : TimeUnit) : Prop where
  states : States text numeral unit
  isFinite : numeral.value.isFinite = true
  nonneg : Binary64.le Binary64.zero numeral.value = true

/-- A span, or none that is as long. -/
def answer (found : Option TimeSpan) : Except DurationFault TimeSpan :=
  match found with
  | none => .error .tooLong
  | some span => .ok span

section

variable {text : List Char} {numeral : Numeral} {unit : TimeUnit} (h : Gives text numeral unit)

include h

theorem Gives.counted : Counted numeral.value numeral.value.units :=
  Binary64.counted_of_normal (Binary64.normal_round _ _ _) h.isFinite h.nonneg

theorem Gives.ofText_eq :
    TimeSpan.ofText text = answer (TimeSpan.ofSeconds? (unit.inSeconds numeral.value)) := by
  obtain ⟨front, hsplit, hread⟩ := splitUnit_of_states h.states
  have hnumber : Decimal.number? (trim front) = some numeral.value := by
    rw [Decimal.number?, hread]
    rfl
  unfold TimeSpan.ofText
  dsimp only
  rw [hsplit]
  dsimp only
  rw [hnumber]
  dsimp only
  rw [h.isFinite, h.counted.lt_zero_eq, Bool.not_true, Bool.or_false,
    if_neg Bool.false_ne_true, unit.inSeconds?_name]
  dsimp only
  cases TimeSpan.ofSeconds? (unit.inSeconds numeral.value) <;> rfl

/-- A length below the limit is a span, and has few enough seconds. -/
theorem Gives.ofText_of_lt (hless : unit.lengthOf numeral < TimeSpan.limit) :
    TimeSpan.ofText text = .ok (unit.spanOf numeral) ∧ (unit.spanOf numeral).fits = true := by
  have hunits := mt (unit.limit_le_iff h.counted).mpr (not_le_of_gt hless)
  rcases unit.inSeconds_cases h.counted with ⟨hgreat, -⟩ | hseconds
  · -- What is beyond the doubles is beyond the limit.
    have hrange : UInt64.size * one ≤ 2 ^ 2098 := by decide +kernel
    exact absurd (Nat.le_trans hrange hgreat) hunits
  · refine ⟨?_, TimeSpan.fits_ofUnits hseconds (Nat.lt_of_not_le hunits)⟩
    rw [h.ofText_eq, TimeSpan.ofSeconds?_counted hseconds, if_neg hunits]
    rfl

/-- From the limit on there is no span. -/
theorem Gives.ofText_of_le (hgreat : TimeSpan.limit ≤ unit.lengthOf numeral) :
    TimeSpan.ofText text = .error .tooLong := by
  have hunits := (unit.limit_le_iff h.counted).mp hgreat
  rw [h.ofText_eq]
  rcases unit.inSeconds_cases h.counted with ⟨-, hinfinite⟩ | hseconds
  · rw [hinfinite]
    rfl
  · rw [TimeSpan.ofSeconds?_counted hseconds, if_pos hunits]
    rfl

end

/-- A text gives a length, or is refused with a message that shows it. -/
theorem gives_or_refused (text : List Char) :
    (∃ numeral unit, Gives text numeral unit) ∨
      TimeSpan.ofText text = .error (.invalid (trim text)) ∨
      ∃ letters, TimeSpan.ofText text = .error (.unknownUnit letters (trim text)) := by
  unfold TimeSpan.ofText
  dsimp only
  generalize hsplit : splitUnit (trim text) = parts
  obtain ⟨front, letters⟩ := parts
  dsimp only
  cases hnumber : Decimal.number? (trim front) with
  | none => exact Or.inr (Or.inl rfl)
  | some value =>
    obtain ⟨numeral, hread, rfl⟩ := Option.map_eq_some_iff.mp hnumber
    dsimp only
    split
    · exact Or.inr (Or.inl rfl)
    · next hvalid =>
      rw [Bool.or_eq_true, not_or, Bool.not_eq_true', Bool.not_eq_false,
        Bool.not_eq_true] at hvalid
      cases hseconds : inSeconds? numeral.value letters with
      | none => exact Or.inr (Or.inr ⟨letters, rfl⟩)
      | some seconds =>
        obtain ⟨unit, rfl⟩ := TimeUnit.exists_of_inSeconds? hseconds
        exact Or.inl ⟨numeral, unit, states_of_splitUnit hsplit hread, hvalid.1,
          Binary64.le_zero_of_lt_eq hvalid.1 hvalid.2⟩

/-! ## All texts -/

/-- What can become of a text that is read as a length of time. -/
inductive Outcome (text : List Char) : Except DurationFault TimeSpan → Prop
  | span {numeral : Numeral} {unit : TimeUnit} (hgives : Gives text numeral unit)
      (hless : unit.lengthOf numeral < TimeSpan.limit) : Outcome text (.ok (unit.spanOf numeral))
  | tooLong {numeral : Numeral} {unit : TimeUnit} (hgives : Gives text numeral unit)
      (hgreat : TimeSpan.limit ≤ unit.lengthOf numeral) : Outcome text (.error .tooLong)
  | invalid : Outcome text (.error (.invalid (trim text)))
  | unknownUnit (letters : List Char) : Outcome text (.error (.unknownUnit letters (trim text)))

theorem outcome_ofText (text : List Char) : Outcome text (TimeSpan.ofText text) := by
  rcases gives_or_refused text with ⟨numeral, unit, hgives⟩ | hinvalid | ⟨letters, hunknown⟩
  · rcases lt_or_ge (unit.lengthOf numeral) TimeSpan.limit with hless | hgreat
    · rw [(hgives.ofText_of_lt hless).1]
      exact .span hgives hless
    · rw [hgives.ofText_of_le hgreat]
      exact .tooLong hgives hgreat
  · rw [hinvalid]
    exact .invalid
  · rw [hunknown]
    exact .unknownUnit letters

section

variable {text : List Char} {result : Except DurationFault TimeSpan} (h : Outcome text result)

include h

theorem Outcome.of_ok {span : TimeSpan} (hok : result = .ok span) :
    ∃ numeral unit, Gives text numeral unit ∧ unit.lengthOf numeral < TimeSpan.limit ∧
      span = unit.spanOf numeral := by
  cases h with
  | span hgives hless => exact ⟨_, _, hgives, hless, (Except.ok.inj hok).symm⟩
  | tooLong | invalid | unknownUnit => cases hok

theorem Outcome.of_tooLong (hlong : result = .error .tooLong) :
    ∃ numeral unit, Gives text numeral unit ∧ TimeSpan.limit ≤ unit.lengthOf numeral := by
  cases h with
  | tooLong hgives hgreat => exact ⟨_, _, hgives, hgreat⟩
  | span | invalid | unknownUnit => cases hlong

theorem Outcome.of_error {fault : DurationFault} (hfault : result = .error fault) :
    fault = .tooLong ∨ fault = .invalid (trim text) ∨
      ∃ letters, fault = .unknownUnit letters (trim text) := by
  cases h with
  | span => cases hfault
  | tooLong => exact Or.inl (Except.error.inj hfault).symm
  | invalid => exact Or.inr (Or.inl (Except.error.inj hfault).symm)
  | unknownUnit letters => exact Or.inr (Or.inr ⟨letters, (Except.error.inj hfault).symm⟩)

end

/-- The texts that become a span. -/
theorem ofText_eq_ok_iff (text : List Char) (span : TimeSpan) :
    TimeSpan.ofText text = .ok span ↔ ∃ numeral unit, Gives text numeral unit ∧
      unit.lengthOf numeral < TimeSpan.limit ∧ span = unit.spanOf numeral := by
  constructor
  · exact (outcome_ofText text).of_ok
  · rintro ⟨numeral, unit, hgives, hless, rfl⟩
    exact (hgives.ofText_of_lt hless).1

/-- The texts that have no answer. -/
theorem ofText_eq_tooLong_iff (text : List Char) :
    TimeSpan.ofText text = .error .tooLong ↔ ∃ numeral unit, Gives text numeral unit ∧
      TimeSpan.limit ≤ unit.lengthOf numeral := by
  constructor
  · exact (outcome_ofText text).of_tooLong
  · rintro ⟨numeral, unit, hgives, hgreat⟩
    exact hgives.ofText_of_le hgreat

/-- A flag for a length of time ends the program for the same texts. -/
theorem set_eq_tooLong_iff (settings : Settings) {flag : Flag}
    (h : flag = .reportingPeriod ∨ flag = .duration) (text : List Char) :
    Flags.set settings flag text = .error .durationTooLong ↔
      TimeSpan.ofText text = .error .tooLong := by
  have hspan : Flags.span text = .error .durationTooLong ↔
      TimeSpan.ofText text = .error .tooLong := by
    unfold Flags.span
    split <;> simp_all
  rw [← hspan]
  rcases h with rfl | rfl
  · rw [Flags.set]
    cases Flags.span text <;> simp [Except.map]
  · rw [Flags.set]
    cases Flags.span text <;> simp [Except.map]

/-- What becomes of a text that is read as a length of time. -/
structure Settled (text : List Char) (result : Except DurationFault TimeSpan) : Prop where
  /-- A length below the limit becomes the nearest span, ... -/
  ok_iff (span : TimeSpan) : result = .ok span ↔ ∃ numeral unit, Gives text numeral unit ∧
    unit.lengthOf numeral < TimeSpan.limit ∧ span = unit.spanOf numeral
  /-- ... which has few enough seconds. -/
  fits (span : TimeSpan) : result = .ok span → span.fits = true
  /-- A length from the limit on ends the program, ... -/
  tooLong_iff : result = .error .tooLong ↔ ∃ numeral unit, Gives text numeral unit ∧
    TimeSpan.limit ≤ unit.lengthOf numeral
  /-- ... also as the value of a flag. -/
  flag_iff (settings : Settings) (flag : Flag) : flag = .reportingPeriod ∨ flag = .duration →
    (Flags.set settings flag text = .error .durationTooLong ↔ result = .error .tooLong)
  /-- All other texts are refused, and shown to the user. -/
  refused (fault : DurationFault) : result = .error fault → fault = .tooLong ∨
    fault = .invalid (trim text) ∨ ∃ letters, fault = .unknownUnit letters (trim text)

/-- Every text becomes a span or is refused, unless it gives a length from the limit on. -/
theorem settled_ofText (text : List Char) : Settled text (TimeSpan.ofText text) where
  ok_iff := ofText_eq_ok_iff text
  fits span hok := by
    obtain ⟨numeral, unit, hgives, hless, rfl⟩ := (ofText_eq_ok_iff text span).mp hok
    exact (hgives.ofText_of_lt hless).2
  tooLong_iff := ofText_eq_tooLong_iff text
  flag_iff settings _ hflag := set_eq_tooLong_iff settings hflag text
  refused _ hfault := (outcome_ofText text).of_error hfault

/-- Twenty digits pass every check and have no answer. -/
theorem unanswered_twentyNines :
    TimeSpan.ofText "99999999999999999999".toList = .error .tooLong := by
  decide +kernel

end Duration

end LoadBench
