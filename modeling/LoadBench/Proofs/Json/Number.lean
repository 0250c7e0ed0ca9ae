/-
  LoadBench.Proofs.Json.Number

  Numbers are read as they were written.  The scan of a number does not depend on
  what comes behind it, as long as that is the next item or line of a document
  (`Number.scan?_append`), so a written number is found wherever it stands.

  Whole numbers come back whatever they are (`Number.integer?_ofInteger`).
-/

import LoadBench.Json.Value
import LoadBench.Proofs.Lists
import Mathlib.Data.List.TakeWhile
import Mathlib.Data.Nat.Digits.Lemmas

namespace LoadBench

/-! ## Digits -/

namespace Decimal

theorem natural_ne_nil (n : Nat) : natural n ≠ [] := Nat.toDigits_ne_nil

theorem isDigit_of_mem_natural {n : Nat} {c : Char} (h : c ∈ natural n) : c.isDigit :=
  Nat.isDigit_of_mem_toDigits (by decide) (by decide) h

@[simp] theorem ofDigitChars_natural (n : Nat) : Nat.ofDigitChars 10 (natural n) 0 = n :=
  Nat.ofDigitChars_ten_toDigits

/-- No zero stands in front of a number but zero. -/
theorem head?_natural {n : Nat} (h : n ≠ 0) : (natural n).head? ≠ some '0' := by
  induction n using Nat.strong_induction_on with
  | _ n ih =>
    unfold natural
    by_cases hlt : n < 10
    · rw [Nat.toDigits_of_lt_base hlt, List.head?_cons]
      exact fun hzero => h (Nat.digitChar_eq_zero.mp (Option.some.inj hzero))
    · have hle : 10 ≤ n := Nat.le_of_not_lt hlt
      have hfront := ih (n / 10) (by omega) (by omega)
      rw [Nat.toDigits_of_base_le (by decide) hle, List.head?_append_of_ne_nil _
        Nat.toDigits_ne_nil]
      exact hfront

end Decimal

namespace Json

/-- Whether a text may stand behind a value: nothing, the next item or field, or a new line. -/
def Follows (rest : List Char) : Prop := ∀ c ∈ rest.head?, c = ',' ∨ c = '\n'

theorem follows_nil : Follows [] := nofun

theorem follows_comma (rest : List Char) : Follows (',' :: rest) := by
  rintro c ⟨⟩
  exact Or.inl rfl

theorem follows_newLine (level : Nat) (rest : List Char) :
    Follows (Value.newLine level ++ rest) := by
  rintro c ⟨⟩
  exact Or.inr rfl

/-- What follows a value begins with no part of a number. -/
theorem Follows.cases {rest : List Char} (h : Follows rest) :
    rest = [] ∨ ∃ c others, rest = c :: others ∧ c.isDigit = false ∧
      c ≠ '-' ∧ c ≠ '+' ∧ c ≠ '.' ∧ c ≠ 'e' ∧ c ≠ 'E' := by
  cases rest with
  | nil => exact Or.inl rfl
  | cons c others =>
    refine Or.inr ⟨c, others, rfl, ?_⟩
    rcases h c rfl with rfl | rfl <;> decide

/-! ## What follows a number -/

namespace Number

variable {rest : List Char}

theorem takeWhile_digits_append (h : Follows rest) (text : List Char) :
    (text ++ rest).takeWhile Char.isDigit = text.takeWhile Char.isDigit := by
  have hrest : rest.takeWhile Char.isDigit = [] := by
    rcases h.cases with rfl | ⟨c, others, rfl, hdigit, _⟩
    · rfl
    · rw [List.takeWhile_cons, hdigit]
      rfl
  rw [List.takeWhile_append, hrest]
  split
  · next hall =>
    rw [List.append_nil]
    exact (List.IsPrefix.eq_of_length (List.takeWhile_prefix _) hall).symm
  · rfl

theorem dropWhile_digits_append (h : Follows rest) (text : List Char) :
    (text ++ rest).dropWhile Char.isDigit = text.dropWhile Char.isDigit ++ rest := by
  have hsplit := List.takeWhile_append_dropWhile (p := Char.isDigit) (l := text ++ rest)
  have htext := List.takeWhile_append_dropWhile (p := Char.isDigit) (l := text)
  rw [takeWhile_digits_append h] at hsplit
  refine List.append_cancel_left (hsplit.trans ?_)
  rw [← List.append_assoc, htext]

theorem scanFraction?_append (h : Follows rest) (text : List Char) :
    scanFraction? (text ++ rest) =
      (scanFraction? text).map fun found => (found.1, found.2 ++ rest) := by
  cases text with
  | nil =>
    rcases h.cases with rfl | ⟨c, others, rfl, _, _, _, hpoint, _⟩
    · rfl
    · exact scanFraction?.eq_2 _ fun _ hsame => hpoint (List.cons.inj hsame).1
  | cons c text =>
    by_cases hpoint : c = '.'
    · subst hpoint
      rw [List.cons_append, scanFraction?, scanFraction?, takeWhile_digits_append h,
        dropWhile_digits_append h]
      split <;> rfl
    · rw [scanFraction?.eq_2 _ fun _ hsame => hpoint (List.cons.inj hsame).1]
      exact scanFraction?.eq_2 _ fun _ hsame => hpoint (List.cons.inj hsame).1

theorem splitExponentSign_append (h : Follows rest) (text : List Char) :
    splitExponentSign (text ++ rest) =
      ((splitExponentSign text).1, (splitExponentSign text).2 ++ rest) := by
  cases text with
  | nil =>
    rcases h.cases with rfl | ⟨c, others, rfl, _, hminus, hplus, _⟩
    · rfl
    · exact splitExponentSign.eq_3 _ (fun _ hsame => hminus (List.cons.inj hsame).1)
        fun _ hsame => hplus (List.cons.inj hsame).1
  | cons c text =>
    by_cases hminus : c = '-'
    · subst hminus
      rfl
    · by_cases hplus : c = '+'
      · subst hplus
        rfl
      · rw [splitExponentSign.eq_3 _ (fun _ hsame => hminus (List.cons.inj hsame).1)
          fun _ hsame => hplus (List.cons.inj hsame).1]
        exact splitExponentSign.eq_3 _ (fun _ hsame => hminus (List.cons.inj hsame).1)
          fun _ hsame => hplus (List.cons.inj hsame).1

theorem scanExponent?_append (h : Follows rest) (text : List Char) :
    scanExponent? (text ++ rest) =
      (scanExponent? text).map fun found => (found.1, found.2 ++ rest) := by
  cases text with
  | nil =>
    rcases h.cases with rfl | ⟨c, others, rfl, _, _, _, _, hlower, hupper⟩
    · rfl
    · rw [List.nil_append, scanExponent?, if_neg (by simp [hlower, hupper])]
      rfl
  | cons c text =>
    rw [List.cons_append, scanExponent?, scanExponent?]
    split
    · simp only [splitExponentSign_append h, takeWhile_digits_append h, dropWhile_digits_append h]
      split <;> rfl
    · rfl

/-- The digits, the fraction and the exponent behind the sign of a number. -/
def scanBody? (negative : Bool) (body : List Char) : Option (Number × List Char) :=
  let whole := body.takeWhile Char.isDigit
  if whole.isEmpty || (whole.length != 1 && whole.head? == some '0') then none
  else
    match scanFraction? (body.dropWhile Char.isDigit) with
    | none => none
    | some (fraction, rest) =>
      match scanExponent? rest with
      | none => none
      | some (exponent, rest) => some (⟨negative, whole, fraction, exponent⟩, rest)

theorem scan?_unsigned {text : List Char} (h : text.head? ≠ some '-') :
    scan? text = scanBody? false text := by
  cases text with
  | nil => rfl
  | cons c text =>
    have hminus : c ≠ '-' := fun hsame => h (congrArg some hsame)
    unfold scan?
    split
    next negative body hsplit =>
      split at hsplit
      · next hsame => exact absurd (List.cons.inj hsame).1 hminus
      · obtain ⟨rfl, rfl⟩ := Prod.mk.inj hsplit
        rfl

theorem scanBody?_append (h : Follows rest) (negative : Bool) (body : List Char) :
    scanBody? negative (body ++ rest) =
      (scanBody? negative body).map fun found => (found.1, found.2 ++ rest) := by
  unfold scanBody?
  simp only [takeWhile_digits_append h, dropWhile_digits_append h, scanFraction?_append h]
  split
  · rfl
  · cases scanFraction? (body.dropWhile Char.isDigit) with
    | none => rfl
    | some found =>
      simp only [Option.map_some, scanExponent?_append h]
      cases scanExponent? found.2 <;> rfl

/-- A number is found whatever follows it. -/
theorem scan?_append (h : Follows rest) (text : List Char) :
    scan? (text ++ rest) = (scan? text).map fun found => (found.1, found.2 ++ rest) := by
  by_cases hminus : text.head? = some '-'
  · obtain ⟨body, rfl⟩ := List.head?_eq_some_iff.mp hminus
    exact scanBody?_append h true body
  · have hboth : (text ++ rest).head? ≠ some '-' := by
      cases text with
      | nil =>
        rcases h.cases with rfl | ⟨c, others, rfl, _, hother, _⟩
        · exact hminus
        · exact fun hsame => hother (Option.some.inj hsame)
      | cons c text => exact hminus
    rw [scan?_unsigned hminus, scan?_unsigned hboth, scanBody?_append h]

/-- A number begins with a minus sign or a digit, and with nothing else. -/
theorem head_of_scan? {text : List Char} {found : Number × List Char}
    (h : scan? text = some found) :
    ∃ c others, text = c :: others ∧ ∀ d : Char, d ≠ '-' → d.isDigit = false → c ≠ d := by
  cases text with
  | nil => cases h
  | cons c others =>
    refine ⟨c, others, rfl, ?_⟩
    rintro d hminus hdigit rfl
    have hunsigned : (c :: others).head? ≠ some '-' := fun hsame => hminus (Option.some.inj hsame)
    rw [scan?_unsigned hunsigned, scanBody?] at h
    simp [hdigit] at h

/-! ## Leading digits -/

/-- Whether digits may stand at the front of a number: there are some, and no zero stands before
others. -/
structure Leads (digits : List Char) : Prop where
  isDigit : ∀ c ∈ digits, c.isDigit = true
  ne_nil : digits ≠ []
  zero : digits.length = 1 ∨ digits.head? ≠ some '0'

theorem leads_natural (n : Nat) : Leads (Decimal.natural n) where
  isDigit := fun _ => Decimal.isDigit_of_mem_natural
  ne_nil := Decimal.natural_ne_nil n
  zero := by
    by_cases hzero : n = 0
    · rw [hzero]
      exact Or.inl rfl
    · exact Or.inr (Decimal.head?_natural hzero)

theorem isDigit_head_nil : ∀ c ∈ ([] : List Char).head?, c.isDigit = false := nofun

section

variable {digits : List Char} (hrest : ∀ c ∈ rest.head?, c.isDigit = false)

include hrest

theorem takeWhile_digits (h : ∀ c ∈ digits, c.isDigit = true) :
    (digits ++ rest).takeWhile Char.isDigit = digits :=
  takeWhile_append_eq hrest h

theorem dropWhile_digits (h : ∀ c ∈ digits, c.isDigit = true) :
    (digits ++ rest).dropWhile Char.isDigit = rest :=
  dropWhile_append_eq hrest h

/-- Behind its leading digits a number has a fraction and an exponent. -/
theorem Leads.scanBody?_append (h : Leads digits) (negative : Bool) :
    scanBody? negative (digits ++ rest) = (scanFraction? rest).bind fun found =>
      (scanExponent? found.2).map fun last => (⟨negative, digits, found.1, last.1⟩, last.2) := by
  have hallowed : ¬(digits.isEmpty || (digits.length != 1 && digits.head? == some '0')) = true := by
    have hzero := h.zero
    simp only [Bool.or_eq_true, Bool.and_eq_true, List.isEmpty_iff, bne_iff_ne, beq_iff_eq]
    exact not_or.mpr ⟨h.ne_nil, fun hboth => hzero.elim hboth.1 (absurd hboth.2)⟩
  unfold scanBody?
  simp only [takeWhile_digits hrest h.isDigit, dropWhile_digits hrest h.isDigit, if_neg hallowed]
  cases scanFraction? rest with
  | none => rfl
  | some found =>
    dsimp only [Option.bind_some]
    cases scanExponent? found.2 <;> rfl

end

/-- A sign may stand before any body of a number. -/
theorem scan?_signed {negative : Bool} {body : List Char} {found : Number × List Char}
    (h : scanBody? negative body = some found) :
    scan? ((if negative then ['-'] else []) ++ body) = some found := by
  cases negative with
  | true => exact h
  | false =>
    refine (scan?_unsigned fun hminus => ?_).trans h
    obtain ⟨others, rfl⟩ := List.head?_eq_some_iff.mp hminus
    cases h

/-! ## Whole numbers -/

/-- A whole number as it is written. -/
def ofInteger (n : Int) : Number := ⟨decide (n < 0), Decimal.natural n.natAbs, [], none⟩

theorem scan?_writeInteger (n : Int) :
    scan? (Value.writeInteger n) = some (ofInteger n, []) := by
  have hbody := (leads_natural n.natAbs).scanBody?_append isDigit_head_nil (decide (n < 0))
  rw [List.append_nil] at hbody
  have hsigned := scan?_signed hbody
  simp only [decide_eq_true_eq] at hsigned
  exact hsigned

@[simp] theorem wholeValue_ofInteger (n : Int) : (ofInteger n).wholeValue = n.natAbs :=
  Decimal.ofDigitChars_natural _

@[simp] theorem isWhole_ofInteger (n : Int) : (ofInteger n).isWhole = true := rfl

theorem negative_ofInteger (n : Int) : (ofInteger n).negative = decide (n < 0) := rfl

/-- A whole number that 64 bits hold comes back. -/
theorem integer?_ofInteger {n : Int} (hlow : -2 ^ 63 ≤ n) (hhigh : n < 2 ^ 64) :
    (ofInteger n).integer? = some n := by
  unfold integer?
  simp only [isWhole_ofInteger, wholeValue_ofInteger, negative_ofInteger, decide_eq_true_eq,
    Bool.not_true, Bool.false_eq_true, if_false]
  by_cases hneg : n < 0
  · have hrange : 0 < n.natAbs ∧ n.natAbs ≤ Nat.pow 2 63 := by
      rw [Nat.pow_eq]
      omega
    rw [if_pos hneg, if_pos hrange]
    exact congrArg some (by omega)
  · have hrange : n.natAbs < UInt64.size := by
      rw [UInt64.size]
      omega
    rw [if_neg hneg, if_pos hrange]
    exact congrArg some (by omega)

theorem natural?_ofInteger (n : UInt64) : (ofInteger n.toNat).natural? = some n := by
  have hwhole : (ofInteger n.toNat).wholeValue = n.toNat := wholeValue_ofInteger _
  have hnegative : (ofInteger n.toNat).negative = false := by
    rw [negative_ofInteger]
    exact decide_eq_false (Int.not_lt.mpr (Int.natCast_nonneg _))
  unfold natural?
  rw [hwhole, hnegative, isWhole_ofInteger, decide_eq_true n.toNat_lt, UInt64.ofNat_toNat]
  rfl

theorem int64?_ofInteger (n : Int64) : (ofInteger n.toInt).int64? = some n := by
  have hlow := n.le_toInt
  have hhigh := n.toInt_lt
  unfold int64?
  rw [integer?_ofInteger hlow (by omega)]
  simp only [Nat.pow_eq]
  rw [if_pos (by omega), Int64.ofInt_toInt]

end Number

end Json

end LoadBench
