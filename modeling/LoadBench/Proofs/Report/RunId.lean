/-
  LoadBench.Proofs.Report.RunId

  The identity of a report is read back from its text: hyphens are put between
  groups of digits and taken out again (`dehyphenate?_hyphenate`), and 32
  hexadecimal digits name 128 bits.
-/

import LoadBench.Report.RunId
import Mathlib.Data.Nat.Digits.Lemmas

namespace LoadBench.RunId

/-! ## Hyphens -/

theorem hyphenate_cons (length next : Nat) (others : List Nat) (digits : List Char) :
    hyphenate (length :: next :: others) digits =
      digits.take length ++ '-' :: hyphenate (next :: others) (digits.drop length) := rfl

theorem dehyphenate?_cons (length next : Nat) (others : List Nat) {front : List Char}
    (h : front.length = length) (back : List Char) :
    dehyphenate? (length :: next :: others) (front ++ '-' :: back) =
      (dehyphenate? (next :: others) back).map fun digits => front ++ digits := by
  rw [dehyphenate?, List.drop_left' h, List.take_left' h]
  · rfl
  · exact nofun

/-- Hyphens are taken out where they were put. -/
theorem dehyphenate?_hyphenate {lengths : List Nat} (hne : lengths ≠ []) {digits : List Char}
    (h : digits.length = lengths.sum) :
    dehyphenate? lengths (hyphenate lengths digits) = some digits := by
  induction lengths generalizing digits with
  | nil => exact absurd rfl hne
  | cons length others ih =>
    rw [List.sum_cons] at h
    cases others with
    | nil =>
      have hall : digits.length = length := h
      rw [hyphenate, dehyphenate?, List.take_of_length_le hall.le, if_pos hall]
    | cons next more =>
      have hfront : (digits.take length).length = length :=
        List.length_take_of_le (by omega)
      have hback : (digits.drop length).length = (next :: more).sum := by
        rw [List.length_drop]
        omega
      rw [hyphenate_cons, dehyphenate?_cons _ _ _ hfront, ih (List.cons_ne_nil _ _) hback,
        Option.map_some, List.take_append_drop]

theorem length_hyphenate {lengths : List Nat} (hne : lengths ≠ []) {digits : List Char}
    (h : digits.length = lengths.sum) :
    (hyphenate lengths digits).length + 1 = lengths.sum + lengths.length := by
  induction lengths generalizing digits with
  | nil => exact absurd rfl hne
  | cons length others ih =>
    rw [List.sum_cons] at h ⊢
    cases others with
    | nil =>
      have hall : digits.length = length := h
      rw [hyphenate, List.take_of_length_le hall.le, hall]
      rfl
    | cons next more =>
      have hback : (digits.drop length).length = (next :: more).sum := by
        rw [List.length_drop]
        omega
      have hothers := ih (List.cons_ne_nil _ _) hback
      rw [hyphenate_cons, List.length_append, List.length_cons, List.length_cons,
        List.length_take_of_le (by omega)]
      omega

/-! ## Digits -/

/-- The number that the values of hexadecimal digits stand for. -/
def ofValues (values : List Nat) : Nat := values.foldl (fun sum value => sum * 16 + value) 0

theorem hexValue?_digitChar {n : Nat} (h : n < 16) : Json.Text.hexValue? n.digitChar = some n := by
  revert n
  decide

/-- A number is had back from its hexadecimal digits. -/
theorem mapM_toDigits (n : Nat) :
    ∃ values, (Nat.toDigits 16 n).mapM Json.Text.hexValue? = some values ∧ ofValues values = n := by
  induction n using Nat.strong_induction_on with
  | _ n ih =>
    by_cases hlt : n < 16
    · refine ⟨[n], ?_, Nat.zero_add n⟩
      rw [Nat.toDigits_of_lt_base hlt, List.mapM_cons, hexValue?_digitChar hlt]
      rfl
    · have hle : 16 ≤ n := Nat.le_of_not_lt hlt
      obtain ⟨values, hvalues, hfront⟩ := ih (n / 16) (by omega)
      refine ⟨values ++ [n % 16], ?_, ?_⟩
      · rw [Nat.toDigits_of_base_le (by decide) hle, List.mapM_append, hvalues, List.mapM_cons,
          hexValue?_digitChar (Nat.mod_lt _ (by decide))]
        rfl
      · rw [ofValues, List.foldl_append, ← ofValues, hfront]
        exact Nat.div_add_mod' n 16

/-- Zeros in front change nothing. -/
theorem mapM_padLeft (width : Nat) {digits : List Char} {values : List Nat}
    (h : digits.mapM Json.Text.hexValue? = some values) :
    ∃ more, (Decimal.padLeft width '0' digits).mapM Json.Text.hexValue? = some more ∧
      ofValues more = ofValues values := by
  unfold Decimal.padLeft
  generalize width - digits.length = zeros
  induction zeros with
  | zero => exact ⟨values, h, rfl⟩
  | succ zeros ih =>
    obtain ⟨more, hmore, hsame⟩ := ih
    refine ⟨0 :: more, ?_, hsame⟩
    rw [List.replicate_succ, List.cons_append, List.mapM_cons, hmore]
    rfl

/-- The identity of a report is read back. -/
theorem ofText?_text (id : RunId) : ofText? id.text.toList = some id := by
  obtain ⟨bits⟩ := id
  have hlt : bits.toNat < 16 ^ 32 := bits.isLt
  have hlength : (Decimal.padLeft 32 '0' (Nat.toDigits 16 bits.toNat)).length = 32 := by
    have hdigits := Nat.toDigits_length 16 bits.toNat 32 (by decide) hlt
    rw [Decimal.padLeft, List.length_append, List.length_replicate]
    omega
  obtain ⟨values, hvalues, hvalue⟩ := mapM_toDigits bits.toNat
  obtain ⟨more, hmore, hsame⟩ := mapM_padLeft 32 hvalues
  have htext : (hyphenate groups (Decimal.padLeft 32 '0' (Nat.toDigits 16 bits.toNat))).length =
      36 := by
    have hall : (hyphenate groups _).length + 1 = groups.sum + groups.length :=
      length_hyphenate (by decide) hlength
    exact Nat.succ.inj hall
  have hdigits : ofDigits? (Decimal.padLeft 32 '0' (Nat.toDigits 16 bits.toNat)) =
      some ⟨bits⟩ := by
    have hfold : more.foldl (fun sum value => sum * 16 + value) 0 = bits.toNat :=
      hsame.trans hvalue
    rw [ofDigits?, if_pos hlength, hmore, Option.map_some, hfold, BitVec.ofNat_toNat,
      BitVec.setWidth_eq]
  rw [text, String.toList_ofList, ofText?, htext]
  show ofHyphenated? _ = _
  rw [ofHyphenated?, dehyphenate?_hyphenate (by decide) hlength, Option.bind_some, hdigits]

end LoadBench.RunId
