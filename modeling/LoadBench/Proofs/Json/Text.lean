/-
  LoadBench.Proofs.Json.Text

  Texts are read as they were written.  An escaped character is a letter behind a
  backslash, a number behind `\u`, or the character itself (`escapeChar_cases`),
  and in each of the three forms the end of a text is found behind it and the
  character is had back from it (`scan?_escape`, `string?_escape`).
-/

import LoadBench.Json.Text
import Mathlib.Data.Nat.Digits.Lemmas

namespace LoadBench.Json.Text

/-! ## One character -/

theorem hex4_eq {n : Nat} (h : n < 32) :
    hex4 n = ['0', '0', Nat.digitChar (n / 16), Nat.digitChar (n % 16)] ∧
      hexValue4? '0' '0' (Nat.digitChar (n / 16)) (Nat.digitChar (n % 16)) = some n := by
  revert n
  decide

/-- The three forms of an escaped character. -/
theorem escapeChar_cases (c : Char) :
    (∃ letter, escapeChar c = ['\\', letter] ∧ letter ≠ 'u' ∧ letter? letter = some c) ∨
    (∃ x y, escapeChar c = ['\\', 'u', '0', '0', x, y] ∧ c.toNat < 32 ∧
      hexValue4? '0' '0' x y = some c.toNat) ∨
    (escapeChar c = [c] ∧ c ≠ '"' ∧ c ≠ '\\' ∧ 32 ≤ c.toNat) := by
  have hchar : ∀ n, c.toNat = n → Char.ofNat n = c := by
    rintro n rfl
    exact Char.ofNat_toNat c
  unfold escapeChar
  split
  · next h => exact Or.inl ⟨'"', rfl, by decide, by rw [h]; rfl⟩
  split
  · next h => exact Or.inl ⟨'\\', rfl, by decide, by rw [h]; rfl⟩
  split
  · next h => exact Or.inl ⟨'b', rfl, by decide, by rw [← hchar _ h]; rfl⟩
  split
  · next h => exact Or.inl ⟨'t', rfl, by decide, by rw [h]; rfl⟩
  split
  · next h => exact Or.inl ⟨'n', rfl, by decide, by rw [h]; rfl⟩
  split
  · next h => exact Or.inl ⟨'f', rfl, by decide, by rw [← hchar _ h]; rfl⟩
  split
  · next h => exact Or.inl ⟨'r', rfl, by decide, by rw [h]; rfl⟩
  split
  · next h =>
    obtain ⟨hdigits, hvalue⟩ := hex4_eq h
    exact Or.inr (Or.inl ⟨_, _, by rw [hdigits], h, hvalue⟩)
  · next hquote hbackslash _ _ _ _ _ h =>
    exact Or.inr (Or.inr ⟨rfl, hquote, hbackslash, Nat.le_of_not_lt h⟩)

/-- The end of a text is found behind an escaped character. -/
theorem scan?_escapeChar (c : Char) (rest : List Char) :
    scan? (escapeChar c ++ rest) =
      (scan? rest).map fun found => (escapeChar c ++ found.1, found.2) := by
  rcases escapeChar_cases c with ⟨letter, hc, hu, hletter⟩ | ⟨x, y, hc, _, hvalue⟩ |
    ⟨hc, hquote, hbackslash, hle⟩
  · have hknown : ¬(letter? letter).isNone = true := by
      rw [hletter]
      exact Bool.false_ne_true
    rw [hc]
    exact (scan?.eq_4 letter rest fun _ _ _ _ _ h _ => hu h).trans (if_neg hknown)
  · have hknown : ¬(hexValue4? '0' '0' x y).isNone = true := by
      rw [hvalue]
      exact Bool.false_ne_true
    rw [hc]
    exact (scan?.eq_3 '0' '0' x y rest).trans (if_neg hknown)
  · have hplain : ¬(decide (c.toNat < 32) || decide (c = '\\')) = true := by
      rw [decide_eq_false (Nat.not_lt.mpr hle), decide_eq_false hbackslash]
      exact Bool.false_ne_true
    rw [hc]
    exact (scan?.eq_5 c rest hquote (fun _ _ _ _ _ h _ => hbackslash h)
      fun _ _ h _ => hbackslash h).trans (if_neg hplain)

/-- A character is had back from its escaped form. -/
theorem unescape?_escapeChar (c : Char) (rest : List Char) :
    unescape? (escapeChar c ++ rest) = (unescape? rest).map (c :: ·) := by
  rcases escapeChar_cases c with ⟨letter, hc, hu, hletter⟩ | ⟨x, y, hc, hlt, hvalue⟩ |
    ⟨hc, _, hbackslash, _⟩
  · rw [hc]
    refine (unescape?.eq_3 letter rest fun _ _ _ _ _ h _ => hu h).trans ?_
    rw [hletter]
  · have hlow : ¬isLow c.toNat = true := by
      simp only [isLow, Bool.and_eq_true, decide_eq_true_eq]
      omega
    have hhigh : ¬isHigh c.toNat = true := by
      simp only [isHigh, Bool.and_eq_true, decide_eq_true_eq]
      omega
    rw [hc]
    refine (unescape?.eq_2 '0' '0' x y rest).trans ?_
    rw [hvalue]
    simp only [if_neg hlow, if_neg hhigh, Char.ofNat_toNat]
  · rw [hc]
    exact unescape?.eq_4 c rest (fun _ _ _ _ _ h _ => hbackslash h) fun _ _ h _ => hbackslash h

/-! ## Whole texts -/

theorem scan?_escape (text rest : List Char) :
    scan? (escape text ++ '"' :: rest) = some (escape text, rest) := by
  induction text with
  | nil => exact scan?.eq_2 rest
  | cons c text ih =>
    rw [escape, List.flatMap_cons, List.append_assoc, scan?_escapeChar, ← escape, ih]
    rfl

theorem unescape?_escape (text : List Char) : unescape? (escape text) = some text := by
  induction text with
  | nil => rfl
  | cons c text ih =>
    rw [escape, List.flatMap_cons, unescape?_escapeChar, ← escape, ih]
    rfl

/-- A text is read as it was written. -/
@[simp] theorem string?_escape (text : String) : string? (escape text.toList) = some text := by
  rw [string?, unescape?_escape, Option.map_some, String.ofList_toList]

theorem escapeChar_eq_self {c : Char} (hquote : c ≠ '"') (hbackslash : c ≠ '\\')
    (hle : 32 ≤ c.toNat) : escapeChar c = [c] := by
  have hcontrol : ∀ d : Char, d.toNat < 32 → c ≠ d := by
    rintro d hd rfl
    omega
  rw [escapeChar, if_neg hquote, if_neg hbackslash, if_neg (by omega),
    if_neg (hcontrol _ (by decide)), if_neg (hcontrol _ (by decide)), if_neg (by omega),
    if_neg (hcontrol _ (by decide)), if_neg (by omega)]

/-- Digits are written as they are. -/
theorem escape_digits {text : List Char} (h : ∀ c ∈ text, c.isDigit) : escape text = text := by
  induction text with
  | nil => rfl
  | cons c text ih =>
    have hdigit := h c List.mem_cons_self
    have hle : 48 ≤ c.toNat := by
      simp only [Char.isDigit, Bool.and_eq_true, decide_eq_true_eq] at hdigit
      exact hdigit.1
    have hquote : c ≠ '"' := by
      rintro rfl
      exact absurd hdigit (by decide)
    have hbackslash : c ≠ '\\' := by
      rintro rfl
      exact absurd hdigit (by decide)
    rw [escape, List.flatMap_cons, escapeChar_eq_self hquote hbackslash (by omega), ← escape,
      ih fun d hd => h d (List.mem_cons_of_mem _ hd)]
    rfl

end LoadBench.Json.Text
