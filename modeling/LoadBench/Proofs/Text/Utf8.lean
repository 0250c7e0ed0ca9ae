/-
  LoadBench.Proofs.Text.Utf8

  What is written in UTF-8 is read back (`decode_encode`): the bytes of a character
  are those its first byte announces, within the bounds that come with it.  These bounds
  leave no other bytes for a character, so whatever can be read is written as the bytes it
  was read from (`encode_of_decode`).

  Only the characters below 128 have bytes below 128 (`mem_encode_ascii`), so a
  separator that is one of them can be looked for among the bytes.
-/

import LoadBench.Text.Utf8
import Mathlib.Data.List.Basic

namespace LoadBench.Utf8

/-! ## One character -/

/-- A character is below 0x110000 and no half of a surrogate pair. -/
theorem toNat_valid (c : Char) : c.toNat < 0xD800 ∨ 0xE000 ≤ c.toNat ∧ c.toNat < 0x110000 := by
  have hvalid := c.valid
  simp only [UInt32.isValidChar, Nat.isValidChar] at hvalid
  have hnat : c.toNat = c.val.toNat := rfl
  omega

theorem toNat_ofNat_of_lt {n : Nat} (h : n < 256) : (UInt8.ofNat n).toNat = n := by
  rw [UInt8.toNat_ofNat', Nat.mod_eq_of_lt h]

/-- A byte within its bounds is taken, and brings six bits. -/
theorem continueWith_byte {count low high value taken : Nat} {byte : UInt8} {rest : List UInt8}
    (hlow : low ≤ byte.toNat) (hhigh : byte.toNat ≤ high) :
    continueWith (count + 1) low high value taken (byte :: rest) =
      continueWith count 0x80 0xBF (value * 64 + (byte.toNat - 0x80)) (taken + 1) rest :=
  if_pos ⟨hlow, hhigh⟩

/-- A byte behind the first one. -/
def tail (n : Nat) : UInt8 := UInt8.ofNat (0x80 + n % 64)

theorem toNat_tail (n : Nat) : (tail n).toNat = 0x80 + n % 64 :=
  toNat_ofNat_of_lt (by omega)

theorem continueWith_tail {count low high value taken n : Nat} {rest : List UInt8}
    (hlow : low ≤ 0x80 + n % 64) (hhigh : 0x80 + n % 64 ≤ high) :
    continueWith (count + 1) low high value taken (tail n :: rest) =
      continueWith count 0x80 0xBF (value * 64 + n % 64) (taken + 1) rest := by
  rw [continueWith_byte (by rwa [toNat_tail]) (by rwa [toNat_tail]), toNat_tail,
    Nat.add_sub_cancel_left]

/-- The bytes of a character, by how many there are. -/
theorem encodeChar_cases (c : Char) :
    (c.toNat < 0x80 ∧ encodeChar c = [UInt8.ofNat c.toNat]) ∨
    (0x80 ≤ c.toNat ∧ c.toNat < 0x800 ∧
      encodeChar c = [UInt8.ofNat (0xC0 + c.toNat / 64), tail c.toNat]) ∨
    (0x800 ≤ c.toNat ∧ c.toNat < 0x10000 ∧
      encodeChar c =
        [UInt8.ofNat (0xE0 + c.toNat / 4096), tail (c.toNat / 64), tail c.toNat]) ∨
    (0x10000 ≤ c.toNat ∧ c.toNat < 0x110000 ∧
      encodeChar c = [UInt8.ofNat (0xF0 + c.toNat / 262144), tail (c.toNat / 4096),
        tail (c.toNat / 64), tail c.toNat]) := by
  have hvalid := toNat_valid c
  by_cases hone : c.toNat < 0x80
  · exact Or.inl ⟨hone, if_pos hone⟩
  right
  by_cases htwo : c.toNat < 0x800
  · exact Or.inl ⟨by omega, htwo, (if_neg hone).trans (if_pos htwo)⟩
  right
  by_cases hthree : c.toNat < 0x10000
  · exact Or.inl ⟨by omega, hthree, ((if_neg hone).trans (if_neg htwo)).trans (if_pos hthree)⟩
  · exact Or.inr ⟨by omega, by omega, ((if_neg hone).trans (if_neg htwo)).trans (if_neg hthree)⟩

/-- The bytes of a character are read as this character, whatever follows. -/
theorem front_encodeChar (c : Char) (more : List UInt8) :
    ∃ first others, encodeChar c = first :: others ∧
      front first (others ++ more) = .char c others.length := by
  have hvalid := toNat_valid c
  have hread : ∀ n, n = c.toNat → Char.ofNat n = c := by
    rintro n rfl
    exact Char.ofNat_toNat c
  rcases encodeChar_cases c with ⟨hlt, heq⟩ | ⟨hge, hlt, heq⟩ | ⟨hge, hlt, heq⟩ | ⟨hge, hlt, heq⟩
  · refine ⟨_, _, heq, ?_⟩
    rw [front, toNat_ofNat_of_lt (by omega), announce, if_pos hlt]
    exact congrArg (Front.char · 0) (hread _ rfl)
  · refine ⟨_, _, heq, ?_⟩
    have hannounce : announce (0xC0 + c.toNat / 64) = some (1, 0x80, 0xBF, c.toNat / 64) := by
      unfold announce
      rw [if_neg (by omega), if_neg (by omega), if_pos (by omega), Nat.add_sub_cancel_left]
    rw [front, toNat_ofNat_of_lt (by omega), hannounce]
    dsimp only
    rw [List.cons_append, continueWith_tail (by omega) (by omega)]
    exact congrArg (Front.char · 1) (hread _ (by omega))
  · refine ⟨_, _, heq, ?_⟩
    -- Of the two first bytes with bounds of their own, 0xED keeps off the surrogates.
    obtain ⟨low, high, hannounce, hlow, hhigh⟩ : ∃ low high,
        announce (0xE0 + c.toNat / 4096) = some (2, low, high, c.toNat / 4096) ∧
          low ≤ 0x80 + c.toNat / 64 % 64 ∧ 0x80 + c.toNat / 64 % 64 ≤ high := by
      unfold announce
      rw [if_neg (by omega), if_neg (by omega), if_neg (by omega)]
      by_cases hfirst : 0xE0 + c.toNat / 4096 = 0xE0
      · rw [if_pos hfirst]
        exact ⟨_, _, by rw [show c.toNat / 4096 = 0 by omega], by omega, by omega⟩
      · rw [if_neg hfirst]
        by_cases hsurrogate : 0xE0 + c.toNat / 4096 = 0xED
        · rw [if_pos hsurrogate]
          exact ⟨_, _, by rw [show c.toNat / 4096 = 13 by omega], by omega, by omega⟩
        · rw [if_neg hsurrogate, if_pos (by omega), Nat.add_sub_cancel_left]
          exact ⟨_, _, rfl, by omega, by omega⟩
    rw [front, toNat_ofNat_of_lt (by omega), hannounce]
    dsimp only
    rw [List.cons_append, continueWith_tail hlow hhigh, List.cons_append,
      continueWith_tail (by omega) (by omega)]
    exact congrArg (Front.char · 2) (hread _ (by omega))
  · refine ⟨_, _, heq, ?_⟩
    obtain ⟨low, high, hannounce, hlow, hhigh⟩ : ∃ low high,
        announce (0xF0 + c.toNat / 262144) = some (3, low, high, c.toNat / 262144) ∧
          low ≤ 0x80 + c.toNat / 4096 % 64 ∧ 0x80 + c.toNat / 4096 % 64 ≤ high := by
      unfold announce
      rw [if_neg (by omega), if_neg (by omega), if_neg (by omega), if_neg (by omega),
        if_neg (by omega), if_neg (by omega)]
      by_cases hfirst : 0xF0 + c.toNat / 262144 = 0xF0
      · rw [if_pos hfirst]
        exact ⟨_, _, by rw [show c.toNat / 262144 = 0 by omega], by omega, by omega⟩
      · rw [if_neg hfirst]
        by_cases hlast : 0xF0 + c.toNat / 262144 < 0xF4
        · rw [if_pos hlast, Nat.add_sub_cancel_left]
          exact ⟨_, _, rfl, by omega, by omega⟩
        · rw [if_neg hlast, if_pos (by omega)]
          exact ⟨_, _, by rw [show c.toNat / 262144 = 4 by omega], by omega, by omega⟩
    rw [front, toNat_ofNat_of_lt (by omega), hannounce]
    dsimp only
    rw [List.cons_append, continueWith_tail hlow hhigh, List.cons_append,
      continueWith_tail (by omega) (by omega), List.cons_append,
      continueWith_tail (by omega) (by omega)]
    exact congrArg (Front.char · 3) (hread _ (by omega))

/-! ## A text -/

theorem read_encode (text : List Char) : read (encode text) = ⟨text, (encode text).length, true⟩ := by
  induction text with
  | nil =>
    rw [encode_nil, read]
    rfl
  | cons c rest ih =>
    obtain ⟨first, others, heq, hfront⟩ := front_encodeChar c (encode rest)
    rw [encode_cons, heq, List.cons_append, read, hfront]
    simp only [List.drop_left, ih, List.length_cons, List.length_append, Reading.mk.injEq,
      true_and, and_true]
    omega

/-- A text that is written is read back. -/
theorem decode_encode (text : List Char) : decode (encode text) = .ok text := by
  unfold decode
  rw [read_encode]
  rfl

/-! ## Bytes that are a text -/

theorem toNat_ofNat_of_valid {n : Nat} (h : n < 0xD800 ∨ 0xE000 ≤ n ∧ n < 0x110000) :
    (Char.ofNat n).toNat = n := by
  have hvalid : n.isValidChar := by
    unfold Nat.isValidChar
    omega
  unfold Char.ofNat
  rw [dif_pos hvalid]
  rfl

theorem ofNat_eq (byte : UInt8) {n : Nat} (h : n = byte.toNat) : UInt8.ofNat n = byte := by
  rw [h, UInt8.ofNat_toNat]

theorem tail_eq (byte : UInt8) {n : Nat} (h : 0x80 + n % 64 = byte.toNat) : tail n = byte :=
  ofNat_eq byte h

/-- What a first byte announces, by how many bytes follow it. -/
theorem announce_cases {first count low high bits : Nat}
    (h : announce first = some (count, low, high, bits)) :
    (count = 0 ∧ first < 0x80 ∧ bits = first) ∨
    (count = 1 ∧ low = 0x80 ∧ high = 0xBF ∧ 0xC2 ≤ first ∧ first < 0xE0 ∧ bits = first - 0xC0) ∨
    (count = 2 ∧ 0x80 ≤ low ∧ high ≤ 0xBF ∧ 0xE0 ≤ first ∧ first < 0xF0 ∧ bits = first - 0xE0 ∧
      (first = 0xE0 → 0xA0 ≤ low) ∧ (first = 0xED → high ≤ 0x9F)) ∨
    (count = 3 ∧ 0x80 ≤ low ∧ high ≤ 0xBF ∧ 0xF0 ≤ first ∧ first < 0xF5 ∧ bits = first - 0xF0 ∧
      (first = 0xF0 → 0x90 ≤ low) ∧ (first = 0xF4 → high ≤ 0x8F)) := by
  unfold announce at h
  repeat' split at h
  all_goals cases h
  all_goals omega

/-- A character that is read takes the next byte that was announced. -/
theorem continueWith_succ {count low high value taken more : Nat} {c : Char} {rest : List UInt8}
    (h : continueWith (count + 1) low high value taken rest = .char c more) :
    ∃ byte others, rest = byte :: others ∧ low ≤ byte.toNat ∧ byte.toNat ≤ high ∧
      continueWith count 0x80 0xBF (value * 64 + (byte.toNat - 0x80)) (taken + 1) others =
        .char c more := by
  cases rest with
  | nil => cases h
  | cons byte others =>
    unfold continueWith at h
    split at h
    · next hbounds => exact ⟨byte, others, rfl, hbounds.1, hbounds.2, h⟩
    · cases h

theorem encodeChar_ofNat_one {n : Nat} (h : n < 0x80) :
    encodeChar (Char.ofNat n) = [UInt8.ofNat n] := by
  have hn := toNat_ofNat_of_valid (n := n) (by omega)
  rw [encodeChar, hn]
  exact if_pos h

theorem encodeChar_ofNat_two {n : Nat} (hlow : 0x80 ≤ n) (hhigh : n < 0x800) :
    encodeChar (Char.ofNat n) = [UInt8.ofNat (0xC0 + n / 64), tail n] := by
  have hn := toNat_ofNat_of_valid (n := n) (by omega)
  rw [encodeChar, hn]
  exact (if_neg (by omega)).trans (if_pos hhigh)

theorem encodeChar_ofNat_three {n : Nat} (hlow : 0x800 ≤ n)
    (hvalid : n < 0xD800 ∨ 0xE000 ≤ n ∧ n < 0x10000) :
    encodeChar (Char.ofNat n) = [UInt8.ofNat (0xE0 + n / 4096), tail (n / 64), tail n] := by
  have hn := toNat_ofNat_of_valid (n := n) (by omega)
  rw [encodeChar, hn]
  exact (if_neg (by omega)).trans ((if_neg (by omega)).trans (if_pos (by omega)))

theorem encodeChar_ofNat_four {n : Nat} (hlow : 0x10000 ≤ n) (hhigh : n < 0x110000) :
    encodeChar (Char.ofNat n) =
      [UInt8.ofNat (0xF0 + n / 262144), tail (n / 4096), tail (n / 64), tail n] := by
  have hn := toNat_ofNat_of_valid (n := n) (by omega)
  rw [encodeChar, hn]
  exact (if_neg (by omega)).trans ((if_neg (by omega)).trans (if_neg (by omega)))

/-- The bytes that are read as a character are those of the character. -/
theorem encodeChar_of_front {byte : UInt8} {rest : List UInt8} {c : Char} {more : Nat}
    (h : front byte rest = .char c more) : encodeChar c = byte :: rest.take more := by
  unfold front at h
  split at h
  · cases h
  · next count low high bits hannounce =>
    rcases announce_cases hannounce with ⟨rfl, hone, hbits⟩ |
      ⟨rfl, hlow, hhigh, hfirst, hlast, hbits⟩ |
      ⟨rfl, hlow, hhigh, hfirst, hlast, hbits, hleast, hmost⟩ |
      ⟨rfl, hlow, hhigh, hfirst, hlast, hbits, hleast, hmost⟩
    · obtain ⟨rfl, rfl⟩ := Front.char.inj h
      rw [encodeChar_ofNat_one (by omega), ofNat_eq byte hbits]
      rfl
    · obtain ⟨second, others, rfl, hsecond, hsecond', h⟩ := continueWith_succ h
      obtain ⟨rfl, rfl⟩ := Front.char.inj h
      rw [encodeChar_ofNat_two (by omega) (by omega), ofNat_eq byte (by omega),
        tail_eq second (by omega)]
      rfl
    · obtain ⟨second, others, rfl, hsecond, hsecond', h⟩ := continueWith_succ h
      obtain ⟨third, others, rfl, hthird, hthird', h⟩ := continueWith_succ h
      obtain ⟨rfl, rfl⟩ := Front.char.inj h
      rw [encodeChar_ofNat_three (by omega) (by omega), ofNat_eq byte (by omega),
        tail_eq second (by omega), tail_eq third (by omega)]
      rfl
    · obtain ⟨second, others, rfl, hsecond, hsecond', h⟩ := continueWith_succ h
      obtain ⟨third, others, rfl, hthird, hthird', h⟩ := continueWith_succ h
      obtain ⟨fourth, others, rfl, hfourth, hfourth', h⟩ := continueWith_succ h
      obtain ⟨rfl, rfl⟩ := Front.char.inj h
      rw [encodeChar_ofNat_four (by omega) (by omega), ofNat_eq byte (by omega),
        tail_eq second (by omega), tail_eq third (by omega), tail_eq fourth (by omega)]
      rfl

/-- Bytes that are read to their end are those of the text that is read. -/
theorem encode_of_read {bytes : List UInt8} (h : (read bytes).clean = true) :
    encode (read bytes).text = bytes := by
  fun_induction read bytes with
  | case1 => rfl
  | case2 => cases h
  | case3 byte rest c more hfront others ih =>
    rw [encode_cons, ih h, encodeChar_of_front hfront, List.cons_append, List.take_append_drop]

/-- A text that is read is written as the bytes that it was read from. -/
theorem encode_of_decode {bytes : List UInt8} {text : List Char} (h : decode bytes = .ok text) :
    encode text = bytes := by
  unfold decode at h
  dsimp only at h
  split at h
  · next hclean =>
    obtain rfl := Except.ok.inj h
    exact encode_of_read hclean
  · cases h

/-! ## Bytes below 128 -/

/-- The bytes of a character are the character itself, or all of them are 128 or more. -/
theorem encodeChar_ascii (c : Char) :
    c.toNat < 0x80 ∧ encodeChar c = [UInt8.ofNat c.toNat] ∨
      0x80 ≤ c.toNat ∧ ∀ byte ∈ encodeChar c, 0x80 ≤ byte.toNat := by
  have htail : ∀ n, 0x80 ≤ (tail n).toNat := by
    intro n
    rw [toNat_tail]
    omega
  rcases encodeChar_cases c with ⟨hlt, heq⟩ | ⟨hge, hlt, heq⟩ | ⟨hge, hlt, heq⟩ | ⟨hge, hlt, heq⟩
  · exact Or.inl ⟨hlt, heq⟩
  · have hfirst := toNat_ofNat_of_lt (show 0xC0 + c.toNat / 64 < 256 by omega)
    refine Or.inr ⟨hge, ?_⟩
    rw [heq]
    exact List.forall_mem_cons.mpr ⟨by omega, by simp [htail]⟩
  · have hfirst := toNat_ofNat_of_lt (show 0xE0 + c.toNat / 4096 < 256 by omega)
    refine Or.inr ⟨by omega, ?_⟩
    rw [heq]
    exact List.forall_mem_cons.mpr ⟨by omega, by simp [htail]⟩
  · have hfirst := toNat_ofNat_of_lt (show 0xF0 + c.toNat / 262144 < 256 by omega)
    refine Or.inr ⟨by omega, ?_⟩
    rw [heq]
    exact List.forall_mem_cons.mpr ⟨by omega, by simp [htail]⟩

/-- A byte below 128 among those of a text stands for its character. -/
theorem mem_encode_ascii {byte : UInt8} (hbyte : byte.toNat < 0x80) {text : List Char}
    (h : byte ∈ encode text) : Char.ofNat byte.toNat ∈ text := by
  obtain ⟨c, hc, hmem⟩ := List.mem_flatMap.mp h
  rcases encodeChar_ascii c with ⟨hlt, heq⟩ | ⟨-, hlarge⟩
  · rw [heq, List.mem_singleton] at hmem
    rw [hmem, toNat_ofNat_of_lt (by omega), Char.ofNat_toNat]
    exact hc
  · exact absurd (hlarge byte hmem) (by omega)

/-- The first byte of a text, if it is below 128, stands for the first character. -/
theorem head?_encode_ascii {byte : UInt8} (hbyte : byte.toNat < 0x80) {text : List Char}
    (h : (encode text).head? = some byte) : text.head? = some (Char.ofNat byte.toNat) := by
  cases text with
  | nil => cases h
  | cons c rest =>
    rcases encodeChar_ascii c with ⟨hlt, heq⟩ | ⟨-, hlarge⟩
    · rw [encode_cons, heq] at h
      obtain rfl := Option.some.inj h
      rw [toNat_ofNat_of_lt (by omega), Char.ofNat_toNat]
      rfl
    · obtain ⟨first, others, heq, -⟩ := front_encodeChar c []
      rw [encode_cons, heq] at h
      obtain rfl := Option.some.inj h
      rw [heq] at hlarge
      exact absurd (hlarge first (List.mem_cons_self ..)) (by omega)

/-- So for the last byte and the last character. -/
theorem getLast?_encode_ascii {byte : UInt8} (hbyte : byte.toNat < 0x80) {text : List Char}
    (h : (encode text).getLast? = some byte) :
    text.getLast? = some (Char.ofNat byte.toNat) := by
  rcases List.eq_nil_or_concat text with rfl | ⟨front, c, rfl⟩
  · cases h
  · rw [List.concat_eq_append] at h ⊢
    have hlast : (encodeChar c).getLast? = some byte := by
      obtain ⟨first, others, heq, -⟩ := front_encodeChar c []
      rw [encode_append, encode_cons, encode_nil, List.append_nil, List.getLast?_append, heq,
        List.getLast?_cons, Option.some_or] at h
      rw [heq, List.getLast?_cons]
      exact h
    rw [List.getLast?_concat]
    rcases encodeChar_ascii c with ⟨hlt, heq⟩ | ⟨-, hlarge⟩
    · rw [heq, List.getLast?_singleton] at hlast
      obtain rfl := Option.some.inj hlast
      rw [toNat_ofNat_of_lt (by omega), Char.ofNat_toNat]
    · exact absurd (hlarge byte (List.mem_of_getLast? hlast)) (by omega)

/-- The byte order mark is the bytes of one character. -/
theorem head?_of_mark {text : List Char} {rest : List UInt8}
    (h : encode text = 0xEF :: 0xBB :: 0xBF :: rest) : text.head? = some (Char.ofNat 0xFEFF) := by
  have hread := read_encode text
  rw [h, read, show front 0xEF (0xBB :: 0xBF :: rest) = .char (Char.ofNat 0xFEFF) 2 from rfl]
    at hread
  rw [← (Reading.mk.inj hread).1]
  rfl

end LoadBench.Utf8
