/-
  LoadBench.Proofs.TokenBucket

  What a bucket of tokens lets through when it counts in exact numbers.  A
  reservation may be used once its delay is over (`Reservation.moment`), and then
  `Reservation.spare` tokens are left.  From one reservation to the next the moment
  does not go back, and what is left is at most what was left before and what is
  gained between the two moments, less the token that is taken (`Follows.spare_le`).
  Added up over all reservations in a stretch of time, this bounds their number by the
  burst and what is gained in that time (`paced_reservations`).
-/

import LoadBench.TokenBucket
import Mathlib.Algebra.Order.Field.Basic
import Mathlib.Algebra.Order.Ring.Rat
import Mathlib.Data.List.Chain
import Mathlib.Tactic.FieldSimp
import Mathlib.Tactic.Linarith
import Mathlib.Tactic.Positivity

namespace LoadBench

instance : Gauge ℚ where
  ofNat n := n
  seconds span := span.nanos / TimeSpan.nanosPerSecond
  least := min
  isCovered tokens := decide (0 ≤ tokens)

namespace TokenBucket

/-! ## Reservations -/

/-- A reservation of one token. -/
structure Reservation where
  /-- When it is made, in nanoseconds since the bucket was made. -/
  made : Nat
  /-- The tokens that are there then. -/
  found : ℚ
  /-- The tokens that are there when one of them has been taken; below zero, those owed. -/
  left : ℚ
  /-- How many seconds it has to wait. -/
  delay : ℚ
  deriving DecidableEq

namespace Reservation

/-- When a reservation is made, in seconds. -/
def second (reservation : Reservation) : ℚ := Gauge.seconds ⟨reservation.made⟩

/-- The second from which on a reservation may be used. -/
def moment (reservation : Reservation) : ℚ := reservation.second + reservation.delay

/-- The tokens that are left at that time, if no other is taken. -/
def spare (reservation : Reservation) : ℚ := max reservation.left 0

end Reservation

/-- The reservation of a token at a time. -/
def reservation (bucket : TokenBucket ℚ) (now : Nat) : Reservation where
  made := now
  found := (bucket.refill now).tokens
  left := (bucket.reserve 1 now).1.tokens
  delay := (bucket.reserve 1 now).2

/-- The reservations of one token each that are made at times, one after another. -/
def reservations (bucket : TokenBucket ℚ) : List Nat → List Reservation
  | [] => []
  | now :: later => bucket.reservation now :: (bucket.reserve 1 now).1.reservations later

theorem map_made (bucket : TokenBucket ℚ) (times : List Nat) :
    (bucket.reservations times).map Reservation.made = times := by
  induction times generalizing bucket with
  | nil => rfl
  | cons now later ih => exact congrArg (now :: ·) (ih _)

/-- Whether a reservation is one of a bucket with a rate and a burst. -/
structure Due (rate burst : ℚ) (reservation : Reservation) : Prop where
  found_le : reservation.found ≤ burst
  left_eq : reservation.left = reservation.found - 1
  delay_eq : reservation.delay = if 0 ≤ reservation.left then 0 else -reservation.left / rate

/-- Whether a reservation is the next one behind another. -/
structure Follows (rate burst : ℚ) (former next : Reservation) : Prop where
  second_le : former.second ≤ next.second
  found_eq : next.found = min (former.left + (next.second - former.second) * rate) burst

variable {rate burst : ℚ} {former next reservation : Reservation}

/-! ## One reservation -/

namespace Due

theorem delay_nonneg (h : Due rate burst reservation) (hrate : 0 < rate) :
    0 ≤ reservation.delay := by
  rw [h.delay_eq]
  split
  · exact le_refl 0
  · next howed => exact div_nonneg (by linarith) (le_of_lt hrate)

/-- A reservation waits for as long as it takes to gain what is owed. -/
theorem spare_eq (h : Due rate burst reservation) (hrate : 0 < rate) :
    reservation.spare = reservation.left + rate * reservation.delay := by
  rw [Reservation.spare, h.delay_eq]
  split
  · next hcovered => rw [max_eq_left hcovered, mul_zero, add_zero]
  · next howed =>
    rw [max_eq_right (by linarith), mul_div_cancel₀ _ (ne_of_gt hrate), add_neg_cancel]

theorem spare_le (h : Due rate burst reservation) (hburst : 1 ≤ burst) :
    reservation.spare + 1 ≤ burst := by
  have hfound := h.found_le
  rw [Reservation.spare, h.left_eq]
  rcases max_choice (reservation.found - 1) 0 with hmax | hmax <;> rw [hmax] <;> linarith

/-- A reservation that waits has found less than one token, and waits for the rest of it. -/
theorem of_waits (h : Due rate burst reservation) (hwaits : 0 < reservation.delay) :
    reservation.found < 1 ∧ reservation.delay = (1 - reservation.found) / rate ∧
      reservation.spare = 0 := by
  have hdelay := h.delay_eq
  split at hdelay
  · rw [hdelay] at hwaits
    exact absurd hwaits (lt_irrefl 0)
  · next howed =>
    rw [h.left_eq] at hdelay howed
    refine ⟨by linarith, by rw [hdelay, neg_sub], ?_⟩
    rw [Reservation.spare, h.left_eq]
    exact max_eq_right (by linarith)

end Due

/-! ## Two reservations -/

namespace Follows

variable (h : Follows rate burst former next) (hformer : Due rate burst former)
  (hnext : Due rate burst next) (hrate : 0 < rate)

include h hformer hnext hrate

/-- Between two reservations no more is gained than the rate allows. -/
theorem spare_le : next.spare + 1 ≤ former.spare + rate * (next.moment - former.moment) := by
  have hgained : next.found ≤ former.left + (next.second - former.second) * rate :=
    h.found_eq ▸ min_le_left _ _
  rw [hnext.spare_eq hrate, hformer.spare_eq hrate, hnext.left_eq, Reservation.moment,
    Reservation.moment]
  linarith

theorem moment_le : former.moment ≤ next.moment := by
  rcases (hformer.delay_nonneg hrate).eq_or_lt with hready | hwaits
  · -- The former one can be used at once, and the next one is not made before it.
    rw [Reservation.moment, Reservation.moment, ← hready]
    have := h.second_le
    have := hnext.delay_nonneg hrate
    linarith
  · -- Behind one that waits nothing is left, so a token has to be gained.
    have hgained := h.spare_le hformer hnext hrate
    rw [(hformer.of_waits hwaits).2.2] at hgained
    have hspare : 0 ≤ next.spare := le_max_right _ _
    have hpositive : 0 < rate * (next.moment - former.moment) := by linarith
    linarith [(mul_pos_iff_of_pos_left hrate).mp hpositive]

/-- Of two reservations that wait, the next one waits for one token more. -/
theorem moment_eq (hburst : 1 ≤ burst) (hwaits : 0 < former.delay) (hnextWaits : 0 < next.delay) :
    next.moment = former.moment + 1 / rate := by
  obtain ⟨hshort, -, hnextSpare⟩ := hnext.of_waits hnextWaits
  have hspare := (hformer.of_waits hwaits).2.2
  -- What was found is less than one token, so the bucket was not full.
  have hfound : next.found = former.left + (next.second - former.second) * rate := by
    rcases min_choice (former.left + (next.second - former.second) * rate) burst with hmin | hmin
    · rw [h.found_eq, hmin]
    · rw [h.found_eq, hmin] at hshort
      linarith
  rw [hnext.spare_eq hrate, hnext.left_eq, hfound] at hnextSpare
  rw [hformer.spare_eq hrate] at hspare
  rw [Reservation.moment, Reservation.moment]
  field_simp
  linarith

end Follows

/-! ## Reservations in a stretch of time -/

/-- Whether reservations are made by a bucket one after another. -/
structure Made (rate burst : ℚ) (reservations : List Reservation) : Prop where
  due : ∀ reservation ∈ reservations, Due rate burst reservation
  follows : reservations.IsChain (Follows rate burst)

namespace Made

variable {first : Reservation} {others : List Reservation}

theorem tail (h : Made rate burst (first :: others)) : Made rate burst others :=
  ⟨(List.forall_mem_cons.mp h.due).2, h.follows.tail⟩

/-- The moments do not go back. -/
theorem pairwise_moment (h : Made rate burst others) (hrate : 0 < rate) :
    (others.map Reservation.moment).Pairwise (· ≤ ·) := by
  rw [← List.isChain_iff_pairwise, List.isChain_map]
  exact h.follows.imp_of_mem_imp fun former next hformer hnext hfollows =>
    hfollows.moment_le (h.due former hformer) (h.due next hnext) hrate

/-- Up to a time no more follow a reservation than are left behind it, and are gained since. -/
theorem countP_others_le (h : Made rate burst (first :: others)) (hrate : 0 < rate) {stop : ℚ}
    (hstop : first.moment ≤ stop) :
    ((others.countP fun reservation => reservation.moment ≤ stop : Nat) : ℚ) ≤
      first.spare + rate * (stop - first.moment) := by
  have hgained : 0 ≤ rate * (stop - first.moment) :=
    mul_nonneg (le_of_lt hrate) (sub_nonneg.mpr hstop)
  have hspare : 0 ≤ first.spare := le_max_right _ _
  -- By induction on the others: behind the next one the number is bounded by what it leaves.
  induction others generalizing first with
  | nil => exact add_nonneg hspare hgained
  | cons next others ih =>
    have hdue := List.forall_mem_cons.mp h.due
    have hfollows := (List.isChain_cons_cons.mp h.follows).1
    have hstep := hfollows.spare_le hdue.1 (hdue.2 next List.mem_cons_self) hrate
    by_cases hnext : next.moment ≤ stop
    · have hothers := ih h.tail hnext (mul_nonneg (le_of_lt hrate) (sub_nonneg.mpr hnext))
        (le_max_right _ _)
      rw [List.countP_cons, if_pos (decide_eq_true hnext), Nat.cast_succ]
      linarith
    · -- No other one is before the next one.
      have hlater := List.pairwise_cons.mp (List.map_cons ▸ h.tail.pairwise_moment hrate)
      have hnone : ((next :: others).countP fun reservation => reservation.moment ≤ stop) = 0 := by
        rw [List.countP_eq_zero]
        intro reservation hmem hle
        refine hnext (le_trans ?_ (of_decide_eq_true hle))
        rcases List.mem_cons.mp hmem with rfl | hmem
        · exact le_refl _
        · exact hlater.1 _ (List.mem_map_of_mem hmem)
      rw [hnone, Nat.cast_zero]
      exact add_nonneg hspare hgained

/-- In a stretch of time there are no more than the burst and what is gained in it. -/
theorem countP_le (h : Made rate burst others) (hrate : 0 < rate) (hburst : 1 ≤ burst)
    (start : ℚ) {span : ℚ} (hspan : 0 ≤ span) :
    ((others.countP fun reservation =>
      start ≤ reservation.moment ∧ reservation.moment ≤ start + span : Nat) : ℚ) ≤
      burst + rate * span := by
  induction others with
  | nil => exact add_nonneg (by linarith) (mul_nonneg (le_of_lt hrate) hspan)
  | cons first others ih =>
    by_cases hfirst : start ≤ first.moment ∧ first.moment ≤ start + span
    · -- The first one in that time has left less than the burst, and the others follow it.
      have hspare := (h.due first List.mem_cons_self).spare_le hburst
      have hothers := h.countP_others_le hrate hfirst.2
      have hsince : rate * (start + span - first.moment) ≤ rate * span :=
        mul_le_mul_of_nonneg_left (by linarith) (le_of_lt hrate)
      have hwithin : (others.countP fun reservation =>
          start ≤ reservation.moment ∧ reservation.moment ≤ start + span) ≤
          others.countP fun reservation => reservation.moment ≤ start + span :=
        List.countP_mono_left fun reservation _ hmem =>
          decide_eq_true (of_decide_eq_true hmem).2
      have hcast := (Nat.cast_le (α := ℚ)).mpr hwithin
      rw [List.countP_cons, if_pos (decide_eq_true hfirst), Nat.cast_succ]
      linarith
    · rw [List.countP_cons, if_neg (mt of_decide_eq_true hfirst)]
      exact ih h.tail

end Made

/-! ## Reservations of a bucket -/

/-- Whether a bucket is as a reservation has left it. -/
structure Behind (rate burst : ℚ) (former : Reservation) (bucket : TokenBucket ℚ) : Prop where
  rate_eq : bucket.rate = rate
  burst_eq : bucket.burst = burst
  tokens_eq : bucket.tokens = former.left
  last_eq : bucket.last = former.made

variable {bucket : TokenBucket ℚ}

theorem due_reservation (hrate : bucket.rate = rate) (hburst : bucket.burst = burst) (now : Nat) :
    Due rate burst (bucket.reservation now) where
  found_le := hburst ▸ min_le_right _ _
  left_eq := by
    show (bucket.refill now).tokens - ((1 : Nat) : ℚ) = _
    rw [Nat.cast_one]
    rfl
  delay_eq := by
    show (if decide (0 ≤ (bucket.reservation now).left) = true then ((0 : Nat) : ℚ)
      else -(bucket.reservation now).left / bucket.rate) = _
    simp only [decide_eq_true_eq, Nat.cast_zero, hrate]

theorem behind_reserve (hrate : bucket.rate = rate) (hburst : bucket.burst = burst) {now : Nat}
    (hnow : bucket.last ≤ now) :
    Behind rate burst (bucket.reservation now) (bucket.reserve 1 now).1 where
  rate_eq := hrate
  burst_eq := hburst
  tokens_eq := rfl
  last_eq := Nat.max_eq_right hnow

theorem Behind.follows (h : Behind rate burst former bucket) {now : Nat}
    (hnow : bucket.last ≤ now) : Follows rate burst former (bucket.reservation now) := by
  have hsecond : (Gauge.seconds ⟨now - bucket.last⟩ : ℚ) =
      (bucket.reservation now).second - former.second := by
    show ((now - bucket.last : Nat) : ℚ) / _ = (now : ℚ) / _ - (former.made : ℚ) / _
    rw [Nat.cast_sub hnow, h.last_eq, sub_div]
  refine ⟨?_, ?_⟩
  · rw [← sub_nonneg, ← hsecond]
    show 0 ≤ ((now - bucket.last : Nat) : ℚ) / (TimeSpan.nanosPerSecond : ℚ)
    positivity
  · show min (bucket.tokens + Gauge.seconds ⟨now - bucket.last⟩ * bucket.rate) bucket.burst = _
    rw [hsecond, h.tokens_eq, h.rate_eq, h.burst_eq]

/-- A bucket makes its reservations one after another. -/
theorem Behind.made (h : Behind rate burst former bucket) (hformer : Due rate burst former)
    {times : List Nat} (htimes : (bucket.last :: times).Pairwise (· ≤ ·)) :
    Made rate burst (former :: bucket.reservations times) := by
  induction times generalizing former bucket with
  | nil => exact ⟨List.forall_mem_singleton.mpr hformer, .singleton _⟩
  | cons now later ih =>
    obtain ⟨hnow, hlater⟩ := List.pairwise_cons.mp htimes
    have hbefore := hnow now List.mem_cons_self
    have hbehind := behind_reserve h.rate_eq h.burst_eq hbefore
    have hrest := ih hbehind (due_reservation h.rate_eq h.burst_eq now)
      (by rw [hbehind.last_eq]; exact hlater)
    exact ⟨List.forall_mem_cons.mpr ⟨hformer, hrest.due⟩,
      List.isChain_cons_cons.mpr ⟨h.follows hbefore, hrest.follows⟩⟩

/-- So does a bucket that is full at its start. -/
theorem made_reservations {rate burst : Nat} (hburst : 1 ≤ burst) {times : List Nat}
    (htimes : times.Pairwise (· ≤ ·)) :
    Made rate burst ((full rate burst).reservations times) := by
  have hrate : (full rate burst : TokenBucket ℚ).rate = rate := rfl
  have hfull : (full rate burst : TokenBucket ℚ).burst = burst :=
    congrArg Nat.cast (Nat.max_eq_left hburst)
  cases times with
  | nil => exact ⟨nofun, .nil⟩
  | cons now later =>
    have hlast : (full rate burst : TokenBucket ℚ).last ≤ now := Nat.zero_le now
    have hbehind := behind_reserve hrate hfull hlast
    exact hbehind.made (due_reservation hrate hfull now) (by rw [hbehind.last_eq]; exact htimes)

/-! ## The rate -/

/-- How reservations are spread over time. -/
structure Paced (rate burst : Nat) (reservations : List Reservation) : Prop where
  /-- No reservation may be used before one that was made earlier. -/
  moments : (reservations.map Reservation.moment).Pairwise (· ≤ ·)
  tokens_le : ∀ reservation ∈ reservations,
    reservation.found ≤ burst ∧ reservation.left ≤ burst
  /-- In no stretch of time may more be used than the burst and what is gained in it. -/
  countP_le : ∀ start span : ℚ, 0 ≤ span →
    ((reservations.countP fun reservation =>
      start ≤ reservation.moment ∧ reservation.moment ≤ start + span : Nat) : ℚ) ≤
      burst + rate * span
  delay_nonneg : ∀ reservation ∈ reservations, 0 ≤ reservation.delay
  /-- A reservation that waits behind one that waits has to wait for one token more. -/
  moment_eq : ∀ index former next, reservations[index]? = some former →
    reservations[index + 1]? = some next → 0 < former.delay → 0 < next.delay →
      next.moment = former.moment + 1 / (rate : ℚ)
  /-- One that waits has found less than a whole token, and waits for what is missing. -/
  waits : ∀ reservation ∈ reservations, 0 < reservation.delay →
    reservation.found < 1 ∧ reservation.delay = (1 - reservation.found) / rate

/-- Reservations made at times that do not go back are spread as the rate and the burst say. -/
theorem paced_reservations {rate burst : Nat} (hrate : 1 ≤ rate) (hburst : 1 ≤ burst)
    {times : List Nat} (htimes : times.Pairwise (· ≤ ·)) :
    ((full rate burst).reservations times).map Reservation.made = times ∧
      Paced rate burst ((full rate burst).reservations times) := by
  have hmade : Made rate burst ((full rate burst).reservations times) :=
    made_reservations hburst htimes
  have hpositive : (0 : ℚ) < rate := Nat.cast_pos.mpr hrate
  have hone : (1 : ℚ) ≤ burst := Nat.one_le_cast.mpr hburst
  refine ⟨map_made _ _,
    { moments := hmade.pairwise_moment hpositive
      tokens_le := fun reservation hmem => ?_
      countP_le := fun start _ hspan => hmade.countP_le hpositive hone start hspan
      delay_nonneg := fun reservation hmem => (hmade.due reservation hmem).delay_nonneg hpositive
      moment_eq := ?_
      waits := fun reservation hmem hwaits => ?_ }⟩
  · have hdue := hmade.due reservation hmem
    refine ⟨hdue.found_le, ?_⟩
    rw [hdue.left_eq]
    linarith [hdue.found_le]
  · intro index former next hformer hnext hwaits hnextWaits
    obtain ⟨hlt, rfl⟩ := List.getElem?_eq_some_iff.mp hformer
    obtain ⟨hltNext, rfl⟩ := List.getElem?_eq_some_iff.mp hnext
    have hfollows := hmade.follows.getElem index hltNext
    exact hfollows.moment_eq (hmade.due _ (List.getElem_mem hlt))
      (hmade.due _ (List.getElem_mem hltNext)) hpositive hone hwaits hnextWaits
  · obtain ⟨hshort, hdelay, -⟩ := (hmade.due reservation hmem).of_waits hwaits
    exact ⟨hshort, hdelay⟩

/-- Five reservations empty a bucket of two tokens; at the sixth it is full again. -/
theorem paced_sixReservations :
    ((full 10 2).reservations [0, 0, 0, 0, 50000000, 700000000]).map Reservation.moment =
        [0, 0, 1 / 10, 2 / 10, 3 / 10, 7 / 10] ∧
      Paced 10 2 ((full 10 2).reservations [0, 0, 0, 0, 50000000, 700000000]) :=
  ⟨by decide +kernel, (paced_reservations (by decide) (by decide) (by decide)).2⟩

end TokenBucket

end LoadBench
