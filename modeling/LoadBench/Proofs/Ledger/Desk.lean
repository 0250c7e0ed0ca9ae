/-
  LoadBench.Proofs.Ledger.Desk

  Recordings that come in between each other.  A ledger is balanced
  (`Ledger.Balanced`) if each of its counters shows exactly what the recordings have
  brought into it so far (`Recording.share`).  A section of one recording keeps the
  balance whatever the others have brought (`Balanced.advance`), so it holds at every
  moment.

  From it follows what can be seen at any moment, and what is seen in the end
  (`agree_of_follow`): all views show the same samples, and without a burn-in they
  are those of recording the batches one after another, in any order.

  A recording that nobody comes in between does what `Ledger.record` does
  (`follow_alone`), so this is about the same recordings.
-/

import LoadBench.Desk
import LoadBench.Proofs.Ledger.Views
import LoadBench.Proofs.Trace

namespace LoadBench

/-! ## What a recording has brought -/

/-- Where a ledger shows what recordings have brought. -/
inductive View where
  | drawn
  | measured
  | labelled
  | queried
  | dated
  | sent
  | received
  deriving DecidableEq, Repr

namespace Recording

/-- The samples a recording has brought into a view so far. -/
def share (recording : Recording) : View → List Sample
  | .drawn => recording.drawn
  | .measured => recording.measured
  | .labelled =>
    match recording.stage with
    | .drawing _ | .labelling => []
    | _ => recording.measured
  | .queried =>
    match recording.stage with
    | .drawing _ | .labelling | .querying => []
    | _ => recording.measured
  | .dated =>
    match recording.stage with
    | .drawing _ | .labelling | .querying | .dating => []
    | _ => recording.measured
  | .sent =>
    match recording.stage with
    | .receiving _ | .returned => recording.measured
    | _ => []
  | .received =>
    match recording.stage with
    | .returned => recording.measured
    | _ => []

/-- What a recording keeps: it measures some of the samples that have a ticket, all of them if
there is no burn-in, and goes on to the bytes only if 64 bits hold them. -/
structure Sound (recording : Recording) (burnIn : Nat) : Prop where
  sublist : recording.measured.Sublist recording.drawn
  measured_eq : burnIn = 0 → recording.measured = recording.drawn
  receiving : ∀ bytes, recording.stage = .receiving bytes →
    bytes = UInt64.ofNat (Sample.receivedBytes recording.measured)
  countable : (∃ bytes, recording.stage = .receiving bytes) ∨ recording.stage = .returned →
    Sample.Countable recording.measured

end Recording

/-! ## The balance -/

/-- Whether a ledger shows what was brought into its views. -/
structure Ledger.Balanced (ledger : Ledger) (burnIn : Nat) (brought : View → Multiset Sample) :
    Prop where
  burnIn_eq : ledger.burnIn = burnIn
  seen_eq : ledger.seen = (brought .drawn).card
  measured_eq : (brought .measured).card + Nat.min burnIn ledger.seen = ledger.seen
  tallies : ∃ labelled queried dated, ledger.Tallies labelled queried dated ∧
    (labelled : Multiset Sample) = brought .labelled ∧
    (queried : Multiset Sample) = brought .queried ∧
    (dated : Multiset Sample) = brought .dated
  sent : ledger.sent.toNat = Sample.sentBytes (brought .sent) % 2 ^ 64
  received : ledger.received.toNat = Sample.receivedBytes (brought .received) % 2 ^ 64

namespace Recording

variable {recording next : Recording} {ledger ledger' : Ledger} {burnIn : Nat}

/-- Of one sample more that has a ticket. -/
theorem Sound.draw (h : recording.Sound burnIn) {isMeasured : Bool} (hmeasured : burnIn = 0 →
    isMeasured = true) (sample : Sample) (rest : List Sample) :
    Sound ⟨recording.drawn ++ [sample],
      if isMeasured then recording.measured ++ [sample] else recording.measured,
      .drawing rest⟩ burnIn := by
  cases isMeasured with
  | true =>
    refine ⟨h.sublist.append_right _, fun hzero => ?_, nofun, nofun⟩
    rw [if_pos rfl, h.measured_eq hzero]
  | false =>
    refine ⟨h.sublist.trans (List.sublist_append_left _ _), fun hzero => ?_, nofun, nofun⟩
    cases hmeasured hzero

theorem Sound.advance (h : recording.Sound burnIn) (hburnIn : ledger.burnIn = burnIn)
    (hadvance : recording.advance? ledger = some (ledger', next)) :
    next.Sound burnIn ∧ next.samples = recording.samples := by
  obtain ⟨drawn, measured, stage⟩ := recording
  cases stage with
  | drawing undrawn =>
    cases undrawn with
    | nil =>
      obtain ⟨-, rfl⟩ := Prod.mk.inj (Option.some.inj hadvance)
      cases measured with
      | nil =>
        have hcountable : Sample.Countable ([] : List Sample) := ⟨Nat.two_pow_pos 64,
          Nat.two_pow_pos 64⟩
        exact ⟨⟨h.sublist, h.measured_eq, nofun, fun _ => hcountable⟩, rfl⟩
      | cons => exact ⟨⟨h.sublist, h.measured_eq, nofun, nofun⟩, rfl⟩
    | cons sample rest =>
      obtain ⟨-, rfl⟩ := Prod.mk.inj (Option.some.inj hadvance)
      refine ⟨h.draw (fun hzero => ?_) sample rest, List.append_assoc ..⟩
      rw [hburnIn, hzero]
      exact decide_eq_true (Nat.zero_le _)
  | labelling | querying | dating =>
    obtain ⟨-, rfl⟩ := Prod.mk.inj (Option.some.inj hadvance)
    exact ⟨⟨h.sublist, h.measured_eq, nofun, nofun⟩, rfl⟩
  | sending =>
    by_cases hcountable : Sample.Countable measured
    · rw [advance?, Traffic.ofSamples?_of_countable hcountable] at hadvance
      obtain ⟨-, rfl⟩ := Prod.mk.inj (Option.some.inj hadvance)
      refine ⟨⟨h.sublist, h.measured_eq, fun bytes hbytes => ?_, fun _ => hcountable⟩, rfl⟩
      exact (RecordingStage.receiving.inj hbytes).symm
    · rw [advance?, Traffic.ofSamples?_of_not_countable hcountable] at hadvance
      obtain ⟨-, rfl⟩ := Prod.mk.inj (Option.some.inj hadvance)
      exact ⟨⟨h.sublist, h.measured_eq, nofun, nofun⟩, rfl⟩
  | receiving bytes =>
    obtain ⟨-, rfl⟩ := Prod.mk.inj (Option.some.inj hadvance)
    exact ⟨⟨h.sublist, h.measured_eq, nofun, fun _ => h.countable (Or.inl ⟨bytes, rfl⟩)⟩, rfl⟩
  | returned | overflowed => cases hadvance

end Recording

/-! ## A section of one recording -/

/-- A list that had nothing of a recording gets all of it. -/
theorem coe_append_of_eq {list : List Sample} {others : Multiset Sample}
    (h : (list : Multiset Sample) = others + ([] : List Sample)) (added : List Sample) :
    ((list ++ added : List Sample) : Multiset Sample) = others + added := by
  rw [← Multiset.coe_add, h, Multiset.coe_nil, add_zero]

namespace Ledger.Balanced

variable {ledger ledger' : Ledger} {recording next : Recording} {burnIn : Nat}
  {others : View → Multiset Sample}

/-- The next ticket is behind the burn-in, or it is one more within it. -/
theorem ticket {drawn measured : List Sample} {sample : Sample} {rest : List Sample}
    (h : ledger.Balanced burnIn fun view =>
      others view + Recording.share ⟨drawn, measured, .drawing (sample :: rest)⟩ view) :
    ledger.ticket.1.Balanced burnIn fun view =>
      others view + Recording.share ⟨drawn ++ [sample],
        if ledger.ticket.2 then measured ++ [sample] else measured, .drawing rest⟩ view := by
  have hseen : ledger.seen = (others .drawn + (drawn : Multiset Sample)).card := h.seen_eq
  have hmeasured : (others .measured + (measured : Multiset Sample)).card +
      min burnIn ledger.seen = ledger.seen := h.measured_eq
  obtain ⟨labelled, queried, dated, htallies, hbrought⟩ := h.tallies
  refine ⟨h.burnIn_eq, ?_, ?_, ⟨_, _, _, htallies.bytes _ _ _ _, hbrought⟩, h.sent, h.received⟩
  · show ledger.seen + 1 = (others .drawn + ((drawn ++ [sample] : List Sample))).card
    rw [hseen, Multiset.card_add, Multiset.card_add, Multiset.coe_card, Multiset.coe_card,
      List.length_append]
    rfl
  · show (others .measured + ((if decide (ledger.burnIn ≤ ledger.seen) then measured ++ [sample]
      else measured : List Sample) : Multiset Sample)).card + min burnIn (ledger.seen + 1) =
        ledger.seen + 1
    rw [Multiset.card_add, Multiset.coe_card] at hmeasured ⊢
    rw [h.burnIn_eq]
    by_cases hbehind : burnIn ≤ ledger.seen
    · rw [decide_eq_true hbehind, if_pos rfl, List.length_append, List.length_singleton]
      omega
    · rw [decide_eq_false hbehind, if_neg Bool.false_ne_true]
      omega

/-- A section of one recording keeps the balance, whatever the others have brought. -/
theorem advance (h : ledger.Balanced burnIn fun view => others view + recording.share view)
    (hsound : recording.Sound burnIn)
    (hadvance : recording.advance? ledger = some (ledger', next)) :
    ledger'.Balanced burnIn fun view => others view + next.share view := by
  obtain ⟨drawn, measured, stage⟩ := recording
  cases stage with
  | drawing undrawn =>
    cases undrawn with
    | nil =>
      obtain ⟨rfl, rfl⟩ := Prod.mk.inj (Option.some.inj hadvance)
      -- A recording that has measured nothing is at its end, and has brought nothing.
      cases measured with
      | nil => exact ⟨h.burnIn_eq, h.seen_eq, h.measured_eq, h.tallies, h.sent, h.received⟩
      | cons => exact ⟨h.burnIn_eq, h.seen_eq, h.measured_eq, h.tallies, h.sent, h.received⟩
    | cons sample rest =>
      obtain ⟨rfl, rfl⟩ := Prod.mk.inj (Option.some.inj hadvance)
      exact h.ticket
  | labelling =>
    obtain ⟨rfl, rfl⟩ := Prod.mk.inj (Option.some.inj hadvance)
    obtain ⟨labelled, queried, dated, htallies, hlabelled, hqueried, hdated⟩ := h.tallies
    have hcounted := htallies.countLabels measured
    show (ledger.countLabels measured).Balanced burnIn _
    obtain ⟨tracks, total, instant, heq⟩ : ∃ tracks total instantTotal,
        ledger.countLabels measured = { ledger with tracks, total, instantTotal } :=
      ⟨_, _, _, countLabels_eq ledger measured⟩
    rw [heq] at hcounted ⊢
    exact ⟨h.burnIn_eq, h.seen_eq, h.measured_eq, ⟨_, _, _, hcounted,
      coe_append_of_eq hlabelled measured, hqueried, hdated⟩, h.sent, h.received⟩
  | querying =>
    obtain ⟨rfl, rfl⟩ := Prod.mk.inj (Option.some.inj hadvance)
    obtain ⟨labelled, queried, dated, htallies, hlabelled, hqueried, hdated⟩ := h.tallies
    exact ⟨h.burnIn_eq, h.seen_eq, h.measured_eq, ⟨_, _, _, htallies.countQueries measured,
      hlabelled, coe_append_of_eq hqueried measured, hdated⟩, h.sent, h.received⟩
  | dating =>
    obtain ⟨rfl, rfl⟩ := Prod.mk.inj (Option.some.inj hadvance)
    obtain ⟨labelled, queried, dated, htallies, hlabelled, hqueried, hdated⟩ := h.tallies
    exact ⟨h.burnIn_eq, h.seen_eq, h.measured_eq, ⟨_, _, _, htallies.countSeconds measured,
      hlabelled, hqueried, coe_append_of_eq hdated measured⟩, h.sent, h.received⟩
  | sending =>
    by_cases hcountable : Sample.Countable measured
    · rw [Recording.advance?, Traffic.ofSamples?_of_countable hcountable] at hadvance
      obtain ⟨rfl, rfl⟩ := Prod.mk.inj (Option.some.inj hadvance)
      obtain ⟨labelled, queried, dated, htallies, hbrought⟩ := h.tallies
      refine ⟨h.burnIn_eq, h.seen_eq, h.measured_eq, ⟨_, _, _, htallies.bytes _ _ _ _, hbrought⟩,
        ?_, h.received⟩
      have hsent : ledger.sent.toNat =
          Sample.sentBytes (others .sent + ([] : List Sample)) % 2 ^ 64 := h.sent
      show (ledger.sent + UInt64.ofNat (Sample.sentBytes measured)).toNat =
        Sample.sentBytes (others .sent + measured) % 2 ^ 64
      rw [UInt64.toNat_add, UInt64.toNat_ofNat', hsent, ← Nat.add_mod, ← Sample.sentBytes_add,
        Multiset.coe_nil, add_zero]
    · rw [Recording.advance?, Traffic.ofSamples?_of_not_countable hcountable] at hadvance
      obtain ⟨rfl, rfl⟩ := Prod.mk.inj (Option.some.inj hadvance)
      exact ⟨h.burnIn_eq, h.seen_eq, h.measured_eq, h.tallies, h.sent, h.received⟩
  | receiving bytes =>
    obtain ⟨rfl, rfl⟩ := Prod.mk.inj (Option.some.inj hadvance)
    obtain ⟨labelled, queried, dated, htallies, hbrought⟩ := h.tallies
    refine ⟨h.burnIn_eq, h.seen_eq, h.measured_eq, ⟨_, _, _, htallies.bytes _ _ _ _, hbrought⟩,
      h.sent, ?_⟩
    have hreceived : ledger.received.toNat =
        Sample.receivedBytes (others .received + ([] : List Sample)) % 2 ^ 64 := h.received
    show (ledger.received + bytes).toNat =
      Sample.receivedBytes (others .received + measured) % 2 ^ 64
    rw [hsound.receiving bytes rfl, UInt64.toNat_add, UInt64.toNat_ofNat', hreceived,
      ← Nat.add_mod, ← Sample.receivedBytes_add, Multiset.coe_nil, add_zero]
  | returned | overflowed => cases hadvance

/-- The end of a period keeps the balance. -/
theorem restartTracks {brought : View → Multiset Sample} (h : ledger.Balanced burnIn brought) :
    ledger.restartTracks.Balanced burnIn brought := by
  obtain ⟨labelled, queried, dated, htallies, hbrought⟩ := h.tallies
  exact ⟨h.burnIn_eq, h.seen_eq, h.measured_eq, ⟨_, _, _, htallies.restart, hbrought⟩, h.sent,
    h.received⟩

theorem publish {brought : View → Multiset Sample} (h : ledger.Balanced burnIn brought)
    (points : List (String × SeriesPoint)) : (ledger.publish points).Balanced burnIn brought := by
  obtain ⟨labelled, queried, dated, htallies, hbrought⟩ := h.tallies
  exact ⟨h.burnIn_eq, h.seen_eq, h.measured_eq,
    ⟨_, _, _, htallies.bytes ledger.seen _ ledger.sent ledger.received, hbrought⟩, h.sent,
    h.received⟩

end Ledger.Balanced

/-! ## All parties -/

namespace Desk

variable {desk after : Desk} {burnIn : Nat} {batches : List Measurements}

/-- What a move does: one section of a recording, or one of the two that end a period. -/
inductive Steps (desk : Desk) : Move → Desk → Prop
  | advance {index : Nat} {recording next : Recording} {ledger : Ledger}
      (hrecording : desk.recordings[index]? = some recording)
      (hadvance : recording.advance? desk.ledger = some (ledger, next)) :
      Steps desk (.advance index)
        { desk with ledger := ledger, recordings := desk.recordings.set index next }
  | endPeriod {timestamp : UInt64} {took : TimeSpan} {previous : Counts}
      (hnone : desk.unpublished = none) :
      Steps desk (.endPeriod timestamp took previous)
        { desk with
          ledger := desk.ledger.restartTracks
          unpublished :=
            some (desk.ledger.pointsOf timestamp took (desk.ledger.row took previous)) }
  | publish {points : List (String × SeriesPoint)} (hpoints : desk.unpublished = some points) :
      Steps desk .publish
        { desk with ledger := desk.ledger.publish points, unpublished := none }

theorem steps_of_step? {move : Move} (hstep : step? move desk = some after) :
    desk.Steps move after := by
  cases move with
  | advance index =>
    obtain ⟨recording, hrecording, hrest⟩ := Option.bind_eq_some_iff.mp hstep
    obtain ⟨⟨ledger, next⟩, hadvance, hafter⟩ := Option.bind_eq_some_iff.mp hrest
    obtain rfl := Option.some.inj hafter
    exact .advance hrecording hadvance
  | endPeriod timestamp took previous =>
    unfold step? at hstep
    cases hunpublished : desk.unpublished with
    | some points =>
      rw [hunpublished] at hstep
      cases hstep
    | none =>
      rw [hunpublished] at hstep
      obtain rfl := Option.some.inj hstep
      exact .endPeriod hunpublished
  | publish =>
    obtain ⟨points, hpoints, hafter⟩ := Option.bind_eq_some_iff.mp hstep
    obtain rfl := Option.some.inj hafter
    exact .publish hpoints

/-- What recordings have brought into a view. -/
def brought (recordings : List Recording) (view : View) : Multiset Sample :=
  (recordings.flatMap fun recording => recording.share view : List Sample)

/-- One recording among others has brought its share. -/
theorem brought_split (front back : List Recording) (recording : Recording) :
    brought (front ++ recording :: back) =
      fun view => brought (front ++ back) view + recording.share view := by
  funext view
  simp only [brought, List.flatMap_append, List.flatMap_cons, ← Multiset.coe_add]
  rw [add_assoc, add_comm (recording.share view : Multiset Sample)]

theorem brought_start (batches : List Measurements) :
    brought (batches.map Recording.start) = fun _ => 0 := by
  funext view
  rw [brought, Multiset.coe_eq_zero, List.flatMap_eq_nil_iff]
  intro recording hrecording
  obtain ⟨batch, -, rfl⟩ := List.mem_map.mp hrecording
  cases view <;> rfl

/-- What every section of every party keeps. -/
structure Kept (desk : Desk) (burnIn : Nat) (batches : List Measurements) : Prop where
  samples_eq : desk.recordings.map Recording.samples = batches.map Measurements.samples
  sound : ∀ recording ∈ desk.recordings, recording.Sound burnIn
  balanced : desk.ledger.Balanced burnIn (brought desk.recordings)

theorem kept_start (burnIn : Nat) (batches : List Measurements) :
    (start burnIn batches).Kept burnIn batches := by
  refine ⟨?_, ?_, ?_⟩
  · rw [start, List.map_map]
    rfl
  · intro recording hrecording
    obtain ⟨batch, -, rfl⟩ := List.mem_map.mp hrecording
    exact ⟨List.Sublist.slnil, fun _ => rfl, nofun, nofun⟩
  · have hnone : 0 + Nat.min burnIn 0 = 0 := by
      rw [Nat.zero_add]
      exact Nat.min_zero burnIn
    show (Ledger.create burnIn).Balanced burnIn (brought (batches.map Recording.start))
    rw [brought_start]
    exact ⟨rfl, rfl, hnone, ⟨_, _, _, Ledger.tallies_create burnIn, rfl, rfl, rfl⟩, rfl, rfl⟩

theorem Kept.step (h : desk.Kept burnIn batches) {move : Move}
    (hstep : step? move desk = some after) : after.Kept burnIn batches := by
  cases steps_of_step? hstep with
  | @advance index recording next ledger hrecording hadvance =>
    obtain ⟨hlt, hget⟩ := List.getElem?_eq_some_iff.mp hrecording
    obtain ⟨front, back, hsplit, -, hset⟩ := @List.exists_of_set _ index next _ hlt
    rw [hget] at hsplit
    have hsamples := h.samples_eq
    have hsound := h.sound
    have hbalanced := h.balanced
    rw [hsplit] at hsamples hsound hbalanced
    rw [brought_split] at hbalanced
    have hmember : recording ∈ front ++ recording :: back :=
      List.mem_append_right _ (List.mem_cons_self ..)
    obtain ⟨hnext, hsame⟩ := (hsound _ hmember).advance h.balanced.burnIn_eq hadvance
    refine ⟨?_, ?_, ?_⟩
    · rw [hset, ← hsamples]
      simp only [List.map_append, List.map_cons, hsame]
    · intro other hother
      rw [hset] at hother
      rcases List.mem_append.mp hother with hfront | hback
      · exact hsound other (List.mem_append_left _ hfront)
      · rcases List.mem_cons.mp hback with rfl | hback
        · exact hnext
        · exact hsound other (List.mem_append_right _ (List.mem_cons_of_mem _ hback))
    · show ledger.Balanced burnIn (brought (desk.recordings.set index next))
      rw [hset, brought_split]
      exact hbalanced.advance (hsound _ hmember) hadvance
  | endPeriod => exact ⟨h.samples_eq, h.sound, h.balanced.restartTracks⟩
  | @publish points => exact ⟨h.samples_eq, h.sound, h.balanced.publish points⟩

theorem kept_follow {moves : List Move}
    (hfollow : follow? step? moves (start burnIn batches) = some desk) :
    desk.Kept burnIn batches :=
  follow?_preserves (P := fun desk => desk.Kept burnIn batches)
    (fun _ _ _ h hstep => h.step hstep) (kept_start burnIn batches) hfollow

/-! ## What can be seen at any moment -/

/-- A view into which every recording has brought a part of what it has brought into another. -/
theorem brought_le (recordings : List Recording) {view other : View}
    (h : ∀ recording : Recording, (recording.share view).Sublist (recording.share other)) :
    brought recordings view ≤ brought recordings other := by
  induction recordings with
  | nil => exact le_refl _
  | cons recording rest ih =>
    have hown : (recording.share view : Multiset Sample) ≤ recording.share other :=
      Multiset.coe_le.mpr (h recording).subperm
    simp only [brought, List.flatMap_cons, ← Multiset.coe_add] at ih ⊢
    exact add_le_add hown ih

theorem brought_congr {recordings : List Recording} {view other : View}
    (h : ∀ recording ∈ recordings, recording.share view = recording.share other) :
    brought recordings view = brought recordings other :=
  congrArg Multiset.ofList (List.flatMap_congr h)

/-- What holds at every moment: slot by slot the histograms of the labels come to that of all
commands, and no command is shown under its second before it is shown under its query, or under
its query before it is shown under its label. -/
structure Agrees (desk : Desk) : Prop where
  slots : ∀ slot, (Label.all.map fun label =>
    (desk.ledger.tracks.get label).cumulative.countAt slot).sum = desk.ledger.total.countAt slot
  counts : (Label.all.map desk.ledger.counts.perLabel.get).sum = desk.ledger.counts.total
  perSecond_le : (desk.ledger.perSecond.values.map Histogram.total).sum ≤
    (desk.ledger.details.values.map Histogram.total).sum
  details_le : (desk.ledger.details.values.map Histogram.total).sum ≤ desk.ledger.total.total

theorem Kept.agrees (h : desk.Kept burnIn batches) : desk.Agrees := by
  obtain ⟨labelled, queried, dated, htallies, hlabelled, hqueried, hdated⟩ := h.balanced.tallies
  have hdated_le : brought desk.recordings .dated ≤ brought desk.recordings .queried := by
    apply brought_le
    rintro ⟨drawn, measured, stage⟩
    cases stage <;> first | exact List.Sublist.refl _ | exact List.nil_sublist _
  have hqueried_le : brought desk.recordings .queried ≤ brought desk.recordings .labelled := by
    apply brought_le
    rintro ⟨drawn, measured, stage⟩
    cases stage <;> first | exact List.Sublist.refl _ | exact List.nil_sublist _
  rw [← hdated, ← hqueried] at hdated_le
  rw [← hqueried, ← hlabelled] at hqueried_le
  refine ⟨htallies.sum_countAt, htallies.sum_counts, ?_, ?_⟩
  · rw [htallies.total_perSecond, htallies.total_details]
    exact Multiset.card_le_card hdated_le
  · rw [htallies.total_details, htallies.total_total]
    exact Multiset.card_le_card hqueried_le

/-! ## What is seen in the end -/

/-- The samples that were measured. -/
def measured (desk : Desk) : List Sample := desk.recordings.flatMap Recording.measured

/-- What holds when all recordings are over: as many samples as the burn-in covers are missing, of
each recording some, and they are missing in every view. -/
structure Settled (desk : Desk) (burnIn : Nat) (batches : List Measurements) : Prop where
  samples_eq : desk.recordings.map Recording.samples = batches.map Measurements.samples
  sublist : ∀ recording ∈ desk.recordings, recording.measured.Sublist recording.samples
  seen_eq : desk.ledger.seen = (batches.flatMap Measurements.samples).length
  leftOut_eq : desk.ledger.leftOut = Nat.min burnIn desk.ledger.seen
  shows : desk.ledger.Shows desk.measured
  total_measured : desk.measured.length = desk.ledger.seen - Nat.min burnIn desk.ledger.seen
  total_all : desk.ledger.total.total = desk.measured.length
  total_labels :
    (Label.all.map fun label => (desk.ledger.tracks.get label).cumulative.total).sum =
      desk.measured.length
  total_details : (desk.ledger.details.values.map Histogram.total).sum = desk.measured.length
  total_perSecond : (desk.ledger.perSecond.values.map Histogram.total).sum = desk.measured.length

/-- In the end every view shows the measured samples. -/
theorem Kept.tallies (h : desk.Kept burnIn batches)
    (hover : ∀ recording ∈ desk.recordings, recording.isOver = true) :
    desk.ledger.Tallies desk.measured desk.measured desk.measured := by
  obtain ⟨labelled, queried, dated, htallies, hlabelled, hqueried, hdated⟩ := h.balanced.tallies
  have hshare : ∀ view, view = .labelled ∨ view = .queried ∨ view = .dated →
      brought desk.recordings view = brought desk.recordings .measured := by
    intro view hview
    apply brought_congr
    rintro ⟨drawn, measured, stage⟩ hmem
    have hisOver := hover _ hmem
    cases stage with
    | returned | overflowed => rcases hview with rfl | rfl | rfl <;> rfl
    | _ => cases hisOver
  rw [hshare _ (Or.inl rfl)] at hlabelled
  rw [hshare _ (Or.inr (Or.inl rfl))] at hqueried
  rw [hshare _ (Or.inr (Or.inr rfl))] at hdated
  exact htallies.perm (Multiset.coe_eq_coe.mp hlabelled) (Multiset.coe_eq_coe.mp hqueried)
    (Multiset.coe_eq_coe.mp hdated)

/-- A recording that is over has drawn all its tickets. -/
theorem samples_eq_drawn {recording : Recording} (h : recording.isOver = true) :
    recording.samples = recording.drawn := by
  obtain ⟨drawn, measured, stage⟩ := recording
  cases stage with
  | returned | overflowed => exact List.append_nil drawn
  | _ => cases h

theorem Kept.settled (h : desk.Kept burnIn batches)
    (hover : ∀ recording ∈ desk.recordings, recording.isOver = true) :
    desk.Settled burnIn batches := by
  have htallies := h.tallies hover
  have hseen : desk.ledger.seen = (batches.flatMap Measurements.samples).length := by
    rw [h.balanced.seen_eq, List.flatMap_def, ← h.samples_eq, ← List.flatMap_def,
      List.flatMap_congr fun recording hmem => samples_eq_drawn (hover recording hmem)]
    rfl
  have hmeasured : desk.measured.length + Nat.min burnIn desk.ledger.seen = desk.ledger.seen :=
    h.balanced.measured_eq
  refine ⟨h.samples_eq, fun recording hmem => ?_, hseen, ?_, htallies.shows, by omega,
    htallies.total_total, ?_, htallies.total_details, htallies.total_perSecond⟩
  · rw [samples_eq_drawn (hover recording hmem)]
    exact (h.sound recording hmem).sublist
  · rw [Ledger.leftOut, h.balanced.burnIn_eq]
    exact Nat.min_comm _ _
  · have hsum := htallies.sum_counts
    rw [funext (Ledger.counts_perLabel desk.ledger)] at hsum
    exact hsum.trans htallies.total_total

/-- In the end the byte totals are those of the measured samples, at 64 bits. -/
theorem Kept.bytes (h : desk.Kept burnIn batches)
    (hreturned : ∀ recording ∈ desk.recordings, recording.stage = .returned) :
    desk.ledger.sent.toNat = Sample.sentBytes desk.measured % 2 ^ 64 ∧
      desk.ledger.received.toNat = Sample.receivedBytes desk.measured % 2 ^ 64 := by
  have hshare : ∀ view, view = .sent ∨ view = .received →
      brought desk.recordings view = desk.measured := by
    intro view hview
    refine congrArg Multiset.ofList (List.flatMap_congr ?_)
    rintro ⟨drawn, measured, stage⟩ hmem
    obtain rfl : stage = .returned := hreturned _ hmem
    rcases hview with rfl | rfl <;> rfl
  rw [← hshare .sent (Or.inl rfl)]
  refine ⟨h.balanced.sent, ?_⟩
  rw [hshare .sent (Or.inl rfl), ← hshare .received (Or.inr rfl)]
  exact h.balanced.received

/-- Without a burn-in the measured samples are those of the batches. -/
theorem Kept.measured_eq (h : desk.Kept 0 batches)
    (hover : ∀ recording ∈ desk.recordings, recording.isOver = true) :
    desk.measured = batches.flatMap Measurements.samples := by
  rw [measured, List.flatMap_def, List.flatMap_def, ← h.samples_eq]
  congr 1
  apply List.map_congr_left
  intro recording hmem
  rw [samples_eq_drawn (hover recording hmem)]
  exact (h.sound recording hmem).measured_eq rfl

/-- Without a burn-in the totals are those of recording the batches one after another, in any
order. -/
theorem Kept.sameTotals (h : desk.Kept 0 batches)
    (hreturned : ∀ recording ∈ desk.recordings, recording.stage = .returned)
    {order : List Measurements} (horder : order.Perm batches) :
    ∃ ledger, (Ledger.create 0).replay (order.map Ledger.Event.record) = (ledger, true) ∧
      desk.ledger.SameTotals ledger := by
  have hover : ∀ recording ∈ desk.recordings, recording.isOver = true := by
    intro recording hmem
    rw [Recording.isOver, hreturned recording hmem]
  have hmeasured := h.measured_eq hover
  -- Every batch was recorded to its end, so 64 bits hold its bytes.
  have hcountable : ∀ batch ∈ order, Sample.Countable batch.samples := by
    intro batch hbatch
    have hmem : batch.samples ∈ desk.recordings.map Recording.samples := by
      rw [h.samples_eq]
      exact List.mem_map_of_mem (horder.mem_iff.mp hbatch)
    obtain ⟨recording, hrecording, hsamples⟩ := List.mem_map.mp hmem
    have hsound := h.sound recording hrecording
    rw [← hsamples, samples_eq_drawn (hover recording hrecording), ← hsound.measured_eq rfl]
    exact hsound.countable (Or.inr (hreturned recording hrecording))
  have hcreate := Ledger.recorded_create 0 True
  have hall := hcreate.replay_records_end order hcountable
  have hreplay := hcreate.replay (order.map Ledger.Event.record)
  have hissued : (order.map Ledger.Event.record).flatMap Ledger.Event.samples =
      order.flatMap Measurements.samples := by
    rw [List.flatMap_map]
    rfl
  rw [List.nil_append, hissued] at hreplay
  have hperm : (order.flatMap Measurements.samples).Perm desk.measured := by
    rw [hmeasured]
    exact horder.flatMap_right _
  have hbytes := h.bytes hreturned
  refine ⟨_, Prod.ext rfl hall, (h.tallies hover).sameTotals
    (hreplay.tallies.perm hperm hperm hperm) ?_ ?_⟩
  · apply UInt64.toNat_inj.mp
    rw [hbytes.1, hreplay.sent ⟨trivial, hall⟩, List.drop_zero, Multiset.coe_eq_coe.mpr hperm]
  · apply UInt64.toNat_inj.mp
    rw [hbytes.2, hreplay.received ⟨trivial, hall⟩, List.drop_zero, Multiset.coe_eq_coe.mpr hperm]

/-- Recordings that come in between each other, and periods that end in between, keep the views of
a ledger in agreement.  When all recordings are over, the views show the same samples, all but
those the burn-in covers.  When all have returned, the byte totals are those of these samples too,
and without a burn-in everything is as if the batches had been recorded one after another, in any
order. -/
theorem agree_of_follow {moves : List Move}
    (hfollow : follow? step? moves (start burnIn batches) = some desk) :
    desk.Agrees ∧
      ((∀ recording ∈ desk.recordings, recording.isOver = true) → desk.Settled burnIn batches) ∧
      ((∀ recording ∈ desk.recordings, recording.stage = .returned) →
        desk.ledger.sent.toNat = Sample.sentBytes desk.measured % 2 ^ 64 ∧
        desk.ledger.received.toNat = Sample.receivedBytes desk.measured % 2 ^ 64) ∧
      (burnIn = 0 → (∀ recording ∈ desk.recordings, recording.stage = .returned) →
        ∀ order : List Measurements, order.Perm batches →
          ∃ ledger, (Ledger.create 0).replay (order.map Ledger.Event.record) = (ledger, true) ∧
            desk.ledger.SameTotals ledger) := by
  have hkept := kept_follow hfollow
  refine ⟨hkept.agrees, hkept.settled, hkept.bytes, ?_⟩
  rintro rfl hreturned order horder
  exact hkept.sameTotals hreturned horder

/-- Two reads of one worker and a write of another. -/
def readsAndWrite : List Measurements :=
  [⟨[Sample.plain "READ" "R1" 7 30, Sample.plain "READ" "R2" 7 40]⟩,
    ⟨[Sample.plain "WRITE" "W1" 8 50]⟩]

/-- The write overtakes the reads at the labels, a period ends, and the reads overtake the write at
the seconds. -/
def overtaking : List Move :=
  [.advance 0, .advance 1, .advance 1, .advance 1, .endPeriod 5 (TimeSpan.ofMillis 1000) Counts.zero,
    .advance 0, .advance 0, .advance 0, .publish, .advance 0, .advance 1, .advance 0, .advance 1,
    .advance 0, .advance 1, .advance 0, .advance 1]

theorem agree_overtaking : ∃ desk, follow? step? overtaking (start 0 readsAndWrite) = some desk ∧
    desk.Agrees ∧ desk.Settled 0 readsAndWrite ∧
    ∃ ledger, (Ledger.create 0).replay (readsAndWrite.reverse.map Ledger.Event.record) =
        (ledger, true) ∧ desk.ledger.SameTotals ledger := by
  obtain ⟨desk, hfollow, hreturned⟩ : ∃ desk,
      follow? step? overtaking (start 0 readsAndWrite) = some desk ∧
        ∀ recording ∈ desk.recordings, recording.stage = .returned := ⟨_, rfl, by decide⟩
  obtain ⟨hagrees, hsettled, -, hsame⟩ := agree_of_follow hfollow
  refine ⟨desk, hfollow, hagrees, hsettled ?_, hsame rfl hreturned _ (List.reverse_perm _)⟩
  intro recording hmem
  rw [Recording.isOver, hreturned recording hmem]

/-! ## A recording without a break -/

/-- The tickets of a batch, one after another. -/
theorem follow_tickets (unpublished : Option (List (String × SeriesPoint))) (ledger : Ledger)
    (drawn measured undrawn : List Sample) :
    ∃ moves, follow? step? moves ⟨ledger, [⟨drawn, measured, .drawing undrawn⟩], unpublished⟩ =
      some ⟨(ledger.tickets undrawn).1,
        [⟨drawn ++ undrawn, measured ++ (ledger.tickets undrawn).2, .drawing []⟩],
        unpublished⟩ := by
  induction undrawn generalizing ledger drawn measured with
  | nil =>
    refine ⟨[], ?_⟩
    simp [Ledger.tickets]
  | cons sample rest ih =>
    obtain ⟨moves, hmoves⟩ := ih ledger.ticket.1 (drawn ++ [sample])
      (if ledger.ticket.2 then measured ++ [sample] else measured)
    refine ⟨.advance 0 :: moves, ?_⟩
    rw [follow?_cons]
    refine hmoves.trans ?_
    cases hticket : ledger.ticket.2 with
    | true => simp [Ledger.tickets, hticket]
    | false => simp [Ledger.tickets, hticket]

/-- The sections of one recording without a break are `Ledger.record`. -/
theorem follow_alone (unpublished : Option (List (String × SeriesPoint))) (ledger : Ledger)
    (batch : Measurements) :
    ∃ moves recording, follow? step? moves ⟨ledger, [Recording.start batch], unpublished⟩ =
        some ⟨(ledger.record batch).1, [recording], unpublished⟩ ∧
      recording.stage = if (ledger.record batch).2 then .returned else .overflowed := by
  obtain ⟨moves, hmoves⟩ := follow_tickets unpublished ledger [] [] batch.samples
  rw [List.nil_append, List.nil_append] at hmoves
  obtain ⟨next, kept, htickets⟩ : ∃ next kept, ledger.tickets batch.samples = (next, kept) :=
    ⟨_, _, rfl⟩
  rw [htickets] at hmoves
  cases kept with
  | nil =>
    -- A batch of which nothing is measured changes no view, and has no bytes.
    have hrecord : ledger.record batch = (next, true) := by
      simp [Ledger.record, htickets, Traffic.ofSamples?, Ledger.countLabels, Ledger.countQueries,
        Ledger.countSeconds, Ledger.addSent, Ledger.addReceived, UInt64.size]
    refine ⟨moves ++ [.advance 0], ⟨batch.samples, [], .returned⟩, ?_, by rw [hrecord]; rfl⟩
    rw [follow?_append, hrecord]
    refine (congrArg (Option.bind · _) hmoves).trans ?_
    simp [follow?, step?, Recording.advance?]
  | cons first others =>
    cases htraffic : Traffic.ofSamples? (first :: others) with
    | some traffic =>
      refine ⟨moves ++ [.advance 0, .advance 0, .advance 0, .advance 0, .advance 0, .advance 0],
        ⟨batch.samples, first :: others, .returned⟩, ?_, ?_⟩
      · rw [follow?_append]
        refine (congrArg (Option.bind · _) hmoves).trans ?_
        simp [follow?, step?, Recording.advance?, htraffic, Ledger.record, htickets]
      · simp [htraffic, Ledger.record, htickets]
    | none =>
      refine ⟨moves ++ [.advance 0, .advance 0, .advance 0, .advance 0, .advance 0],
        ⟨batch.samples, first :: others, .overflowed⟩, ?_, ?_⟩
      · rw [follow?_append]
        refine (congrArg (Option.bind · _) hmoves).trans ?_
        simp [follow?, step?, Recording.advance?, htraffic, Ledger.record, htickets]
      · simp [htraffic, Ledger.record, htickets]

end Desk

end LoadBench
