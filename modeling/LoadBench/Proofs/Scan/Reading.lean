/-
  LoadBench.Proofs.Scan.Reading

  What a scan has read, and how high its outstanding batches have risen.

  Most functions of a scan only choose its next phase (`Scan.Moved`).  So the
  peak is, after each reply, the larger one of the peak before and what is
  outstanding now (`peak_resume`).

  `Scan.Reading` is the invariant of the reading: a scan never reads beyond its
  limit, and a scan that is neither stopped nor sent back to the start of its
  input has had an answer for each item, until the limit is reached or the input
  has ended.
-/

import LoadBench.Proofs.Scan.Sound

namespace LoadBench

variable {α : Type}

namespace Scan

/-! ## Functions that choose a phase -/

/-- Whether a scan differs from another in its phase at most. -/
def Moved (scan moved : Scan α) : Prop := ∃ phase, moved = { scan with phase }

theorem moved_goTo (scan : Scan α) (phase : Phase α) : Moved scan { scan with phase } :=
  ⟨phase, rfl⟩

theorem moved_drain (scan : Scan α) : Moved scan scan.drain := by
  unfold drain
  split <;> exact moved_goTo scan _

theorem moved_flushFrom (scan : Scan α) (queue : Nat) : Moved scan (scan.flushFrom queue) := by
  unfold flushFrom
  split
  · exact moved_goTo scan _
  · exact moved_drain scan

theorem moved_readMore (scan : Scan α) : Moved scan scan.readMore := by
  unfold readMore
  split
  · exact moved_flushFrom scan 0
  · exact moved_goTo scan _

theorem moved_proceed (scan : Scan α) : Moved scan scan.proceed := by
  unfold proceed
  split
  · exact moved_readMore scan
  · exact moved_goTo scan _

theorem moved_handedOver (scan : Scan α) (queue : Nat) (ending : Bool) :
    Moved scan (scan.handedOver queue ending) := by
  unfold handedOver
  split
  · exact moved_flushFrom scan _
  · exact moved_proceed scan

theorem moved_passEnded (scan : Scan α) : Moved scan scan.passEnded := by
  unfold passEnded
  split
  · exact moved_goTo scan _
  · exact moved_flushFrom scan 0

/-! ## The peak -/

/-- Whether the peak of a scan is the larger one of a peak and what is outstanding now. -/
def PeakFrom (peak : Nat) (scan : Scan α) : Prop := scan.peak = Nat.max peak scan.outstanding

variable {scan : Scan α} {peak : Nat}

theorem PeakFrom.of_le (hpeak : scan.peak = peak) (hle : scan.outstanding ≤ peak) :
    PeakFrom peak scan :=
  hpeak.trans (Nat.max_eq_left hle).symm

theorem PeakFrom.moved {moved : Scan α} (h : PeakFrom peak scan) (hmoved : Moved scan moved) :
    PeakFrom peak moved := by
  obtain ⟨phase, rfl⟩ := hmoved
  exact h

theorem PeakFrom.charge (hpeak : scan.peak = peak) (queue : Nat) (batch : Batch α)
    (ending : Bool) : PeakFrom peak (scan.charge queue batch ending) := by
  unfold Scan.charge
  dsimp only
  subst hpeak
  split
  · rfl
  · exact PeakFrom.moved (by rfl) (moved_handedOver _ _ _)

theorem PeakFrom.handOver (hpeak : scan.peak = peak) (hle : scan.outstanding ≤ peak) (queue : Nat)
    (batch : Batch α) (ending : Bool) : PeakFrom peak (scan.handOver queue batch ending) := by
  unfold Scan.handOver
  split
  · exact PeakFrom.of_le hpeak hle
  · exact PeakFrom.charge hpeak queue batch ending

theorem PeakFrom.settle (hpeak : scan.peak = peak) (hle : scan.outstanding ≤ peak)
    (purpose : Purpose α) : PeakFrom peak (scan.settle purpose) := by
  cases purpose with
  | reading => exact PeakFrom.of_le hpeak hle
  | room queue batch ending => exact PeakFrom.charge hpeak queue batch ending
  | drain => exact (PeakFrom.of_le hpeak hle).moved (moved_drain scan)

theorem PeakFrom.acknowledge (hpeak : scan.peak = peak) (hle : scan.outstanding ≤ peak)
    (queue : Nat) (purpose : Purpose α) : PeakFrom peak (scan.acknowledge queue purpose) := by
  have hless : scan.outstanding - 1 ≤ peak := Nat.le_trans (Nat.sub_le _ _) hle
  unfold Scan.acknowledge
  split
  · exact PeakFrom.of_le hpeak hle
  · dsimp only
    split
    · exact PeakFrom.settle (by exact hpeak) (by exact hless) purpose
    · exact PeakFrom.of_le hpeak hless

theorem PeakFrom.push (hpeak : scan.peak = peak) (hle : scan.outstanding ≤ peak) (item : α) :
    PeakFrom peak (scan.push item) := by
  unfold Scan.push
  dsimp only
  split
  · exact PeakFrom.of_le hpeak hle
  · split
    · exact PeakFrom.of_le hpeak hle
    · exact PeakFrom.moved (by exact PeakFrom.of_le hpeak hle) (moved_proceed _)

/-- The peak keeps up with what is outstanding. -/
theorem peak_resume (hle : scan.outstanding ≤ scan.peak) (reply : Reply α) :
    (scan.resume reply).peak = Nat.max scan.peak (scan.resume reply).outstanding := by
  have hkept : PeakFrom scan.peak scan := PeakFrom.of_le rfl hle
  show PeakFrom scan.peak (scan.resume reply)
  -- Batches become outstanding in `charge` only, and that raises the peak. All other cases choose a
  -- phase or give a credit back.
  unfold resume
  split
  · dsimp only
    split
    · exact PeakFrom.moved (by exact hkept) (moved_proceed _)
    · exact hkept
  · split
    · exact hkept.moved (moved_flushFrom scan 0)
    · exact hkept.moved (moved_readMore scan)
  · exact PeakFrom.acknowledge rfl hle _ _
  · exact PeakFrom.settle rfl hle _
  · exact hkept
  · exact PeakFrom.settle (by rfl) (by exact hle) _
  · exact PeakFrom.settle (by rfl) (by exact hle) _
  · exact hkept
  · exact PeakFrom.push rfl hle _
  · exact hkept.moved (moved_passEnded scan)
  · exact PeakFrom.moved (by exact hkept) (moved_flushFrom _ 0)
  · exact PeakFrom.handOver (by rfl) (by exact hle) _ _ _
  · exact PeakFrom.moved (by exact hkept) (moved_handedOver _ _ _)
  · exact PeakFrom.moved (by exact hkept) (moved_handedOver _ _ _)
  · exact hkept
  · exact PeakFrom.moved (by exact hkept) (moved_proceed _)
  · exact hkept.moved (moved_flushFrom scan 0)
  · exact PeakFrom.moved (by exact hkept) (moved_flushFrom _ 0)
  · exact hkept

end Scan

/-! ## The reading -/

/-- What a turn gave as an item is what it was answered. -/
theorem Turn.item?_eq (turn : Turn α) : turn.item? = turn.answer?.join := by
  unfold Turn.item? Turn.answer?
  split
  · rfl
  · next hitem =>
    split
    · next answer =>
      cases answer with
      | some item => exact absurd rfl (hitem item)
      | none => rfl
    · rfl

/-- Whether a scan is about to fetch an item, at the latest behind an acknowledgment. -/
def Phase.fetches : Phase α → Bool
  | .fetching | .awaiting .reading | .resending _ _ .reading => true
  | _ => false

/-- Whether a scan in a phase has come to the end of its input, or to its limit. -/
def Phase.hasRead : Phase α → Bool
  | .rewinding => true
  | phase => phase.hand.ending

/-- Whether every answer so far was an item. -/
def Answered (log : List (Turn α)) : Prop := answersOf log = (itemsOf log).map some

/-- Whether a reply ends the reading early or starts it anew. -/
def Reply.disturbs : Reply α → Bool
  | .stop now => now
  | .rewound again => again
  | .unreadable _ => true
  | _ => false

/-- Whether the reading was neither ended early nor started anew. -/
def Undisturbed (log : List (Turn α)) : Prop := ∀ turn ∈ log, turn.reply.disturbs = false

theorem undisturbed_append {log : List (Turn α)} {turn : Turn α} :
    Undisturbed (log ++ [turn]) ↔ Undisturbed log ∧ turn.reply.disturbs = false := by
  simp [Undisturbed, or_imp, forall_and]

namespace Scan

/-- Why a scan has ended the reading, unless it was disturbed: its limit is reached, or the last
answer was that there is no item. -/
def Exhausted (scan : Scan α) (log : List (Turn α)) : Prop :=
  (0 < scan.plan.limit ∧ scan.itemsRead = scan.plan.limit ∧ Answered log) ∨
    answersOf log = (itemsOf log).map some ++ [none]

/-- What holds of the reading, wherever the scan stands; whether it has come to an end is given. -/
structure Read (scan : Scan α) (ended : Bool) (log : List (Turn α)) : Prop where
  within : 0 < scan.plan.limit → scan.itemsRead ≤ scan.plan.limit
  answered : Undisturbed log → ended = false → Answered log
  exhausted : Undisturbed log → ended = true → scan.Exhausted log
  faultless : Undisturbed log → scan.readFault = none
  /-- Of an input that is read once, only a fault can disturb the reading. -/
  calm : scan.plan.mode = .once → scan.readFault = none → Undisturbed log

/-- The invariant of the reading. -/
structure Reading (scan : Scan α) (log : List (Turn α)) : Prop where
  read : scan.Read scan.phase.hasRead log
  below : scan.phase.fetches = true → 0 < scan.plan.limit → scan.itemsRead < scan.plan.limit
  once : scan.plan.mode = .once → scan.phase ≠ .checking ∧ scan.phase ≠ .rewinding

variable {scan : Scan α} {log : List (Turn α)}

/-- The reading goes on when the input ends for a reason. -/
theorem Read.ended (h : scan.Read false log)
    (hexhausted : Undisturbed log → scan.Exhausted log) : scan.Read true log where
  __ := h
  answered := fun _ hcontra => nomatch hcontra
  exhausted := fun hcalm _ => hexhausted hcalm

/-- A turn that answers for no item changes nothing about what has been read. -/
theorem Read.turn {ended : Bool} (h : scan.Read ended log) (turn : Turn α)
    (hturn : turn.answer? = none)
    (hcalm : scan.plan.mode = .once → turn.reply.disturbs = false) :
    scan.Read ended (log ++ [turn]) := by
  have hanswers : answersOf (log ++ [turn]) = answersOf log := answersOf_append_of_none log hturn
  have hitems : itemsOf (log ++ [turn]) = itemsOf log :=
    itemsOf_append_of_none log (by rw [Turn.item?_eq, hturn]; rfl)
  refine ⟨h.within, ?_, ?_, fun hall => h.faultless (undisturbed_append.mp hall).1,
    fun honce hfault => undisturbed_append.mpr ⟨h.calm honce hfault, hcalm honce⟩⟩
  · rw [Answered, hanswers, hitems]
    exact fun hall => h.answered (undisturbed_append.mp hall).1
  · rw [Exhausted, Answered, hanswers, hitems]
    exact fun hall => h.exhausted (undisturbed_append.mp hall).1

/-- What holds of the reading concerns only what the scan reads, and why it has stopped. -/
theorem Read.same {ended : Bool} (h : scan.Read ended log) {other : Scan α}
    (hplan : other.plan = scan.plan) (hitems : other.itemsRead = scan.itemsRead)
    (hfault : other.readFault = scan.readFault) : other.Read ended log := by
  refine ⟨?_, h.answered, ?_, ?_, ?_⟩
  · rw [hplan, hitems]
    exact h.within
  · rw [Exhausted, hplan, hitems]
    exact h.exhausted
  · rw [hfault]
    exact h.faultless
  · rw [hplan, hfault]
    exact h.calm

/-- A reading that has been disturbed may go on or end. -/
theorem Read.disturbed {ended : Bool} (h : scan.Read ended log) (hlog : ¬Undisturbed log)
    (other : Bool) : scan.Read other log where
  __ := h
  answered := fun hcalm => absurd hcalm hlog
  exhausted := fun hcalm => absurd hcalm hlog

/-- The reading has ended with a fault. -/
theorem Read.faulted {ended : Bool} (h : scan.Read ended log) {turn : Turn α}
    (hturn : turn.reply.disturbs = true) (fault : Fault) :
    Read { scan with readFault := some fault } true (log ++ [turn]) := by
  have hlog : ¬Undisturbed (log ++ [turn]) := by
    intro hcalm
    have hquiet := (undisturbed_append.mp hcalm).2
    rw [hturn] at hquiet
    cases hquiet
  exact
    { within := h.within
      answered := fun hcalm => absurd hcalm hlog
      exhausted := fun hcalm => absurd hcalm hlog
      faultless := fun hcalm => absurd hcalm hlog
      calm := fun _ hcontra => nomatch hcontra }

/-- A scan that has ended the reading only delivers what it has. -/
theorem reading_of_ending (h : scan.Read true log) {phase : Phase α}
    (hending : phase.hand.ending = true) : Reading { scan with phase } log := by
  have hne : phase ≠ .checking ∧ phase ≠ .rewinding := by
    constructor
    · rintro rfl
      cases hending
    · rintro rfl
      cases hending
  have hended : phase.hasRead = true := by
    unfold Phase.hasRead
    split
    · rfl
    · exact hending
  refine ⟨?_, ?_, fun _ => hne⟩
  · show Read { scan with phase } phase.hasRead log
    rw [hended]
    exact h.same rfl rfl rfl
  · intro hfetches
    exfalso
    -- No phase that delivers what is left fetches an item.
    match phase with
    | .fetching => cases hending
    | .awaiting .reading => cases hending
    | .resending _ _ .reading => cases hending

theorem reading_drain (h : scan.Read true log) : Reading scan.drain log := by
  unfold drain
  split
  · exact reading_of_ending h rfl
  · exact reading_of_ending h rfl

theorem reading_flushFrom (h : scan.Read true log) (queue : Nat) :
    Reading (scan.flushFrom queue) log := by
  unfold flushFrom
  split
  · exact reading_of_ending h rfl
  · exact reading_drain h

theorem reading_readMore (h : scan.Read false log) : Reading scan.readMore log := by
  unfold readMore
  split
  · next hlimit =>
    -- The limit is reached, and every answer so far was an item.
    refine reading_flushFrom (h.ended fun hcalm => ?_) 0
    exact Or.inl ⟨hlimit.1, hlimit.2, h.answered hcalm rfl⟩
  · next hmore =>
    refine ⟨h.same rfl rfl rfl, fun _ hpos => ?_, fun _ => ⟨nofun, nofun⟩⟩
    have hne : scan.itemsRead ≠ scan.plan.limit := fun heq => hmore ⟨hpos, heq⟩
    exact Nat.lt_of_le_of_ne (h.within hpos) hne

theorem reading_proceed (h : scan.Read false log) : Reading scan.proceed log := by
  unfold proceed
  split
  · exact reading_readMore h
  · next hmode =>
    refine ⟨h.same rfl rfl rfl, nofun, fun honce => ?_⟩
    rw [hmode] at honce
    cases honce

theorem reading_handedOver {ending : Bool} (h : scan.Read ending log) (queue : Nat) :
    Reading (scan.handedOver queue ending) log := by
  unfold handedOver
  cases ending with
  | true => exact reading_flushFrom h _
  | false => exact reading_proceed h

theorem reading_charge {ending : Bool} (h : scan.Read ending log) (queue : Nat) (batch : Batch α) :
    Reading (scan.charge queue batch ending) log := by
  unfold charge
  dsimp only
  split
  · exact ⟨h.same rfl rfl rfl, nofun, fun _ => ⟨nofun, nofun⟩⟩
  · refine reading_handedOver ?_ queue
    exact h.same rfl rfl rfl

theorem reading_handOver {ending : Bool} (h : scan.Read ending log) (queue : Nat)
    (batch : Batch α) : Reading (scan.handOver queue batch ending) log := by
  unfold handOver
  split
  · exact ⟨h.same rfl rfl rfl, nofun, fun _ => ⟨nofun, nofun⟩⟩
  · exact reading_charge h queue batch

theorem reading_settle {purpose : Purpose α} (h : scan.Read purpose.hand.ending log)
    (hbelow : purpose = .reading → 0 < scan.plan.limit → scan.itemsRead < scan.plan.limit) :
    Reading (scan.settle purpose) log := by
  cases purpose with
  | reading => exact ⟨h.same rfl rfl rfl, fun _ => hbelow rfl, fun _ => ⟨nofun, nofun⟩⟩
  | room queue batch ending => exact reading_charge h queue batch
  | drain => exact reading_drain h

/-- Whether a scan has returned a fault that is not one of its input. -/
def HasFailed (scan : Scan α) : Prop :=
  ∃ fault, scan.phase = .returned (.error fault) ∧ ∀ cause, fault ≠ .unreadable cause

/-- A sound scan returns no other faults. -/
theorem Sound.not_hasFailed {plan : ScanPlan} {routing : Routing α}
    (h : Sound plan routing scan log) : ¬scan.HasFailed := by
  rintro ⟨fault, hphase, hcause⟩
  have hstands := h.stands
  rw [hphase] at hstands
  obtain ⟨-, -, hverdict⟩ := hstands
  unfold verdict at hverdict
  split at hverdict
  · exact hcause _ (Except.error.inj hverdict)
  · cases hverdict

theorem reading_acknowledge {purpose : Purpose α} (h : scan.Read purpose.hand.ending log)
    (hbelow : purpose = .reading → 0 < scan.plan.limit → scan.itemsRead < scan.plan.limit)
    (queue : Nat) :
    Reading (scan.acknowledge queue purpose) log ∨ HasFailed (scan.acknowledge queue purpose) := by
  have hcredited : Read { scan with outstanding := scan.outstanding - 1 } purpose.hand.ending log :=
    h.same rfl rfl rfl
  unfold acknowledge
  split
  · exact Or.inr ⟨_, rfl, nofun⟩
  · left
    dsimp only
    split
    · exact reading_settle hcredited hbelow
    · refine ⟨h.same rfl rfl rfl, ?_, fun _ => ⟨nofun, nofun⟩⟩
      cases purpose with
      | reading => exact fun _ => hbelow rfl
      | room => exact nofun
      | drain => exact nofun

theorem reading_push (h : scan.Read false log)
    (hbelow : 0 < scan.plan.limit → scan.itemsRead < scan.plan.limit) (item : α) :
    Reading (scan.push item) (log ++ [⟨.item, .item (some item)⟩]) ∨
      HasFailed (scan.push item) := by
  have hread : Read { scan with itemsRead := scan.itemsRead + 1 } false
      (log ++ [⟨.item, .item (some item)⟩]) := by
    refine ⟨fun hpos => hbelow hpos, fun hcalm _ => ?_, fun _ hcontra => (nomatch hcontra),
      fun hcalm => h.faultless (undisturbed_append.mp hcalm).1,
      fun honce hfault => undisturbed_append.mpr ⟨h.calm honce hfault, rfl⟩⟩
    rw [Answered, answersOf_append, itemsOf_append,
      h.answered (undisturbed_append.mp hcalm).1 rfl, List.map_append]
    rfl
  unfold push
  dsimp only
  split
  · exact Or.inr ⟨_, rfl, nofun⟩
  · left
    split
    · exact ⟨hread.same rfl rfl rfl, nofun, fun _ => ⟨nofun, nofun⟩⟩
    · exact reading_proceed (hread.same rfl rfl rfl)

/-- Behind the last item the scan ends the reading, or asks for the input from its start. -/
theorem reading_passEnded (h : scan.Read false log) :
    Reading scan.passEnded (log ++ [⟨.item, .item none⟩]) := by
  have hitems : itemsOf (log ++ [⟨.item, .item none⟩]) = itemsOf log :=
    itemsOf_append_of_none log rfl
  have hread : scan.Read true (log ++ [⟨.item, .item none⟩]) := by
    refine ⟨h.within, fun _ hcontra => (nomatch hcontra), fun hcalm _ => ?_,
      fun hcalm => h.faultless (undisturbed_append.mp hcalm).1,
      fun honce hfault => undisturbed_append.mpr ⟨h.calm honce hfault, rfl⟩⟩
    right
    rw [answersOf_append, hitems, h.answered (undisturbed_append.mp hcalm).1 rfl]
    rfl
  unfold passEnded
  split
  · next hagain =>
    have htimed : scan.plan.mode ≠ .once := by
      intro honce
      have hrepeated := hagain.1
      rw [ScanPlan.isRepeated, honce] at hrepeated
      cases hrepeated
    exact ⟨hread.same rfl rfl rfl, nofun, fun honce => absurd honce htimed⟩
  · exact reading_flushFrom hread 0

/-- The invariant of the reading goes on with every reply, unless the scan returns a fault. -/
theorem reading_resume (h : Reading scan log) {request : Request α} {reply : Reply α}
    (hrequest : scan.request? = some request) (hadmits : request.admits queues reply = true) :
    Reading (scan.resume reply) (log ++ [⟨request, reply⟩]) ∨ HasFailed (scan.resume reply) := by
  have hresumed := resumed_of_admits hrequest hadmits
  obtain ⟨hread, hbelow, honce⟩ := h
  generalize scan.resume reply = next at hresumed ⊢
  cases hresumed with
  | @opened batch hphase hempty =>
    rw [hphase] at hread
    have hturn := hread.turn ⟨.emptyBatch, .emptyBatch batch⟩ rfl fun _ => rfl
    left
    split
    · exact reading_proceed (by exact hturn.same rfl rfl rfl)
    · refine ⟨hturn.same rfl rfl rfl, ?_, fun _ => ⟨?_, ?_⟩⟩
      all_goals
        intro hcontra
        cases hcontra
  | @checked now hphase =>
    -- Only a scan that can be stopped asks whether to stop.
    have htimed : scan.plan.mode ≠ .once := fun hmode => (honce hmode).1 hphase
    rw [hphase] at hread
    have hturn := hread.turn ⟨.stop, .stop now⟩ rfl fun hmode => absurd hmode htimed
    left
    split
    · next hnow =>
      -- A stop is a disturbance, so there is nothing to be shown about the answers.
      refine reading_flushFrom (hturn.ended fun hcalm => ?_) 0
      have hgoing : now = false := (undisturbed_append.mp hcalm).2
      rw [hnow] at hgoing
      cases hgoing
    · exact reading_readMore hturn
  | @acknowledged wait queue purpose hphase hqueue =>
    rw [hphase] at hread hbelow
    refine reading_acknowledge (hread.turn ⟨_, .acknowledged queue⟩ rfl fun _ => rfl) ?_ queue
    rintro rfl
    exact hbelow rfl
  | unacknowledged hphase =>
    rw [hphase] at hread hbelow
    have hturn := hread.turn ⟨.acknowledgment false, .unacknowledged⟩ rfl fun _ => rfl
    exact Or.inl (reading_settle hturn fun _ => hbelow rfl)
  | deserted hphase =>
    refine Or.inr ⟨_, rfl, fun cause hcontra => ?_⟩
    cases hcontra
  | @resent queue batch purpose hphase =>
    rw [hphase] at hread hbelow
    have hturn := hread.turn ⟨.send queue batch, .offered .accepted⟩ rfl fun _ => rfl
    have hkept : Read scan purpose.hand.ending
        (log ++ [⟨.send queue batch, .offered .accepted⟩]) := by cases purpose <;> exact hturn
    refine Or.inl (reading_settle (by exact hkept.same rfl rfl rfl) ?_)
    rintro rfl
    exact hbelow rfl
  | @putBack queue batch purpose hphase =>
    rw [hphase] at hread hbelow
    have hturn := hread.turn ⟨.send queue batch, .offered .full⟩ rfl fun _ => rfl
    have hkept : Read scan purpose.hand.ending
        (log ++ [⟨.send queue batch, .offered .full⟩]) := by cases purpose <;> exact hturn
    refine Or.inl (reading_settle (by exact hkept.same rfl rfl rfl) ?_)
    rintro rfl
    exact hbelow rfl
  | item hphase =>
    rw [hphase] at hread hbelow
    exact reading_push hread (hbelow rfl) _
  | ended hphase =>
    rw [hphase] at hread
    exact Or.inl (reading_passEnded hread)
  | @drawn queue batch ending hphase hempty =>
    rw [hphase] at hread
    have hturn := hread.turn ⟨.emptyBatch, .emptyBatch batch⟩ rfl fun _ => rfl
    exact Or.inl (reading_handOver (by exact hturn.same rfl rfl rfl) _ _)
  | @sent queue batch ending hphase =>
    rw [hphase] at hread
    have hturn := hread.turn ⟨.send queue batch, .offered .accepted⟩ rfl fun _ => rfl
    exact Or.inl (reading_handedOver (by exact hturn.same rfl rfl rfl) queue)
  | @linedUp queue batch ending hphase =>
    rw [hphase] at hread
    have hturn := hread.turn ⟨.send queue batch, .offered .full⟩ rfl fun _ => rfl
    exact Or.inl (reading_handedOver (by exact hturn.same rfl rfl rfl) queue)
  | refused hphase =>
    refine Or.inr ⟨_, rfl, fun cause hcontra => ?_⟩
    cases hcontra
  | rewound hphase =>
    have htimed : scan.plan.mode ≠ .once := fun hmode => (honce hmode).2 hphase
    rw [hphase] at hread
    have hturn := hread.turn ⟨.rewind, .rewound true⟩ rfl fun hmode => absurd hmode htimed
    -- The answers begin anew, so they are not those of one pass any more.
    have hdisturbed : ¬Undisturbed (log ++ [⟨.rewind, .rewound true⟩]) := by
      intro hcalm
      cases (undisturbed_append.mp hcalm).2
    have hanew := hturn.disturbed hdisturbed false
    exact Or.inl (reading_proceed (by exact hanew.same rfl rfl rfl))
  | unrewound hphase =>
    have htimed : scan.plan.mode ≠ .once := fun hmode => (honce hmode).2 hphase
    rw [hphase] at hread
    have hturn := hread.turn ⟨.rewind, .rewound false⟩ rfl fun hmode => absurd hmode htimed
    exact Or.inl (reading_flushFrom hturn 0)
  | @unreadable request fault hphase =>
    have hfaulted := @Read.faulted _ _ _ _ hread ⟨request, .unreadable fault⟩ rfl fault
    exact Or.inl (reading_flushFrom (hfaulted.same rfl rfl rfl) 0)

theorem reading_start (plan : ScanPlan) (routing : Routing α) :
    Reading (start plan routing) [] ∨ HasFailed (start plan routing) := by
  by_cases hsize : plan.batchSize < 1
  · refine Or.inr ⟨.emptyBatches, by simp [start, hsize], fun cause hcontra => ?_⟩
    cases hcontra
  by_cases hqueues : plan.queues = 0
  · refine Or.inr ⟨.noQueues, by simp [start, hsize, hqueues], fun cause hcontra => ?_⟩
    cases hcontra
  have hphase : (start plan routing).phase = .opening := by simp [start, hsize, hqueues]
  left
  refine ⟨?_, ?_, fun _ => ?_⟩
  · rw [hphase]
    refine ⟨fun _ => Nat.zero_le _, fun _ _ => rfl, fun _ hcontra => ?_, fun _ => rfl,
      fun _ _ => List.forall_mem_nil _⟩
    cases hcontra
  · rw [hphase]
    intro hfetches
    cases hfetches
  · rw [hphase]
    constructor <;> intro hcontra <;> cases hcontra

/-! ## What has been read at the end -/

/-- A scan that has read an input undisturbed, and ended well, has read it up to its limit. -/
theorem Read.items_eq (h : scan.Read true log) (hcalm : Undisturbed log)
    (hread : scan.itemsRead = (itemsOf log).length)
    {items : List α} (hitems : answersOf log <+: items.map some ++ [none]) :
    itemsOf log = if scan.plan.limit = 0 then items else items.take scan.plan.limit := by
  have hbound := h.within
  have hsome : ∀ {read : List α}, read.map some <+: items.map some →
      read = items.take read.length := by
    intro read hprefix
    rw [List.prefix_iff_eq_take, List.length_map, ← List.map_take] at hprefix
    exact List.map_injective_iff.mpr (Option.some_injective α) hprefix
  -- Either the limit is reached, and what was read is as long as it says, or the input has ended,
  -- and all of it was read.
  rcases h.exhausted hcalm rfl with ⟨hpos, hreached, hanswered⟩ | hended
  · rw [if_neg (by omega), ← hreached, hread]
    rw [hanswered, List.prefix_concat_iff] at hitems
    rcases hitems with hcontra | hprefix
    · have hmem : none ∈ (itemsOf log).map some := by
        rw [hcontra]
        exact List.mem_append_right _ List.mem_cons_self
      simp at hmem
    · exact hsome hprefix
  · rw [hended, List.prefix_concat_iff] at hitems
    rcases hitems with heq | hcontra
    · have hall : itemsOf log = items :=
        List.map_injective_iff.mpr (Option.some_injective α) (List.append_cancel_right heq)
      by_cases hlimit : scan.plan.limit = 0
      · rw [if_pos hlimit, hall]
      · have hle := hbound (Nat.pos_of_ne_zero hlimit)
        rw [hread, hall] at hle
        rw [if_neg hlimit, hall, List.take_of_length_le hle]
    · have hmem : none ∈ items.map some :=
        hcontra.subset (List.mem_append_right _ List.mem_cons_self)
      simp at hmem

end Scan

end LoadBench
