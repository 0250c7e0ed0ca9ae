/-
  LoadBench.Proofs.Exchange.Rewinding

  Exchanges whose scan reads its input again and again, up to a limit.  The input
  is a reel, and nobody stops the scan (`Reel.Plays`).  As long as every queue has a
  worker, such an exchange comes to an end, also if the input can be read again
  for ever: what is done is bounded, there is always something that can be done,
  and in the end the scan has read the reel up to its last pass or to the limit
  (`rewinding_of_plays`).
-/

import LoadBench.Proofs.Exchange.Closing
import LoadBench.Proofs.Scan.Rewinding

namespace LoadBench

variable {α : Type}

/-- Whether a scan reads its input again until a limit is reached, and there is room for batches and
a queue for each item. -/
structure ScanPlan.Repeats (plan : ScanPlan) (routing : Routing α) : Prop where
  timed : ∃ hasDeadline, plan.mode = .timed hasDeadline
  limit_pos : 0 < plan.limit
  batchSize_pos : 0 < plan.batchSize
  queues_pos : 0 < plan.queues
  slots_pos : 0 < plan.slots
  inRange : ∀ position item, routing position item < plan.queues

/-- What a scan has before it only goes up by an item or a new start of its input. -/
theorem Scan.weight_turn {scan : Scan α} {plan : ScanPlan} {routing : Routing α}
    {log : List (Turn α)} (h : Sound plan routing scan log) {turn : Turn α}
    (hrequest : scan.request? = some turn.request)
    (hadmits : turn.request.admits plan.queues turn.reply = true) :
    (scan.resume turn.reply).weight + 1 ≤
      scan.weight + 9 * turn.item?.toList.length + 4 * if turn.isRewind then 1 else 0 := by
  obtain ⟨request, reply⟩ := turn
  by_cases hanew : reply = .rewound true
  · subst hanew
    have hresumed := resumed_of_admits hrequest hadmits
    generalize scan.resume (.rewound true) = next at hresumed ⊢
    cases hresumed with
    | rewound hphase => exact weight_passStarted hphase
  · have hopening : scan.phase = .opening → scan.filling.length < scan.plan.queues := by
      intro hphase
      have hstands := h.stands
      rw [hphase] at hstands
      exact hstands
    have hless := weight_resume hopening hrequest hadmits hanew
    have hitems : reply.items = (Turn.mk request reply).item?.toList.length := by
      cases reply with
      | item answer =>
        cases request with
        | item => cases answer <;> rfl
        | _ => cases hadmits
      | _ => cases request <;> rfl
    rw [hitems] at hless
    exact Nat.le_trans hless (Nat.le_add_right _ _)

namespace Exchange

variable {plan : ScanPlan} {routing : Routing α} {reel : Reel α} {exchange next : Exchange α}

/-! ## The invariant -/

/-- The invariant of an exchange whose input is a reel. -/
structure Rolled (plan : ScanPlan) (routing : Routing α) (reel : Reel α) (exchange : Exchange α) :
    Prop where
  kept : exchange.Kept plan routing
  sound : Scan.Sound plan routing exchange.scan exchange.log
  rolls : reel.Rolls plan.limit exchange.scan.bookmark exchange.log
  due : ∀ before turn, before ++ [turn] <+: exchange.log → reel.Due plan.limit before turn
  light : exchange.log.length + exchange.scan.weight ≤
    17 * plan.queues + 20 + 9 * (itemsOf exchange.log).length + 4 * rewindsOf exchange.log

theorem rolled_start (h : plan.Repeats routing) (reel : Reel α)
    {channels : List (Channel (Batch α))} (hwidth : channels.length = plan.queues)
    (hfresh : ∀ channel ∈ channels, channel.Fresh plan.slots) :
    (start plan routing channels).Rolled plan routing reel := by
  have hphase := Scan.phase_start h.batchSize_pos h.queues_pos routing
  exact
    { kept := kept_start routing hwidth hfresh
      sound := by
        refine (Scan.sound_start plan routing).resolve_right fun hbroken => ?_
        obtain ⟨fault, hreturned, -⟩ := hbroken.fault
        rw [hphase] at hreturned
        cases hreturned
      rolls := by
        show reel.Rolls plan.limit (Scan.start plan routing).bookmark []
        rw [Scan.bookmark_start h.batchSize_pos h.queues_pos]
        exact Reel.rolls_start reel plan.limit
      due := by
        intro before turn hmore
        exact absurd (List.prefix_nil.mp hmore) (List.append_ne_nil_of_right_ne_nil _ nofun)
      light := by
        show 0 + (Scan.start plan routing).weight ≤ 17 * plan.queues + 20 + 9 * 0 + 4 * 0
        rw [Scan.weight_eq hphase]
        show 0 + (3 * 0 + (17 * plan.queues + 20 - 0)) ≤ _
        omega }

/-- A step keeps the invariant, as long as each queue has a worker and the input is the reel. -/
theorem rolled_step (hrepeats : plan.Repeats routing) (h : exchange.Rolled plan routing reel)
    (hheld : exchange.IsHeld) (hplays : reel.Plays next.log) (hstep : Step exchange next) :
    next.Rolled plan routing reel := by
  have hkept := kept_step h.kept hstep
  rcases turned_of_step h.kept hstep with ⟨turn, hturned⟩ | ⟨hscan, hlog⟩
  · obtain ⟨hasDeadline, hmode⟩ := hrepeats.timed
    have hplan := h.sound.accounts.plan_eq
    have hwhole := not_breaksOff h.kept hheld hstep hturned fun item _ => by
      rw [h.sound.accounts.routing_eq, hplan]
      exact hrepeats.inRange _ _
    have hsound := (Scan.sound_resume h.sound hturned.request hturned.admits
      hturned.expected).resolve_right fun hbroken => hwhole hbroken.2
    have hreading := (h.kept.unfailed fun _ =>
      Scan.phase_ne_of_request? hturned.request _).2
    have hasks := Scan.asks_of_request hreading (hplan ▸ hrepeats.limit_pos) hturned.request
    have hgoes := (Scan.bookmark_resume (by rw [hplan]; exact hmode)
      (hplan ▸ hrepeats.limit_pos) hturned.request hturned.admits).resolve_right
        hsound.not_hasFailed
    rw [hplan] at hasks hgoes
    rw [hturned.log_eq] at hplays
    obtain ⟨-, hgives⟩ := Reel.plays_append.mp hplays
    have hweight := Scan.weight_turn h.sound hturned.request hturned.admits
    have hlight := h.light
    refine ⟨hkept, ?_, ?_, ?_, ?_⟩
    · rw [hturned.scan_eq, hturned.log_eq]
      exact hsound
    · rw [hturned.scan_eq, hturned.log_eq, hgoes]
      exact Reel.rolls_turn h.rolls hrepeats.limit_pos hasks hgives
    · rw [hturned.log_eq]
      refine forall_prefix_concat.mpr ⟨h.due, fun hrewind => ?_⟩
      rw [hrewind] at hasks
      exact h.rolls.due hasks
    · rw [hturned.scan_eq, hturned.log_eq, itemsOf_append, rewindsOf_append, List.length_append,
        List.length_append, List.length_singleton]
      omega
  · refine ⟨hkept, ?_, ?_, ?_, ?_⟩ <;> rw [hlog]
    · rw [hscan]
      exact h.sound
    · rw [hscan]
      exact h.rolls
    · exact h.due
    · rw [hscan]
      exact h.light

/-- The invariant holds of every exchange whose input is the reel and whose queues have workers. -/
theorem rolled_follow (hrepeats : plan.Repeats routing) {first : Exchange α}
    (h : first.Rolled plan routing reel) {acts : List (Act α)}
    (hacts : follow? step? acts first = some exchange) (hheld : exchange.IsHeld)
    (hplays : reel.Plays exchange.log) : exchange.Rolled plan routing reel := by
  -- By induction on the acts, from the last one: before it there were workers too, and the log was
  -- shorter.
  induction acts using List.reverseRecOn generalizing exchange with
  | nil =>
    obtain rfl : first = exchange := Option.some.inj hacts
    exact h
  | append_singleton acts act ih =>
    rw [follow?_concat, Option.bind_eq_some_iff] at hacts
    obtain ⟨mid, hmid, hact⟩ := hacts
    have hkept := kept_follow h.kept hmid
    have hstep := step?_sound hkept.linked.isRead hact
    have hbefore := isHeld_of_step hstep hheld
    have hplaysBefore : reel.Plays mid.log := by
      rcases turned_of_step hkept hstep with ⟨turn, hturned⟩ | ⟨-, hlog⟩
      · rw [hturned.log_eq] at hplays
        exact (Reel.plays_append.mp hplays).1
      · rw [← hlog]
        exact hplays
    exact rolled_step hrepeats (ih hmid hbefore hplaysBefore) hbefore hplays hstep

/-! ## No standstill -/

/-- As long as the input is the reel, an exchange is at no standstill until its scan has returned. -/
theorem Rolled.exists_deed (h : exchange.Rolled plan routing reel)
    (hrepeats : plan.Repeats routing) (hheld : exchange.IsHeld) (hplays : reel.Plays exchange.log)
    (hgoing : exchange.scan.result? = none) :
    ∃ act next, step? act exchange = some next ∧
      exchange.deeds plan.queues < next.deeds plan.queues ∧ next.IsHeld ∧
      reel.Plays next.log := by
  obtain ⟨request, hrequest⟩ := Scan.exists_request hgoing
  -- What the scan asks of its input is answered as the reel says; all else comes from the workers.
  have hanswer : ∀ reply, request.admits exchange.scan.plan.queues reply = true →
      reply.isOutside = true → reel.Gives (reel.spotOf exchange.log) ⟨request, reply⟩ →
      ∃ act next, step? act exchange = some next ∧
        exchange.deeds plan.queues < next.deeds plan.queues ∧ next.IsHeld ∧
        reel.Plays next.log := by
    intro reply hadmits houtside hgives
    refine ⟨.answer reply, exchange.answered request reply, ?_, deeds_answered exchange _ _ _, hheld,
      Reel.plays_append.mpr ⟨hplays, hgives⟩⟩
    simp only [step?, answer?, hrequest]
    exact if_pos ⟨hadmits, houtside⟩
  have hother : request ≠ .stop ∧ request ≠ .item ∧ request ≠ .rewind →
      ∃ act next, step? act exchange = some next ∧
        exchange.deeds plan.queues < next.deeds plan.queues ∧ next.IsHeld ∧
        reel.Plays next.log := by
    intro hinput
    obtain ⟨act, next, hact, hdeed⟩ := exists_deed_of_request h.kept hrepeats.slots_pos hheld
      hrequest hinput fun _ => hrepeats.queues_pos
    have hstep := step?_sound h.kept.linked.isRead hact
    refine ⟨act, next, hact, hdeed, isHeld_of_deed hstep hdeed hheld, ?_⟩
    rcases turned_of_step h.kept hstep with ⟨turn, hturned⟩ | ⟨-, hlog⟩
    · obtain rfl := Option.some.inj (hturned.request.symm.trans hrequest)
      rw [hturned.log_eq]
      exact Reel.plays_append.mpr ⟨hplays, Reel.gives_of_ne hinput⟩
    · rw [hlog]
      exact hplays
  cases request with
  | stop => exact hanswer (.stop false) rfl rfl rfl
  | item => exact hanswer (.item (reel.spotOf exchange.log).left.head?) rfl rfl rfl
  | rewind =>
    refine hanswer (reel.rewound (reel.spotOf exchange.log).pass) ?_ ?_ rfl <;>
      (unfold Reel.rewound; split <;> rfl)
  | emptyBatch | acknowledgment | send =>
    refine hother ⟨?_, ?_, ?_⟩ <;> (intro hcontra; cases hcontra)

/-! ## The end -/

/-- What holds at any moment of an exchange whose input is a reel with a last pass. -/
structure Rewinding (plan : ScanPlan) (reel : Reel α) (last : Nat) (exchange : Exchange α) :
    Prop where
  /-- Nothing is read beyond the last pass and the limit. -/
  read : itemsOf exchange.log <+: (reel.items (last + 1)).take plan.limit
  due : ∀ before turn, before ++ [turn] <+: exchange.log → reel.Due plan.limit before turn
  rewinds : rewindsOf exchange.log ≤ plan.limit - 1
  fetches : fetchesOf exchange.log ≤ 2 * plan.limit - 1
  /-- However the workers take turns with the scan, they can only do so much, all together. -/
  bounded : exchange.deeds plan.queues ≤ 3 * (17 * plan.queues + 20 + 13 * plan.limit)
  /-- Until the scan has returned there is always something that can be done. -/
  lively : exchange.scan.result? = none → ∃ act next, step? act exchange = some next ∧
    exchange.deeds plan.queues < next.deeds plan.queues ∧ next.IsHeld ∧ reel.Plays next.log
  settled : ∀ result, exchange.scan.result? = some result →
    itemsOf exchange.log = (reel.items (last + 1)).take plan.limit ∧
      rewindsOf exchange.log = last ∧
      match reel.fault? plan.limit last with
      | some fault => result = .error (.unreadable fault)
      | none => ∃ tally, result = .ok tally ∧ tally.rewinds = last ∧
        tally.itemsRead = (itemsOf exchange.log).length

theorem Rolled.bounded (h : exchange.Rolled plan routing reel) (hrepeats : plan.Repeats routing) :
    exchange.deeds plan.queues ≤ 3 * (17 * plan.queues + 20 + 13 * plan.limit) := by
  have hdeeds := deeds_le h.kept.linked
  have hlight := h.light
  have hread := h.rolls.tracks.read
  have hwithin := h.rolls.tracks.within
  have hrewound := h.rolls.tracks.rewound
  have hpass := Reel.lt_limit hrepeats.limit_pos h.rolls.tracks.earlier
  omega

theorem Rolled.settled (h : exchange.Rolled plan routing reel) {last : Nat}
    (hlast : reel.IsLast plan.limit last) {result : Except ScanFault ScanTally}
    (hresult : exchange.scan.result? = some result) :
    itemsOf exchange.log = (reel.items (last + 1)).take plan.limit ∧
      rewindsOf exchange.log = last ∧
      match reel.fault? plan.limit last with
      | some fault => result = .error (.unreadable fault)
      | none => ∃ tally, result = .ok tally ∧ tally.rewinds = last ∧
        tally.itemsRead = (itemsOf exchange.log).length := by
  obtain ⟨htracks, hstands⟩ := h.rolls
  rw [Reel.Stands, Scan.stage_of_result? hresult] at hstands
  obtain ⟨hfault, -, hstops, hitems⟩ := hstands
  obtain rfl : (reel.spotOf exchange.log).pass = last :=
    Reel.IsLast.unique ⟨hstops, htracks.earlier⟩ hlast
  refine ⟨hitems, htracks.rewound, ?_⟩
  -- A sound scan returns its fault, or its summary if it bears none.
  have hverdict : result = exchange.scan.verdict := by
    have hphase := h.sound.stands
    rw [Scan.phase_of_result? hresult] at hphase
    exact hphase.2.2
  rw [← hfault]
  subst hverdict
  unfold Scan.verdict
  show match exchange.scan.readFault with
    | some fault => _
    | none => _
  cases exchange.scan.readFault with
  | some fault => rfl
  | none => exact ⟨_, rfl, htracks.rewinds, htracks.read⟩

/-- An input that is read again and again is read up to the limit, or until it cannot be read any
further or gives nothing more, and no further. -/
theorem rewinding_of_plays (hrepeats : plan.Repeats routing) {channels : List (Channel (Batch α))}
    (hwidth : channels.length = plan.queues)
    (hfresh : ∀ channel ∈ channels, channel.Fresh plan.slots) (reel : Reel α) :
    ∃ last, reel.IsLast plan.limit last ∧ ∀ acts exchange,
      follow? step? acts (start plan routing channels) = some exchange → exchange.IsHeld →
      reel.Plays exchange.log → exchange.Rewinding plan reel last := by
  obtain ⟨last, hlast⟩ := Reel.exists_isLast reel hrepeats.limit_pos
  refine ⟨last, hlast, fun acts exchange hacts hheld hplays => ?_⟩
  have hstart := rolled_start hrepeats reel hwidth hfresh
  have hrolled := rolled_follow hrepeats hstart hacts hheld hplays
  have hfetches := hrolled.rolls.fetches_lt hrepeats.limit_pos
  have hpass := Reel.lt_limit hrepeats.limit_pos hrolled.rolls.tracks.earlier
  exact
    { read := hrolled.rolls.tracks.begins hlast
      due := hrolled.due
      rewinds := by
        rw [hrolled.rolls.tracks.rewound]
        exact Nat.le_sub_one_of_lt hpass
      fetches := Nat.le_sub_one_of_lt hfetches
      bounded := hrolled.bounded hrepeats
      lively := hrolled.exists_deed hrepeats hheld hplays
      settled := fun _ => hrolled.settled hlast }

/-- A pass of one item that can be read for ever is read twice if the limit says two. -/
def twoPasses : List (Act Nat) :=
  [.answer (.emptyBatch ⟨1, []⟩), .answer (.stop false), .answer .unacknowledged,
    .answer (.item (some 7)), .answer (.stop false), .answer .unacknowledged, .answer (.item none),
    .answer (.rewound true), .answer (.stop false), .answer .unacknowledged,
    .answer (.item (some 7)), .answer (.emptyBatch ⟨2, []⟩), .offer, .answer (.stop false),
    .receive 0 0, .acknowledge 0 0, .credit 0]

theorem rewinding_twoPasses : ∃ exchange tally last,
    follow? step? twoPasses (start ⟨1, 1, 2, 2, .timed false⟩ Routing.first [Channel.create 1]) =
        some exchange ∧
      exchange.scan.result? = some (.ok tally) ∧ itemsOf exchange.log = [7, 7] ∧
      rewindsOf exchange.log = 1 ∧ fetchesOf exchange.log = 3 ∧
      Rewinding ⟨1, 1, 2, 2, .timed false⟩ ⟨fun _ => [7], fun _ => .ok true⟩ last exchange := by
  have hrepeats : ScanPlan.Repeats ⟨1, 1, 2, 2, .timed false⟩ (Routing.first : Routing Nat) :=
    { timed := ⟨false, rfl⟩
      limit_pos := Nat.two_pos
      batchSize_pos := Nat.two_pos
      queues_pos := Nat.one_pos
      slots_pos := Nat.one_pos
      inRange := fun _ _ => Nat.one_pos }
  obtain ⟨last, -, hrewinding⟩ := rewinding_of_plays hrepeats rfl
    (List.forall_mem_singleton.mpr (Channel.fresh_create Nat.one_pos))
    ⟨fun _ => [7], fun _ => .ok true⟩
  refine ⟨_, _, last, rfl, rfl, rfl, rfl, rfl, hrewinding twoPasses _ rfl
    (List.forall_mem_singleton.mpr rfl) ?_⟩
  -- Each of the fifteen turns answers as the reel does.
  iterate 15 refine Reel.plays_append.mpr ⟨?_, by first | exact rfl | trivial⟩
  trivial

end Exchange

end LoadBench
