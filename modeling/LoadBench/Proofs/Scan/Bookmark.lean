/-
  LoadBench.Proofs.Scan.Bookmark

  How far the reading of a scan has come that may read its input again, up to a
  limit.  That is the scan's bookmark.  Batches that are drawn or sent and
  acknowledgments that are taken leave it alone.  What the other replies make of
  it is `Bookmark.behind`, and `bookmark_resume` says that a scan goes on so,
  unless it fails.
-/

import LoadBench.Proofs.Scan.Reading

namespace LoadBench

variable {α : Type}

/-! ## Bookmarks -/

/-- What a scan is about with its input. -/
inductive Stage where
  | reading
  /-- About to ask for the input from its start. -/
  | rewinding
  | ended
  deriving DecidableEq, Repr

/-- How far a reading has come. -/
structure Bookmark where
  itemsRead : Nat
  /-- How many of the items are of the present pass. -/
  passItems : Nat
  rewinds : Nat
  readFault : Option Fault
  stage : Stage
  deriving DecidableEq, Repr

/-- The stage of a scan that has, or has not, ended the reading. -/
def Stage.unless (ending : Bool) : Stage := if ending then .ended else .reading

/-- What a scan in a phase is about with its input. -/
def Phase.stage : Phase α → Stage
  | .rewinding => .rewinding
  | phase => .unless phase.hand.ending

namespace Bookmark

/-- How far a reading with a limit has come behind a turn. The input is read again if the pass that
has ended gave an item. -/
def behind (limit : Nat) (bookmark : Bookmark) : Turn α → Bookmark
  | ⟨.stop, .stop now⟩ =>
    { bookmark with stage := .unless (now || bookmark.itemsRead = limit) }
  | ⟨.item, .item (some _)⟩ =>
    { bookmark with
      itemsRead := bookmark.itemsRead + 1
      passItems := bookmark.passItems + 1
      stage := .reading }
  | ⟨.item, .item none⟩ =>
    { bookmark with stage := if 0 < bookmark.passItems then .rewinding else .ended }
  | ⟨.rewind, .rewound true⟩ =>
    { bookmark with passItems := 0, rewinds := bookmark.rewinds + 1, stage := .reading }
  | ⟨.rewind, .rewound false⟩ => { bookmark with stage := .ended }
  | ⟨.item, .unreadable fault⟩ | ⟨.rewind, .unreadable fault⟩ =>
    { bookmark with readFault := some fault, stage := .ended }
  | _ => bookmark

/-- What holds of a reading when a scan makes a request. -/
def Asks (limit : Nat) (bookmark : Bookmark) : Request α → Prop
  | .stop => bookmark.stage = .reading
  | .item => bookmark.stage = .reading ∧ bookmark.itemsRead < limit
  | .rewind => bookmark.stage = .rewinding
  | _ => True

end Bookmark

namespace Scan

/-- How far the reading of a scan has come. -/
def bookmark (scan : Scan α) : Bookmark where
  itemsRead := scan.itemsRead
  passItems := scan.passItems
  rewinds := scan.rewinds
  readFault := scan.readFault
  stage := scan.phase.stage

variable {scan : Scan α} {hasDeadline : Bool}

/-- A bookmark stays what it is while the stage does. -/
theorem bookmark_same {phase : Phase α} (h : scan.phase = phase) :
    { scan.bookmark with stage := phase.stage } = scan.bookmark := by
  rw [← h]
  rfl

/-! ## The functions of a scan -/

theorem bookmark_drain (scan : Scan α) :
    scan.drain.bookmark = { scan.bookmark with stage := .ended } := by
  unfold drain
  split <;> rfl

theorem bookmark_flushFrom (scan : Scan α) (queue : Nat) :
    (scan.flushFrom queue).bookmark = { scan.bookmark with stage := .ended } := by
  unfold flushFrom
  split
  · rfl
  · exact scan.bookmark_drain

theorem bookmark_readMore (hlimit : 0 < scan.plan.limit) :
    scan.readMore.bookmark =
      { scan.bookmark with stage := .unless (scan.itemsRead = scan.plan.limit) } := by
  unfold readMore
  by_cases hreached : scan.itemsRead = scan.plan.limit
  · rw [if_pos ⟨hlimit, hreached⟩, decide_eq_true hreached]
    exact scan.bookmark_flushFrom 0
  · rw [if_neg fun hboth => hreached hboth.2, decide_eq_false hreached]
    rfl

section

variable (hmode : scan.plan.mode = .timed hasDeadline)

include hmode

theorem bookmark_proceed :
    scan.proceed.bookmark = { scan.bookmark with stage := .reading } := by
  unfold proceed
  rw [hmode]
  rfl

theorem bookmark_handedOver (queue : Nat) (ending : Bool) :
    (scan.handedOver queue ending).bookmark =
      { scan.bookmark with stage := .unless ending } := by
  cases ending with
  | true => exact scan.bookmark_flushFrom (queue + 1)
  | false => exact bookmark_proceed hmode

theorem bookmark_charge (queue : Nat) (batch : Batch α) (ending : Bool) :
    (scan.charge queue batch ending).bookmark =
      { scan.bookmark with stage := .unless ending } := by
  unfold charge
  dsimp only
  split
  · rfl
  · exact bookmark_handedOver (by exact hmode) queue ending

theorem bookmark_handOver (queue : Nat) (batch : Batch α) (ending : Bool) :
    (scan.handOver queue batch ending).bookmark =
      { scan.bookmark with stage := .unless ending } := by
  unfold handOver
  split
  · rfl
  · exact bookmark_charge hmode queue batch ending

theorem bookmark_settle (purpose : Purpose α) :
    (scan.settle purpose).bookmark =
      { scan.bookmark with stage := .unless purpose.hand.ending } := by
  cases purpose with
  | reading => rfl
  | room queue batch ending => exact bookmark_charge hmode queue batch ending
  | drain => exact scan.bookmark_drain

theorem bookmark_acknowledge (queue : Nat) (purpose : Purpose α) :
    (scan.acknowledge queue purpose).bookmark =
        { scan.bookmark with stage := .unless purpose.hand.ending } ∨
      (scan.acknowledge queue purpose).HasFailed := by
  unfold acknowledge
  split
  · exact Or.inr ⟨_, rfl, nofun⟩
  · left
    dsimp only
    split
    · exact bookmark_settle (by exact hmode) purpose
    · rfl

theorem bookmark_push (item : α) :
    (scan.push item).bookmark =
        scan.bookmark.behind scan.plan.limit (Turn.mk .item (.item (some item))) ∨
      (scan.push item).HasFailed := by
  unfold push
  dsimp only
  split
  · exact Or.inr ⟨_, rfl, nofun⟩
  · left
    split
    · rfl
    · exact bookmark_proceed (by exact hmode)

end

theorem bookmark_passEnded (hmode : scan.plan.mode = .timed hasDeadline)
    (hlimit : 0 < scan.plan.limit) :
    scan.passEnded.bookmark =
      { scan.bookmark with stage := if 0 < scan.passItems then .rewinding else .ended } := by
  have hagain : scan.plan.isRepeated = true := by
    rw [ScanPlan.isRepeated, hmode]
    exact Bool.or_eq_true_iff.mpr (Or.inl (decide_eq_true hlimit))
  unfold passEnded
  by_cases hitems : 0 < scan.passItems
  · rw [if_pos ⟨hagain, hitems⟩, if_pos hitems]
    rfl
  · rw [if_neg fun hboth => hitems hboth.2, if_neg hitems]
    exact scan.bookmark_flushFrom 0

/-! ## Replies -/

/-- A scan with a limit that may read its input again goes on as its bookmark says, or it fails. -/
theorem bookmark_resume (hmode : scan.plan.mode = .timed hasDeadline)
    (hlimit : 0 < scan.plan.limit) {queues : Nat} {request : Request α} {reply : Reply α}
    (hrequest : scan.request? = some request) (hadmits : request.admits queues reply = true) :
    (scan.resume reply).bookmark = scan.bookmark.behind scan.plan.limit ⟨request, reply⟩ ∨
      (scan.resume reply).HasFailed := by
  have hresumed := resumed_of_admits hrequest hadmits
  generalize scan.resume reply = next at hresumed ⊢
  cases hresumed with
  | opened hphase =>
    have hsame := bookmark_same hphase
    left
    split
    · exact (bookmark_proceed (by exact hmode)).trans hsame
    · exact hsame
  | @checked now hphase =>
    left
    cases now with
    | true => exact scan.bookmark_flushFrom 0
    | false => exact bookmark_readMore hlimit
  | acknowledged hphase =>
    have hsame := bookmark_same hphase
    exact (bookmark_acknowledge hmode _ _).imp_left fun heq => heq.trans hsame
  | unacknowledged hphase =>
    have hsame := bookmark_same hphase
    exact Or.inl hsame
  | deserted | refused =>
    refine Or.inr ⟨_, rfl, fun cause hcontra => ?_⟩
    cases hcontra
  | resent hphase | putBack hphase =>
    have hsame := bookmark_same hphase
    exact Or.inl ((bookmark_settle (by exact hmode) _).trans hsame)
  | item hphase => exact bookmark_push hmode _
  | ended hphase => exact Or.inl (bookmark_passEnded hmode hlimit)
  | drawn hphase =>
    have hsame := bookmark_same hphase
    exact Or.inl ((bookmark_handOver (by exact hmode) _ _ _).trans hsame)
  | sent hphase | linedUp hphase =>
    have hsame := bookmark_same hphase
    exact Or.inl ((bookmark_handedOver (by exact hmode) _ _).trans hsame)
  | rewound hphase => exact Or.inl (bookmark_proceed (by exact hmode))
  | unrewound hphase => exact Or.inl (scan.bookmark_flushFrom 0)
  | unreadable hphase =>
    refine Or.inl ((bookmark_flushFrom _ 0).trans ?_)
    rcases hphase with ⟨-, rfl⟩ | ⟨-, rfl⟩ <;> rfl

/-- A scan asks for an item while it reads, and only below its limit. -/
theorem asks_of_request {log : List (Turn α)} (h : scan.Reading log) (hlimit : 0 < scan.plan.limit)
    {request : Request α} (hrequest : scan.request? = some request) :
    scan.bookmark.Asks scan.plan.limit request := by
  have hbelow := h.below
  rw [request?] at hrequest
  unfold bookmark
  cases hphase : scan.phase with
  | awaiting purpose =>
    cases purpose <;> simp only [hphase, Option.some.injEq] at hrequest <;> subst hrequest <;>
      trivial
  | fetching =>
    rw [hphase] at hrequest hbelow
    obtain rfl := Option.some.inj hrequest
    exact ⟨rfl, hbelow rfl hlimit⟩
  | returned => simp [hphase] at hrequest
  | opening | resending | drawing | sending =>
    rw [hphase] at hrequest
    obtain rfl := Option.some.inj hrequest
    trivial
  | checking | rewinding =>
    rw [hphase] at hrequest
    obtain rfl := Option.some.inj hrequest
    rfl

/-- A scan that has returned has ended the reading. -/
theorem stage_of_result? {result : Except ScanFault ScanTally} (h : scan.result? = some result) :
    scan.bookmark.stage = .ended := by
  unfold bookmark
  rw [phase_of_result? h]
  rfl

/-- A scan with queues and room in its batches can start. -/
theorem phase_start {plan : ScanPlan} (hsize : 0 < plan.batchSize) (hqueues : 0 < plan.queues)
    (routing : Routing α) : (start plan routing).phase = .opening := by
  unfold start
  dsimp only
  rw [if_neg (Nat.not_lt.mpr hsize), if_neg hqueues.ne']

/-- A scan that can start has read nothing. -/
theorem bookmark_start {plan : ScanPlan} (hsize : 0 < plan.batchSize) (hqueues : 0 < plan.queues)
    (routing : Routing α) : (start plan routing).bookmark = ⟨0, 0, 0, none, .reading⟩ := by
  unfold bookmark
  rw [phase_start hsize hqueues]
  rfl

end Scan

end LoadBench
