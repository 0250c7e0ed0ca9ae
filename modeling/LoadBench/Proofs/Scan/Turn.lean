/-
  LoadBench.Proofs.Scan.Turn

  The conversation of a scan with its surroundings.  A turn is one request of the
  scan and the reply it got; a log is the list of all turns so far.  What a scan
  has read and sent is read off its log, so it is stated without the scan's own
  counters and lists:

    * `itemsOf log` — the items the scan was given, in order;
    * `sentOn queue log` — the batches that went into a queue, in order;
    * `creditsOn queue log` — how many acknowledgments of a queue were taken.

  `Scan.Resumed` lists what a scan makes of the replies, phase by phase, and
  `resumed_of_admits` says that the list is complete.  `Routing.share` says which of
  the items belong to a queue, and `Chopped` how a queue's items are cut into
  batches.
-/

import LoadBench.Scan
import Mathlib.Data.List.GetD
import Mathlib.Algebra.BigOperators.Group.Finset.Basic

namespace LoadBench

variable {α : Type}

/-! ## Turns -/

/-- One request of a scan and the reply it got. -/
structure Turn (α : Type) where
  request : Request α
  reply : Reply α

/-- Whether a reply answers a request of a scan on `queues` queues. A batch that is drawn has no
items, and a scan that waits for an acknowledgment is not told that there is none. -/
def Request.admits (queues : Nat) : Request α → Reply α → Bool
  | .emptyBatch, .emptyBatch batch => batch.isEmpty
  | .stop, .stop _ => true
  | .acknowledgment _, .acknowledged queue => queue < queues
  | .acknowledgment wait, .unacknowledged => !wait
  | .acknowledgment _, .deserted queue => queue < queues
  | .item, .item _ => true
  | .item, .unreadable _ => true
  | .rewind, .rewound _ => true
  | .rewind, .unreadable _ => true
  | .send _ _, .offered _ => true
  | _, _ => false

namespace Turn

/-- The item a scan was given. -/
def item? : Turn α → Option α
  | ⟨.item, .item (some item)⟩ => some item
  | _ => none

/-- What came of asking for an item, if the input could be read. -/
def answer? : Turn α → Option (Option α)
  | ⟨.item, .item answer⟩ => some answer
  | _ => none

/-- The batch that went into a queue. -/
def sentOn? (queue : Nat) : Turn α → Option (Batch α)
  | ⟨.send chosen batch, .offered .accepted⟩ => if chosen = queue then some batch else none
  | _ => none

/-- Whether an acknowledgment of a queue was taken. -/
def isCreditOn (queue : Nat) : Turn α → Bool
  | ⟨.acknowledgment _, .acknowledged chosen⟩ => chosen = queue
  | _ => false

end Turn

/-! ## Replies -/

namespace Scan

/-- What a scan on `queues` queues makes of a reply to its request. -/
inductive Resumed (queues : Nat) (scan : Scan α) : Request α → Reply α → Scan α → Prop where
  | opened {batch : Batch α} (hphase : scan.phase = .opening) (hempty : batch.items = []) :
      Resumed queues scan .emptyBatch (.emptyBatch batch)
        (if (scan.filling ++ [batch]).length = scan.plan.queues then
          proceed { scan with filling := scan.filling ++ [batch], phase := .opening }
        else { scan with filling := scan.filling ++ [batch], phase := .opening })
  | checked {now : Bool} (hphase : scan.phase = .checking) :
      Resumed queues scan .stop (.stop now) (if now then scan.finish else scan.readMore)
  | acknowledged {wait : Bool} {queue : Nat} {purpose : Purpose α}
      (hphase : scan.phase = .awaiting purpose) (hqueue : queue < queues) :
      Resumed queues scan (.acknowledgment wait) (.acknowledged queue)
        (scan.acknowledge queue purpose)
  | unacknowledged (hphase : scan.phase = .awaiting .reading) :
      Resumed queues scan (.acknowledgment false) .unacknowledged (scan.settle .reading)
  | deserted {wait : Bool} {queue : Nat} {purpose : Purpose α}
      (hphase : scan.phase = .awaiting purpose) :
      Resumed queues scan (.acknowledgment wait) (.deserted queue)
        (scan.fail (.deserted queue scan.outstanding))
  | resent {queue : Nat} {batch : Batch α} {purpose : Purpose α}
      (hphase : scan.phase = .resending queue batch purpose) :
      Resumed queues scan (.send queue batch) (.offered .accepted) (scan.countSent.settle purpose)
  | putBack {queue : Nat} {batch : Batch α} {purpose : Purpose α}
      (hphase : scan.phase = .resending queue batch purpose) :
      Resumed queues scan (.send queue batch) (.offered .full)
        ((scan.putBack queue batch).settle purpose)
  | item {item : α} (hphase : scan.phase = .fetching) :
      Resumed queues scan .item (.item (some item)) (scan.push item)
  | ended (hphase : scan.phase = .fetching) :
      Resumed queues scan .item (.item none) scan.passEnded
  | drawn {queue : Nat} {batch : Batch α} {ending : Bool}
      (hphase : scan.phase = .drawing queue ending) (hempty : batch.items = []) :
      Resumed queues scan .emptyBatch (.emptyBatch batch)
        (handOver { scan with filling := scan.filling.set queue batch } queue
          (scan.batchOf queue) ending)
  | sent {queue : Nat} {batch : Batch α} {ending : Bool}
      (hphase : scan.phase = .sending queue batch ending) :
      Resumed queues scan (.send queue batch) (.offered .accepted)
        (scan.countSent.handedOver queue ending)
  | linedUp {queue : Nat} {batch : Batch α} {ending : Bool}
      (hphase : scan.phase = .sending queue batch ending) :
      Resumed queues scan (.send queue batch) (.offered .full)
        ((scan.lineUp queue batch).handedOver queue ending)
  | refused {queue : Nat} {batch : Batch α} {fault : SendFault}
      (hphase : (∃ purpose, scan.phase = .resending queue batch purpose) ∨
        ∃ ending, scan.phase = .sending queue batch ending) :
      Resumed queues scan (.send queue batch) (.offered (.refused fault))
        (scan.fail (.unsendable fault))
  | rewound (hphase : scan.phase = .rewinding) :
      Resumed queues scan .rewind (.rewound true) scan.passStarted
  | unrewound (hphase : scan.phase = .rewinding) :
      Resumed queues scan .rewind (.rewound false) scan.finish
  | unreadable {request : Request α} {fault : Fault}
      (hphase : scan.phase = .fetching ∧ request = .item ∨
        scan.phase = .rewinding ∧ request = .rewind) :
      Resumed queues scan request (.unreadable fault)
        (finish { scan with readFault := some fault })

variable {scan : Scan α} {request : Request α} {reply : Reply α} {queues : Nat}

/-- The result of a scan is what it has returned. -/
theorem phase_of_result? {result : Except ScanFault ScanTally} (h : scan.result? = some result) :
    scan.phase = .returned result := by
  unfold result? at h
  split at h
  · next returned hphase => rw [hphase, Option.some.inj h]
  · cases h

/-- A scan that needs something has not returned. -/
theorem phase_ne_of_request? (h : scan.request? = some request)
    (result : Except ScanFault ScanTally) : scan.phase ≠ .returned result := by
  intro hphase
  rw [request?, hphase] at h
  cases h

/-- A scan makes nothing else of a reply that answers its request. -/
theorem resumed_of_admits (hrequest : scan.request? = some request)
    (hadmits : request.admits queues reply = true) :
    Resumed queues scan request reply (scan.resume reply) := by
  unfold request? at hrequest
  -- The phase says what was asked for, and so which replies there can be.
  cases hphase : scan.phase with
  | awaiting purpose =>
    -- A scan that waits for an acknowledgment cannot be told that there is none.
    have hwait : request = .acknowledgment true ∨ purpose = .reading := by
      cases purpose with
      | reading => exact Or.inr rfl
      | room | drain =>
        simp only [hphase, Option.some.injEq] at hrequest
        exact Or.inl hrequest.symm
    have hrequest' : ∃ wait, request = .acknowledgment wait := by
      cases purpose <;> simp only [hphase, Option.some.injEq] at hrequest <;>
        exact ⟨_, hrequest.symm⟩
    obtain ⟨wait, rfl⟩ := hrequest'
    cases reply with
    | acknowledged queue =>
      simp only [resume, hphase]
      exact .acknowledged hphase (of_decide_eq_true hadmits)
    | unacknowledged =>
      cases wait with
      | true => cases hadmits
      | false =>
        rcases hwait with hcontra | rfl
        · cases hcontra
        · simp only [resume, hphase]
          exact .unacknowledged hphase
    | deserted queue =>
      simp only [resume, hphase]
      exact .deserted hphase
    | _ => cases hadmits
  | returned result => simp [hphase] at hrequest
  | opening =>
    simp only [hphase, Option.some.injEq] at hrequest
    subst hrequest
    cases reply with
    | emptyBatch batch =>
      simp only [resume, hphase]
      exact .opened hphase (List.isEmpty_iff.mp hadmits)
    | _ => cases hadmits
  | checking =>
    simp only [hphase, Option.some.injEq] at hrequest
    subst hrequest
    cases reply with
    | stop now =>
      simp only [resume, hphase]
      exact .checked hphase
    | _ => cases hadmits
  | resending queue batch purpose =>
    simp only [hphase, Option.some.injEq] at hrequest
    subst hrequest
    cases reply with
    | offered offer =>
      cases offer <;> simp only [resume, hphase]
      · exact .resent hphase
      · exact .putBack hphase
      · exact .refused (Or.inl ⟨purpose, hphase⟩)
    | _ => cases hadmits
  | fetching =>
    simp only [hphase, Option.some.injEq] at hrequest
    subst hrequest
    cases reply with
    | item answer =>
      cases answer <;> simp only [resume, hphase]
      · exact .ended hphase
      · exact .item hphase
    | unreadable fault =>
      simp only [resume, hphase]
      exact hphase ▸ .unreadable (Or.inl ⟨hphase, rfl⟩)
    | _ => cases hadmits
  | drawing queue ending =>
    simp only [hphase, Option.some.injEq] at hrequest
    subst hrequest
    cases reply with
    | emptyBatch batch =>
      simp only [resume, hphase]
      exact hphase ▸ .drawn hphase (List.isEmpty_iff.mp hadmits)
    | _ => cases hadmits
  | sending queue batch ending =>
    simp only [hphase, Option.some.injEq] at hrequest
    subst hrequest
    cases reply with
    | offered offer =>
      cases offer <;> simp only [resume, hphase]
      · exact .sent hphase
      · exact .linedUp hphase
      · exact .refused (Or.inr ⟨ending, hphase⟩)
    | _ => cases hadmits
  | rewinding =>
    simp only [hphase, Option.some.injEq] at hrequest
    subst hrequest
    cases reply with
    | rewound again =>
      cases again <;> simp only [resume, hphase]
      · exact .unrewound hphase
      · exact .rewound hphase
    | unreadable fault =>
      simp only [resume, hphase]
      exact hphase ▸ .unreadable (Or.inr ⟨hphase, rfl⟩)
    | _ => cases hadmits

end Scan

/-! ## Logs -/

/-- The items a scan was given. -/
def itemsOf (log : List (Turn α)) : List α := log.filterMap Turn.item?

/-- What came of asking for items. -/
def answersOf (log : List (Turn α)) : List (Option α) := log.filterMap Turn.answer?

/-- The batches that went into a queue. -/
def sentOn (queue : Nat) (log : List (Turn α)) : List (Batch α) :=
  log.filterMap (Turn.sentOn? queue)

/-- How many acknowledgments of a queue were taken. -/
def creditsOn (queue : Nat) (log : List (Turn α)) : Nat := log.countP (Turn.isCreditOn queue)

@[simp] theorem itemsOf_nil : itemsOf ([] : List (Turn α)) = [] := rfl

@[simp] theorem answersOf_nil : answersOf ([] : List (Turn α)) = [] := rfl

@[simp] theorem sentOn_nil (queue : Nat) : sentOn queue ([] : List (Turn α)) = [] := rfl

@[simp] theorem creditsOn_nil (queue : Nat) : creditsOn queue ([] : List (Turn α)) = 0 := rfl

theorem itemsOf_append (log : List (Turn α)) (turn : Turn α) :
    itemsOf (log ++ [turn]) = itemsOf log ++ turn.item?.toList := by
  rw [itemsOf, itemsOf, List.filterMap_append]
  cases h : turn.item? <;> simp [h]

theorem answersOf_append (log : List (Turn α)) (turn : Turn α) :
    answersOf (log ++ [turn]) = answersOf log ++ turn.answer?.toList := by
  rw [answersOf, answersOf, List.filterMap_append]
  cases h : turn.answer? <;> simp [h]

theorem sentOn_append (queue : Nat) (log : List (Turn α)) (turn : Turn α) :
    sentOn queue (log ++ [turn]) = sentOn queue log ++ (turn.sentOn? queue).toList := by
  rw [sentOn, sentOn, List.filterMap_append]
  cases h : turn.sentOn? queue <;> simp [h]

theorem creditsOn_append (queue : Nat) (log : List (Turn α)) (turn : Turn α) :
    creditsOn queue (log ++ [turn]) =
      creditsOn queue log + if turn.isCreditOn queue then 1 else 0 := by
  rw [creditsOn, creditsOn, List.countP_append, List.countP_singleton]

section Turns

variable {turn : Turn α} {queue : Nat}

theorem itemsOf_append_of_none (log : List (Turn α)) (h : turn.item? = none) :
    itemsOf (log ++ [turn]) = itemsOf log := by
  rw [itemsOf_append, h, Option.toList_none, List.append_nil]

theorem answersOf_append_of_none (log : List (Turn α)) (h : turn.answer? = none) :
    answersOf (log ++ [turn]) = answersOf log := by
  rw [answersOf_append, h, Option.toList_none, List.append_nil]

theorem sentOn_append_of_none (log : List (Turn α)) (h : turn.sentOn? queue = none) :
    sentOn queue (log ++ [turn]) = sentOn queue log := by
  rw [sentOn_append, h, Option.toList_none, List.append_nil]

theorem creditsOn_append_of_false (log : List (Turn α)) (h : turn.isCreditOn queue = false) :
    creditsOn queue (log ++ [turn]) = creditsOn queue log := by
  rw [creditsOn_append, h]
  exact Nat.add_zero _

end Turns

/-- Whether a turn moves neither an item, nor a batch into a queue, nor an acknowledgment. -/
def Turn.Silent (turn : Turn α) : Prop :=
  turn.item? = none ∧ (∀ queue, turn.sentOn? queue = none) ∧ ∀ queue, turn.isCreditOn queue = false

/-! ## Shares and batches -/

namespace Routing

/-- The items that belong to a queue, in order; positions count from one. -/
def share (routing : Routing α) (queue : Nat) (items : List α) : List α :=
  (items.zipIdx 1).filterMap fun entry =>
    if routing entry.2 entry.1 = queue then some entry.1 else none

@[simp] theorem share_nil (routing : Routing α) (queue : Nat) : routing.share queue [] = [] := rfl

theorem share_append (routing : Routing α) (queue : Nat) (items : List α) (item : α) :
    routing.share queue (items ++ [item]) =
      routing.share queue items ++
        if routing (items.length + 1) item = queue then [item] else [] := by
  rw [share, share, List.zipIdx_append, List.filterMap_append, Nat.add_comm 1]
  congr 1
  by_cases h : routing (items.length + 1) item = queue <;> simp [h]

end Routing

/-- Whether batches are what items are cut into: each of them is full but the last one, and that
has an item. -/
def Chopped (batchSize : Nat) (batches : List (Batch α)) : Prop :=
  (∀ batch ∈ batches.dropLast, batch.size = batchSize) ∧
    ∀ batch ∈ batches.getLast?, 0 < batch.size ∧ batch.size ≤ batchSize

theorem chopped_nil (batchSize : Nat) : Chopped batchSize ([] : List (Batch α)) := by
  simp [Chopped]

/-- Full batches are cut right, and so is what they are with one more batch behind them. -/
theorem chopped_append {batchSize : Nat} {batches : List (Batch α)} {batch : Batch α}
    (hfull : ∀ other ∈ batches, other.size = batchSize) (hpos : 0 < batch.size)
    (hle : batch.size ≤ batchSize) : Chopped batchSize (batches ++ [batch]) := by
  refine ⟨?_, ?_⟩
  · rw [List.dropLast_concat]
    exact hfull
  · rw [List.getLast?_concat]
    intro other hother
    obtain rfl : batch = other := Option.some.inj hother
    exact ⟨hpos, hle⟩

/-- Full batches hold `batchSize` items each. -/
theorem length_flatMap_items {batchSize : Nat} {batches : List (Batch α)}
    (h : ∀ batch ∈ batches, batch.size = batchSize) :
    (batches.flatMap Batch.items).length = batches.length * batchSize := by
  induction batches with
  | nil => simp
  | cons batch rest ih =>
    have hrest := ih fun other hother => h other (List.mem_cons_of_mem _ hother)
    have hbatch : batch.items.length = batchSize := h batch List.mem_cons_self
    rw [List.flatMap_cons, List.length_append, hrest, hbatch, List.length_cons, Nat.succ_mul,
      Nat.add_comm]

/-- There are as many batches as the items fill, the last one in part. -/
theorem Chopped.length_eq {batchSize : Nat} {batches : List (Batch α)}
    (h : Chopped batchSize batches) (hpos : 0 < batchSize) :
    batches.length = ceilDiv (batches.flatMap Batch.items).length batchSize := by
  obtain rfl | ⟨full, last, rfl⟩ := List.eq_nil_or_concat batches
  · simp only [List.flatMap_nil, List.length_nil, ceilDiv, Nat.zero_add]
    rw [Nat.div_eq_of_lt (Nat.sub_lt hpos Nat.one_pos)]
  · rw [List.concat_eq_append] at h ⊢
    obtain ⟨hfull, hlast⟩ := h
    rw [List.dropLast_concat] at hfull
    rw [List.getLast?_concat] at hlast
    obtain ⟨hlast_pos, hlast_le⟩ := hlast last rfl
    have hitems := length_flatMap_items hfull
    have hsize : last.items.length = last.size := rfl
    rw [List.flatMap_append, List.length_append, List.length_append, hitems, List.flatMap_singleton,
      hsize, List.length_singleton, ceilDiv]
    -- Rounding up, the last batch counts as a full one.
    have hsum : full.length * batchSize + last.size + batchSize - 1 =
        (last.size - 1) + batchSize * (full.length + 1) := by
      rw [Nat.mul_succ, Nat.mul_comm full.length]
      omega
    rw [hsum, Nat.add_mul_div_left _ _ hpos, Nat.div_eq_of_lt (by omega), Nat.zero_add]

end LoadBench
