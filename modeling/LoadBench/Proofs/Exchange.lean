/-
  LoadBench.Proofs.Exchange

  A scan, its channels, and the workers behind them.  The workers may do
  anything that workers do to a channel: at an endpoint they receive batches and
  acknowledge them, one acknowledgment for each batch received, and they make and
  drop endpoints.  What a batch means to them is left out.  Everything else that
  a scan needs is answered from outside.

  `Exchange.step?` makes one step for an act; `Exchange.Step` lists all steps,
  and `step?_sound` says that there are no others.
-/

import LoadBench.Proofs.Scan.Turn
import LoadBench.Proofs.Trace

namespace LoadBench

variable {α : Type}

/-- A scan with its channels, and all that was done so far. -/
structure Exchange (α : Type) where
  scan : Scan α
  log : List (Turn α)
  /-- One channel for each queue. -/
  channels : List (Channel (Batch α))
  /-- The batches that the workers of a queue have received, in order. -/
  received : Nat → List (Batch α)
  /-- How many of them the workers of a queue have acknowledged. -/
  acknowledged : Nat → Nat

/-- What may happen in an exchange. -/
inductive Act (α : Type) where
  /-- The scan gets an answer from outside. -/
  | answer (reply : Reply α)
  /-- The scan takes an acknowledgment of a queue. -/
  | credit (queue : Nat)
  /-- The scan offers its batch. -/
  | offer
  /-- A worker receives a batch. -/
  | receive (queue endpoint : Nat)
  /-- A worker acknowledges a batch. -/
  | acknowledge (queue endpoint : Nat)
  | clone (queue endpoint : Nat)
  | drop (queue endpoint : Nat)

/-- Whether a reply comes from outside, and not from a channel. -/
def Reply.isOutside : Reply α → Bool
  | .acknowledged _ | .deserted _ | .offered _ => false
  | _ => true

/-- A channel with nothing in it. -/
structure Channel.Fresh (capacity : Nat) (channel : Channel α) : Prop where
  capacity_eq : channel.capacity = capacity
  queue_eq : channel.queue = []
  acks_eq : channel.acks = 0
  isOpen : channel.isOpen = true
  isRead : channel.isRead = true

/-- A new channel is fresh. -/
theorem Channel.fresh_create {slots : Nat} (hslots : 0 < slots) :
    (Channel.create slots : Channel α).Fresh slots :=
  ⟨Nat.max_eq_left hslots, rfl, rfl, rfl, rfl⟩

namespace Channel

variable {channel : Channel α} {endpoint : Nat}

/-- An endpoint that is held can be found. -/
theorem isHeld_iff : channel.isHeld = true ↔ ∃ endpoint, channel.holds endpoint = true := by
  unfold isHeld holds
  rw [List.any_eq_true]
  constructor
  · rintro ⟨held, hmem, hheld⟩
    obtain ⟨endpoint, hendpoint⟩ := List.getElem?_of_mem hmem
    exact ⟨endpoint, by rw [List.getD_eq_getElem?_getD, hendpoint]; exact hheld⟩
  · rintro ⟨endpoint, hholds⟩
    rw [List.getD_eq_getElem?_getD] at hholds
    cases hendpoint : channel.endpoints[endpoint]? with
    | none => simp [hendpoint] at hholds
    | some held =>
      rw [hendpoint] at hholds
      exact ⟨held, List.mem_of_getElem? hendpoint, hholds⟩

/-- One more endpoint is held only if the one it is made of is. -/
theorem isHeld_of_clone (h : (channel.clone endpoint).1.isHeld = true) :
    channel.isHeld = true := by
  have heither : (channel.endpoints ++ [channel.holds endpoint]).any id = true := h
  rw [List.any_append, Bool.or_eq_true] at heither
  rcases heither with hheld | hheld
  · exact hheld
  · exact isHeld_iff.mpr ⟨endpoint, by simpa using hheld⟩

theorem isHeld_of_drop (h : (channel.drop endpoint).isHeld = true) :
    channel.isHeld = true := by
  obtain ⟨held, hmem, hheld⟩ := List.any_eq_true.mp h
  refine List.any_eq_true.mpr ⟨held, ?_, hheld⟩
  rcases List.mem_or_eq_of_mem_set hmem with hbefore | rfl
  · exact hbefore
  · cases hheld

end Channel

namespace Exchange

/-- A scan at its start. -/
def start (plan : ScanPlan) (routing : Routing α) (channels : List (Channel (Batch α))) :
    Exchange α where
  scan := Scan.start plan routing
  log := []
  channels := channels
  received := fun _ => []
  acknowledged := fun _ => 0

/-- How many batches the workers of a queue have received and not acknowledged. -/
def held (exchange : Exchange α) (queue : Nat) : Nat :=
  (exchange.received queue).length - exchange.acknowledged queue

/-! ## Steps -/

/-- The scan goes on with a reply to its request. -/
def answered (exchange : Exchange α) (request : Request α) (reply : Reply α) : Exchange α :=
  { exchange with
    scan := exchange.scan.resume reply
    log := exchange.log ++ [⟨request, reply⟩] }

/-- The exchange with another channel for a queue. -/
def withChannel (exchange : Exchange α) (queue : Nat) (channel : Channel (Batch α)) : Exchange α :=
  { exchange with channels := exchange.channels.set queue channel }

/-- The workers of a queue have received a batch. -/
def receiving (exchange : Exchange α) (queue : Nat) (batch : Batch α) : Exchange α :=
  { exchange with
    received := fun other =>
      if other = queue then exchange.received queue ++ [batch] else exchange.received other }

/-- The workers of a queue have acknowledged a batch. -/
def acknowledging (exchange : Exchange α) (queue : Nat) : Exchange α :=
  { exchange with
    acknowledged := fun other =>
      if other = queue then exchange.acknowledged queue + 1 else exchange.acknowledged other }

/-- Answers the scan from outside. -/
def answer? (exchange : Exchange α) (reply : Reply α) : Option (Exchange α) :=
  match exchange.scan.request? with
  | some request =>
    if request.admits exchange.scan.plan.queues reply ∧ reply.isOutside then
      some (exchange.answered request reply)
    else none
  | none => none

/-- The scan takes an acknowledgment of a queue, or learns that none will come. -/
def credit? (exchange : Exchange α) (queue : Nat) : Option (Exchange α) :=
  match exchange.scan.request?, exchange.channels[queue]? with
  | some (.acknowledgment wait), some channel =>
    match channel.takeCredit with
    | (channel, .taken) =>
      some ((exchange.withChannel queue channel).answered (.acknowledgment wait)
        (.acknowledged queue))
    | (_, .lost) => some (exchange.answered (.acknowledgment wait) (.deserted queue))
    | (_, .none) => none
  | _, _ => none

/-- The scan offers its batch to the queue. -/
def offer? (exchange : Exchange α) : Option (Exchange α) :=
  match exchange.scan.request? with
  | some (.send queue batch) =>
    (exchange.channels[queue]?).map fun channel =>
      (exchange.withChannel queue (channel.offer batch).1).answered (.send queue batch)
        (.offered (channel.offer batch).2)
  | _ => none

/-- A worker receives a batch. -/
def receive? (exchange : Exchange α) (queue endpoint : Nat) : Option (Exchange α) :=
  match exchange.channels[queue]? with
  | some channel =>
    match channel.receive endpoint with
    | (channel, .received batch) =>
      some ((exchange.withChannel queue channel).receiving queue batch)
    | _ => none
  | none => none

/-- A worker acknowledges a batch, if the workers of its queue have one. -/
def acknowledge? (exchange : Exchange α) (queue endpoint : Nat) : Option (Exchange α) :=
  match exchange.channels[queue]? with
  | some channel =>
    match channel.acknowledge endpoint with
    | (channel, .sent) =>
      if 0 < exchange.held queue then
        some ((exchange.withChannel queue channel).acknowledging queue)
      else none
    | _ => none
  | none => none

/-- Makes the step of an act; nothing if it cannot happen now. -/
def step? (act : Act α) (exchange : Exchange α) : Option (Exchange α) :=
  match act with
  | .answer reply => exchange.answer? reply
  | .credit queue => exchange.credit? queue
  | .offer => exchange.offer?
  | .receive queue endpoint => exchange.receive? queue endpoint
  | .acknowledge queue endpoint => exchange.acknowledge? queue endpoint
  | .clone queue endpoint =>
    (exchange.channels[queue]?).map fun channel =>
      exchange.withChannel queue (channel.clone endpoint).1
  | .drop queue endpoint =>
    (exchange.channels[queue]?).map fun channel =>
      exchange.withChannel queue (channel.drop endpoint)

/-- Two items, each a batch of its own, for one queue with one slot: the second batch finds the
queue full and waits in line until the first one is acknowledged. -/
def twoBatches : List (Act Nat) :=
  [.answer (.emptyBatch ⟨1, []⟩), .answer .unacknowledged, .answer (.item (some 7)),
    .answer (.emptyBatch ⟨2, []⟩), .offer, .answer .unacknowledged, .answer (.item (some 8)),
    .answer (.emptyBatch ⟨3, []⟩), .offer, .answer .unacknowledged, .answer (.item none),
    .receive 0 0, .acknowledge 0 0, .credit 0, .offer, .receive 0 0, .acknowledge 0 0, .credit 0]

/-- What a step may do. -/
inductive Step (exchange : Exchange α) : Exchange α → Prop where
  | answer {request : Request α} {reply : Reply α}
      (hrequest : exchange.scan.request? = some request)
      (hadmits : request.admits exchange.scan.plan.queues reply = true)
      (houtside : reply.isOutside = true) : Step exchange (exchange.answered request reply)
  | credit {wait : Bool} {queue : Nat} {channel : Channel (Batch α)}
      (hrequest : exchange.scan.request? = some (.acknowledgment wait))
      (hchannel : exchange.channels[queue]? = some channel) (hacks : 0 < channel.acks) :
      Step exchange ((exchange.withChannel queue { channel with acks := channel.acks - 1 }).answered
        (.acknowledgment wait) (.acknowledged queue))
  | desert {wait : Bool} {queue : Nat} {channel : Channel (Batch α)}
      (hrequest : exchange.scan.request? = some (.acknowledgment wait))
      (hchannel : exchange.channels[queue]? = some channel) (hlost : channel.isHeld = false) :
      Step exchange (exchange.answered (.acknowledgment wait) (.deserted queue))
  | offer {queue : Nat} {batch : Batch α} {channel : Channel (Batch α)}
      (hrequest : exchange.scan.request? = some (.send queue batch))
      (hchannel : exchange.channels[queue]? = some channel) :
      Step exchange ((exchange.withChannel queue (channel.offer batch).1).answered
        (.send queue batch) (.offered (channel.offer batch).2))
  | receive {queue : Nat} {batch : Batch α} {rest : List (Batch α)} {channel : Channel (Batch α)}
      (hchannel : exchange.channels[queue]? = some channel)
      (hqueue : channel.queue = batch :: rest) :
      Step exchange
        ((exchange.withChannel queue { channel with queue := rest }).receiving queue batch)
  | acknowledge {queue : Nat} {channel : Channel (Batch α)}
      (hchannel : exchange.channels[queue]? = some channel) (hread : channel.isRead = true)
      (hheld : 0 < exchange.held queue) :
      Step exchange
        ((exchange.withChannel queue { channel with acks := channel.acks + 1 }).acknowledging queue)
  | endpoints {queue : Nat} {channel : Channel (Batch α)} (endpoints : List Bool)
      (hchannel : exchange.channels[queue]? = some channel)
      (hheld : endpoints.any id = true → channel.isHeld = true) :
      Step exchange (exchange.withChannel queue { channel with endpoints })

/-- There are no other steps, as long as acknowledgments are taken. -/
theorem step?_sound {exchange next : Exchange α} {act : Act α}
    (hread : ∀ channel ∈ exchange.channels, channel.isRead = true)
    (h : step? act exchange = some next) : Step exchange next := by
  cases act with
  | answer reply =>
    simp only [step?, answer?] at h
    split at h
    · next request hrequest =>
      split at h
      · next hallowed =>
        obtain rfl := Option.some.inj h
        exact .answer hrequest hallowed.1 hallowed.2
      · cases h
    · cases h
  | credit queue =>
    simp only [step?, credit?] at h
    split at h
    · next wait channel hrequest hchannel =>
      -- An acknowledgment is taken if there is one; else the queue is deserted, or the act is
      -- refused.
      unfold Channel.takeCredit at h
      by_cases hacks : 0 < channel.acks
      · rw [if_pos hacks] at h
        obtain rfl := Option.some.inj h
        exact .credit hrequest hchannel hacks
      · rw [if_neg hacks] at h
        by_cases hheld : channel.isHeld = true
        · rw [if_pos hheld] at h
          cases h
        · rw [if_neg hheld] at h
          obtain rfl := Option.some.inj h
          exact .desert hrequest hchannel (Bool.eq_false_iff.mpr hheld)
    · cases h
  | offer =>
    simp only [step?, offer?] at h
    split at h
    · next queue batch hrequest =>
      obtain ⟨channel, hchannel, rfl⟩ := Option.map_eq_some_iff.mp h
      exact .offer hrequest hchannel
    · cases h
  | receive queue endpoint =>
    simp only [step?, receive?] at h
    split at h
    · next channel hchannel =>
      unfold Channel.receive at h
      by_cases hholds : channel.holds endpoint = true
      · rw [if_neg (not_not_intro hholds)] at h
        cases hqueue : channel.queue with
        | nil =>
          simp only [hqueue] at h
          by_cases hopen : channel.isOpen = true
          · simp [hopen] at h
          · simp [hopen] at h
        | cons batch rest =>
          simp only [hqueue] at h
          obtain rfl := Option.some.inj h
          exact .receive hchannel hqueue
      · rw [if_pos hholds] at h
        cases h
    · cases h
  | acknowledge queue endpoint =>
    simp only [step?, acknowledge?] at h
    split at h
    · next channel hchannel =>
      have hisRead := hread channel (List.mem_of_getElem? hchannel)
      -- Acknowledgments are taken, so one that is sent waits in the channel.
      unfold Channel.acknowledge at h
      by_cases hholds : channel.holds endpoint = true
      · rw [if_neg (not_not_intro hholds), if_neg (not_not_intro hisRead)] at h
        by_cases hfull : channel.capacity ≤ channel.acks
        · rw [if_pos hfull] at h
          cases h
        · rw [if_neg hfull] at h
          by_cases hheld : 0 < exchange.held queue
          · simp only [hheld, if_true] at h
            obtain rfl := Option.some.inj h
            exact .acknowledge hchannel hisRead hheld
          · simp only [hheld, if_false] at h
            cases h
      · rw [if_pos hholds] at h
        cases h
    · cases h
  | clone queue endpoint =>
    obtain ⟨channel, hchannel, rfl⟩ := Option.map_eq_some_iff.mp h
    exact .endpoints _ hchannel Channel.isHeld_of_clone
  | drop queue endpoint =>
    obtain ⟨channel, hchannel, rfl⟩ := Option.map_eq_some_iff.mp h
    exact .endpoints _ hchannel Channel.isHeld_of_drop

end Exchange

end LoadBench
