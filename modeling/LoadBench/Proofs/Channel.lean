/-
  LoadBench.Proofs.Channel

  What a channel does with what is sent through it, whoever uses it and in whatever
  order.  `Step` lists what an operation can do (`step_perform`).  What has come of the
  operations so far says what was accepted and delivered, how many acknowledgments were
  sent and taken, whether the channel is closed and which endpoints are held; the state
  of the channel agrees with it (`Recorded`), step by step.  So all that comes of the
  next operation is known from it (`Orderly`), for every capacity and all operations
  (`orderly_after`).
-/

import LoadBench.Channel.Operation
import LoadBench.Proofs.Exchange
import LoadBench.Proofs.Lists
import Mathlib.Tactic.Tauto

namespace LoadBench.Channel

variable {α : Type}

/-! ## Steps -/

/-- Whether an operation sends a value. -/
def Operation.Sends (operation : Operation α) (value : α) : Prop :=
  operation = .trySend value ∨ operation = .send value

/-- The endpoint at which an operation is called. -/
def Operation.endpoint? : Operation α → Option Nat
  | .receive endpoint | .acknowledge endpoint | .clone endpoint | .drop endpoint => some endpoint
  | _ => none

/-- What an operation can do to a channel, and what comes of it. -/
inductive Step (channel : Channel α) : Operation α → Channel α → Outcome α → Prop where
  | accept {operation : Operation α} {value : α} (hsends : operation.Sends value)
      (hopen : channel.isOpen = true) (hheld : channel.isHeld = true)
      (hroom : channel.queue.length < channel.capacity) :
      Step channel operation { channel with queue := channel.queue ++ [value] } (.accepted value)
  | giveBack {value : α} (hopen : channel.isOpen = true) (hheld : channel.isHeld = true)
      (hfull : channel.capacity ≤ channel.queue.length) :
      Step channel (.trySend value) channel (.returned value)
  | blockSend {value : α} (hopen : channel.isOpen = true) (hheld : channel.isHeld = true)
      (hfull : channel.capacity ≤ channel.queue.length) :
      Step channel (.send value) channel .blocked
  | refuse {operation : Operation α} {value : α} (hsends : operation.Sends value)
      (fault : SendFault) (hends : channel.isOpen = false ∨ channel.isHeld = false) :
      Step channel operation channel (.refused fault.fault)
  | credit (hacks : 0 < channel.acks) :
      Step channel .takeCredit { channel with acks := channel.acks - 1 } .credited
  | missCredit (hacks : channel.acks = 0) (hheld : channel.isHeld = true) :
      Step channel .takeCredit channel .uncredited
  | disconnect (hacks : channel.acks = 0) (hheld : channel.isHeld = false) :
      Step channel .takeCredit channel .disconnected
  | close : Step channel .close channel.close .closed
  | receive {endpoint : Nat} {value : α} {rest : List α}
      (hholds : channel.holds endpoint = true) (hqueue : channel.queue = value :: rest) :
      Step channel (.receive endpoint) { channel with queue := rest } (.received endpoint value)
  | exhaust {endpoint : Nat} (hholds : channel.holds endpoint = true) (hqueue : channel.queue = [])
      (hclosed : channel.isOpen = false) :
      Step channel (.receive endpoint) channel (.exhausted endpoint)
  | blockReceive {endpoint : Nat} (hholds : channel.holds endpoint = true)
      (hqueue : channel.queue = []) (hopen : channel.isOpen = true) :
      Step channel (.receive endpoint) channel .blocked
  | acknowledge {endpoint : Nat} (hholds : channel.holds endpoint = true)
      (hroom : channel.acks < channel.capacity) :
      Step channel (.acknowledge endpoint) { channel with acks := channel.acks + 1 }
        (.acknowledged endpoint)
  | blockAcknowledge {endpoint : Nat} (hholds : channel.holds endpoint = true)
      (hfull : channel.capacity ≤ channel.acks) :
      Step channel (.acknowledge endpoint) channel .blocked
  | clone {endpoint : Nat} (hholds : channel.holds endpoint = true) :
      Step channel (.clone endpoint) { channel with endpoints := channel.endpoints ++ [true] }
        (.cloned channel.endpoints.length)
  | drop {endpoint : Nat} (hholds : channel.holds endpoint = true) :
      Step channel (.drop endpoint) (channel.drop endpoint) (.dropped endpoint)
  | miss {operation : Operation α} {endpoint : Nat} (hat : operation.endpoint? = some endpoint)
      (hholds : channel.holds endpoint = false) : Step channel operation channel .gone

variable {channel next : Channel α} {operation : Operation α} {outcome : Outcome α}

/-- What comes of an offer. -/
theorem offer_eq (channel : Channel α) (value : α) :
    (∃ fault, (channel.isOpen = false ∨ channel.isHeld = false) ∧
        channel.offer value = (channel, .refused fault)) ∨
      channel.isOpen = true ∧ channel.isHeld = true ∧
        (channel.capacity ≤ channel.queue.length ∧ channel.offer value = (channel, .full) ∨
          channel.queue.length < channel.capacity ∧
            channel.offer value =
              ({ channel with queue := channel.queue ++ [value] }, .accepted)) := by
  unfold offer
  by_cases hopen : channel.isOpen = true
  · rw [if_neg (not_not_intro hopen)]
    by_cases hheld : channel.isHeld = true
    · rw [if_neg (not_not_intro hheld)]
      refine Or.inr ⟨hopen, hheld, ?_⟩
      by_cases hfull : channel.isFull = true
      · rw [if_pos hfull]
        exact Or.inl ⟨of_decide_eq_true hfull, rfl⟩
      · rw [if_neg hfull]
        exact Or.inr ⟨Nat.lt_of_not_le (mt decide_eq_true hfull), rfl⟩
    · rw [if_pos hheld]
      exact Or.inl ⟨_, Or.inr (Bool.eq_false_of_not_eq_true hheld), rfl⟩
  · rw [if_pos hopen]
    exact Or.inl ⟨_, Or.inl (Bool.eq_false_of_not_eq_true hopen), rfl⟩

/-- There are no other steps. -/
theorem step_perform (hread : channel.isRead = true) (operation : Operation α) :
    Step channel operation (channel.perform operation).1 (channel.perform operation).2 := by
  cases operation with
  | trySend value =>
    rcases channel.offer_eq value with
      ⟨fault, hends, heq⟩ | ⟨hopen, hheld, ⟨hfull, heq⟩ | ⟨hroom, heq⟩⟩ <;>
      simp only [perform, heq]
    · exact .refuse (Or.inl rfl) fault hends
    · exact .giveBack hopen hheld hfull
    · exact .accept (Or.inl rfl) hopen hheld hroom
  | send value =>
    rcases channel.offer_eq value with
      ⟨fault, hends, heq⟩ | ⟨hopen, hheld, ⟨hfull, heq⟩ | ⟨hroom, heq⟩⟩ <;>
      simp only [perform, heq]
    · exact .refuse (Or.inr rfl) fault hends
    · exact .blockSend hopen hheld hfull
    · exact .accept (Or.inr rfl) hopen hheld hroom
  | takeCredit =>
    by_cases hacks : 0 < channel.acks
    · simp only [perform, Channel.takeCredit, if_pos hacks]
      exact .credit hacks
    · cases hheld : channel.isHeld with
      | true =>
        simp only [perform, Channel.takeCredit, if_neg hacks, if_pos hheld]
        exact .missCredit (Nat.eq_zero_of_not_pos hacks) hheld
      | false =>
        simp only [perform, Channel.takeCredit, if_neg hacks, hheld, Bool.false_eq_true, if_false]
        exact .disconnect (Nat.eq_zero_of_not_pos hacks) hheld
  | close => exact .close
  | receive endpoint =>
    cases hholds : channel.holds endpoint with
    | false =>
      simp only [perform, Channel.receive, hholds, Bool.false_eq_true, not_false_eq_true, if_true]
      exact .miss rfl hholds
    | true =>
      cases hqueue : channel.queue with
      | cons value rest =>
        simp only [perform, Channel.receive, if_neg (not_not_intro hholds), hqueue]
        exact .receive hholds hqueue
      | nil =>
        simp only [perform, Channel.receive, if_neg (not_not_intro hholds), hqueue]
        cases hopen : channel.isOpen with
        | true => exact .blockReceive hholds hqueue hopen
        | false => exact .exhaust hholds hqueue hopen
  | acknowledge endpoint =>
    cases hholds : channel.holds endpoint with
    | false =>
      simp only [perform, Channel.acknowledge, hholds, Bool.false_eq_true, not_false_eq_true,
        if_true]
      exact .miss rfl hholds
    | true =>
      by_cases hfull : channel.capacity ≤ channel.acks
      · simp only [perform, Channel.acknowledge, if_neg (not_not_intro hholds),
          if_neg (not_not_intro hread), if_pos hfull]
        exact .blockAcknowledge hholds hfull
      · simp only [perform, Channel.acknowledge, if_neg (not_not_intro hholds),
          if_neg (not_not_intro hread), if_neg hfull]
        exact .acknowledge hholds (Nat.lt_of_not_le hfull)
  | clone endpoint =>
    cases hholds : channel.holds endpoint with
    | false =>
      simp only [perform, hholds, Bool.false_eq_true, if_false]
      exact .miss rfl hholds
    | true =>
      simp only [perform, Channel.clone, hholds, if_true]
      exact .clone hholds
  | drop endpoint =>
    cases hholds : channel.holds endpoint with
    | false =>
      simp only [perform, hholds, Bool.false_eq_true, if_false]
      exact .miss rfl hholds
    | true =>
      simp only [perform, if_pos hholds]
      exact .drop hholds

namespace Operation.Sends

variable {value other : α}

theorem unique (h : operation.Sends value) (hother : operation.Sends other) : value = other := by
  rcases h with rfl | rfl <;> rcases hother with heq | heq <;> cases heq <;> rfl

theorem endpoint?_eq (h : operation.Sends value) : operation.endpoint? = none := by
  rcases h with rfl | rfl <;> rfl

end Operation.Sends

/-! ### What comes of each operation -/

theorem Step.accepted_iff (hstep : Step channel operation next outcome) (value : α) :
    outcome = .accepted value ↔
      operation.Sends value ∧ channel.isOpen = true ∧ channel.isHeld = true ∧
        channel.queue.length < channel.capacity := by
  refine ⟨fun houtcome => ?_, fun ⟨hsends, hopen, hheld, hroom⟩ => ?_⟩
  · subst houtcome
    cases hstep with
    | accept hsends hopen hheld hroom => exact ⟨hsends, hopen, hheld, hroom⟩
  · cases hstep with
    | accept hsends' => rw [hsends.unique hsends']
    | giveBack _ _ hfull | blockSend _ _ hfull => exact absurd hroom (Nat.not_lt.mpr hfull)
    | refuse _ _ hends => simp [hopen, hheld] at hends
    | miss hat => simp [hsends.endpoint?_eq] at hat
    | _ => rcases hsends with heq | heq <;> cases heq

theorem Step.returned_iff {value : α} (hstep : Step channel (.trySend value) next outcome)
    (other : α) : outcome = .returned other ↔
      value = other ∧ channel.isOpen = true ∧ channel.isHeld = true ∧
        channel.capacity ≤ channel.queue.length := by
  refine ⟨fun houtcome => ?_, fun ⟨hvalue, hopen, hheld, hfull⟩ => ?_⟩
  · subst houtcome
    cases hstep with
    | giveBack hopen hheld hfull => exact ⟨rfl, hopen, hheld, hfull⟩
  · cases hstep with
    | giveBack => rw [hvalue]
    | accept _ _ _ hroom => exact absurd hroom (Nat.not_lt.mpr hfull)
    | refuse _ _ hends => simp [hopen, hheld] at hends
    | miss hat => cases hat

theorem Step.refused_iff {value : α} (hsends : operation.Sends value)
    (hstep : Step channel operation next outcome) :
    (∃ fault, outcome = .refused fault) ↔ channel.isOpen = false ∨ channel.isHeld = false := by
  refine ⟨fun ⟨fault, houtcome⟩ => ?_, fun hends => ?_⟩
  · subst houtcome
    generalize hrefused : Outcome.refused fault = outcome at hstep
    cases hstep with
    | refuse _ _ hends => exact hends
    | _ => cases hrefused
  · cases hstep with
    | refuse _ fault => exact ⟨_, rfl⟩
    | accept _ hopen hheld | giveBack hopen hheld | blockSend hopen hheld =>
      simp [hopen, hheld] at hends
    | miss hat => simp [hsends.endpoint?_eq] at hat
    | _ => rcases hsends with heq | heq <;> cases heq

theorem Step.received_iff {endpoint : Nat} (hstep : Step channel (.receive endpoint) next outcome)
    (value : α) : outcome = .received endpoint value ↔
      channel.holds endpoint = true ∧ channel.queue.head? = some value := by
  refine ⟨fun houtcome => ?_, fun ⟨hholds, hhead⟩ => ?_⟩
  · subst houtcome
    cases hstep with
    | receive hholds hqueue => exact ⟨hholds, by rw [hqueue]; rfl⟩
  · cases hstep with
    | receive _ hqueue =>
      rw [hqueue] at hhead
      rw [Option.some.inj hhead]
    | exhaust _ hqueue | blockReceive _ hqueue => simp [hqueue] at hhead
    | accept hsends | refuse hsends => cases hsends.endpoint?_eq
    | miss hat hnot =>
      obtain rfl := Option.some.inj hat
      simp [hholds] at hnot

theorem Step.exhausted_iff {endpoint : Nat}
    (hstep : Step channel (.receive endpoint) next outcome) :
    outcome = .exhausted endpoint ↔
      channel.holds endpoint = true ∧ channel.isOpen = false ∧ channel.queue = [] := by
  refine ⟨fun houtcome => ?_, fun ⟨hholds, hclosed, hempty⟩ => ?_⟩
  · subst houtcome
    cases hstep with
    | exhaust hholds hqueue hclosed => exact ⟨hholds, hclosed, hqueue⟩
  · cases hstep with
    | exhaust => rfl
    | receive _ hqueue => simp [hempty] at hqueue
    | blockReceive _ _ hopen => simp [hclosed] at hopen
    | accept hsends | refuse hsends => cases hsends.endpoint?_eq
    | miss hat hnot =>
      obtain rfl := Option.some.inj hat
      simp [hholds] at hnot

theorem Step.credited_iff (hstep : Step channel .takeCredit next outcome) :
    outcome = .credited ↔ 0 < channel.acks := by
  cases hstep with
  | credit hacks => exact iff_of_true rfl hacks
  | missCredit hacks | disconnect hacks => exact iff_of_false nofun (by omega)
  | accept hsends | refuse hsends => rcases hsends with heq | heq <;> cases heq
  | miss hat => cases hat

theorem Step.disconnected_iff (hstep : Step channel .takeCredit next outcome) :
    outcome = .disconnected ↔ channel.acks = 0 ∧ channel.isHeld = false := by
  cases hstep with
  | disconnect hacks hheld => exact iff_of_true rfl ⟨hacks, hheld⟩
  | credit hacks => exact iff_of_false nofun (by omega)
  | missCredit _ hheld => exact iff_of_false nofun (by simp [hheld])
  | accept hsends | refuse hsends => rcases hsends with heq | heq <;> cases heq
  | miss hat => cases hat

theorem Step.acknowledged_iff {endpoint : Nat}
    (hstep : Step channel (.acknowledge endpoint) next outcome) :
    outcome = .acknowledged endpoint ↔
      channel.holds endpoint = true ∧ channel.acks < channel.capacity := by
  cases hstep with
  | acknowledge hholds hroom => exact iff_of_true rfl ⟨hholds, hroom⟩
  | blockAcknowledge _ hfull => exact iff_of_false nofun fun h => Nat.not_lt.mpr hfull h.2
  | accept hsends | refuse hsends => cases hsends.endpoint?_eq
  | miss hat hnot =>
    obtain rfl := Option.some.inj hat
    exact iff_of_false nofun (by simp [hnot])

theorem Step.cloned_iff {endpoint : Nat} (hstep : Step channel (.clone endpoint) next outcome)
    (added : Nat) : outcome = .cloned added ↔
      channel.holds endpoint = true ∧ added = channel.endpoints.length := by
  cases hstep with
  | clone hholds => rw [Outcome.cloned.injEq, and_iff_right hholds, eq_comm]
  | accept hsends | refuse hsends => cases hsends.endpoint?_eq
  | miss hat hnot =>
    obtain rfl := Option.some.inj hat
    exact iff_of_false nofun (by simp [hnot])

theorem Step.dropped_iff {endpoint : Nat} (hstep : Step channel (.drop endpoint) next outcome) :
    outcome = .dropped endpoint ↔ channel.holds endpoint = true := by
  cases hstep with
  | drop hholds => exact iff_of_true rfl hholds
  | accept hsends | refuse hsends => cases hsends.endpoint?_eq
  | miss hat hnot =>
    obtain rfl := Option.some.inj hat
    exact iff_of_false nofun (by simp [hnot])

/-- An operation at an endpoint fails exactly if the endpoint is not held. -/
theorem Step.gone_iff {endpoint : Nat} (hstep : Step channel operation next outcome)
    (hat : operation.endpoint? = some endpoint) :
    outcome = .gone ↔ channel.holds endpoint = false := by
  cases hstep with
  | miss hat' hnot =>
    obtain rfl := Option.some.inj (hat.symm.trans hat')
    exact iff_of_true rfl hnot
  | accept hsends | refuse hsends => simp [hsends.endpoint?_eq] at hat
  | receive hholds | exhaust hholds | blockReceive hholds | acknowledge hholds
  | blockAcknowledge hholds | clone hholds | drop hholds =>
    obtain rfl := Option.some.inj hat
    exact iff_of_false nofun (by simp [hholds])
  | _ => cases hat

theorem Step.blocked_iff (hstep : Step channel operation next outcome) :
    outcome = .blocked ↔
      match operation with
      | .send _ => channel.isOpen = true ∧ channel.isHeld = true ∧
          channel.capacity ≤ channel.queue.length
      | .receive endpoint => channel.holds endpoint = true ∧ channel.isOpen = true ∧
          channel.queue = []
      | .acknowledge endpoint => channel.holds endpoint = true ∧ channel.capacity ≤ channel.acks
      | _ => False := by
  cases hstep with
  | blockSend hopen hheld hfull => exact iff_of_true rfl ⟨hopen, hheld, hfull⟩
  | blockReceive hholds hqueue hopen => exact iff_of_true rfl ⟨hholds, hopen, hqueue⟩
  | blockAcknowledge hholds hfull => exact iff_of_true rfl ⟨hholds, hfull⟩
  | accept hsends hopen hheld hroom =>
    rcases hsends with rfl | rfl
    · exact iff_of_false nofun id
    · exact iff_of_false nofun fun h => Nat.not_lt.mpr h.2.2 hroom
  | refuse hsends _ hends =>
    rcases hsends with rfl | rfl
    · exact iff_of_false nofun id
    · exact iff_of_false nofun fun ⟨hopen, hheld, _⟩ => by simp [hopen, hheld] at hends
  | receive _ hqueue => exact iff_of_false nofun fun h => by simp [hqueue] at h
  | exhaust _ _ hclosed => exact iff_of_false nofun fun h => by simp [hclosed] at h
  | acknowledge _ hroom => exact iff_of_false nofun fun h => Nat.not_lt.mpr h.2 hroom
  | miss hat hnot =>
    cases operation with
    | receive | acknowledge =>
      obtain rfl := Option.some.inj hat
      exact iff_of_false nofun fun h => by simp [hnot] at h
    | send => cases hat
    | _ => exact iff_of_false nofun id
  | _ => exact iff_of_false nofun id

/-- Whether an operation with this outcome has done nothing. -/
def Outcome.isIdle : Outcome α → Bool
  | .returned _ | .refused _ | .uncredited | .disconnected | .exhausted _ | .blocked | .gone => true
  | _ => false

theorem Step.unchanged (hstep : Step channel operation next outcome)
    (hidle : outcome.isIdle = true) : next = channel := by
  cases hstep with
  | accept | credit | close | receive | acknowledge | clone | drop => cases hidle
  | _ => rfl

theorem Step.internal {fault : Fault} (hstep : Step channel operation next outcome)
    (hrefused : outcome = .refused fault) : fault.kind = .internal := by
  cases hstep with
  | refuse _ cause =>
    obtain rfl := Outcome.refused.inj hrefused
    cases cause <;> rfl
  | _ => cases hrefused

/-! ## What has come of the operations so far -/

/-- The value that was accepted, if one was. -/
def Outcome.accepted? : Outcome α → Option α
  | .accepted value => some value
  | _ => none

/-- The value that was received, if one was, and the endpoint that it went to. -/
def Outcome.delivery? : Outcome α → Option (Nat × α)
  | .received endpoint value => some (endpoint, value)
  | _ => none

/-- Whether an acknowledgment was sent. -/
def Outcome.isAcknowledged : Outcome α → Bool
  | .acknowledged _ => true
  | _ => false

/-- Whether an acknowledgment was taken. -/
def Outcome.isCredited : Outcome α → Bool
  | .credited => true
  | _ => false

/-- Whether there is one more endpoint. -/
def Outcome.isCloned : Outcome α → Bool
  | .cloned _ => true
  | _ => false

/-- The values that were accepted, in order. -/
def acceptedOf (past : List (Outcome α)) : List α := past.filterMap Outcome.accepted?

/-- The values that were received, in order, and the endpoint that each of them went to. -/
def deliveriesOf (past : List (Outcome α)) : List (Nat × α) := past.filterMap Outcome.delivery?

/-- The values that were received, in order. -/
def receivedOf (past : List (Outcome α)) : List α := (deliveriesOf past).map Prod.snd

/-- How many acknowledgments were sent. -/
def sentOf (past : List (Outcome α)) : Nat := past.countP Outcome.isAcknowledged

/-- How many acknowledgments were taken. -/
def takenOf (past : List (Outcome α)) : Nat := past.countP Outcome.isCredited

/-- How many endpoints there have been, the first one included. -/
def endpointsOf (past : List (Outcome α)) : Nat := past.countP Outcome.isCloned + 1

/-- Whether the channel was closed. -/
def Closed (past : List (Outcome α)) : Prop := .closed ∈ past

/-- Whether there is an endpoint, the first one or a clone, and it was not dropped. -/
def Held (past : List (Outcome α)) (endpoint : Nat) : Prop :=
  (endpoint = 0 ∨ .cloned endpoint ∈ past) ∧ .dropped endpoint ∉ past

/-- Whether every endpoint was dropped. -/
def Deserted (past : List (Outcome α)) : Prop := ∀ endpoint, ¬ Held past endpoint

variable {capacity : Nat} {past : List (Outcome α)}

theorem acceptedOf_concat (past : List (Outcome α)) (outcome : Outcome α) :
    acceptedOf (past ++ [outcome]) = acceptedOf past ++ outcome.accepted?.toList :=
  (List.filterMap_append ..).trans (congrArg _ (by cases outcome <;> rfl))

theorem deliveriesOf_concat (past : List (Outcome α)) (outcome : Outcome α) :
    deliveriesOf (past ++ [outcome]) = deliveriesOf past ++ outcome.delivery?.toList :=
  (List.filterMap_append ..).trans (congrArg _ (by cases outcome <;> rfl))

theorem receivedOf_concat (past : List (Outcome α)) (outcome : Outcome α) :
    receivedOf (past ++ [outcome]) =
      receivedOf past ++ (outcome.delivery?.map Prod.snd).toList := by
  rw [receivedOf, deliveriesOf_concat, List.map_append, ← Option.toList_map]
  rfl

theorem sentOf_concat (past : List (Outcome α)) (outcome : Outcome α) :
    sentOf (past ++ [outcome]) = sentOf past + outcome.isAcknowledged.toNat :=
  (List.countP_append ..).trans (congrArg _ (by cases outcome <;> rfl))

theorem takenOf_concat (past : List (Outcome α)) (outcome : Outcome α) :
    takenOf (past ++ [outcome]) = takenOf past + outcome.isCredited.toNat :=
  (List.countP_append ..).trans (congrArg _ (by cases outcome <;> rfl))

theorem endpointsOf_concat (past : List (Outcome α)) (outcome : Outcome α) :
    endpointsOf (past ++ [outcome]) = endpointsOf past + outcome.isCloned.toNat := by
  rw [endpointsOf, endpointsOf, List.countP_append, Nat.add_right_comm]
  exact congrArg _ (by cases outcome <;> rfl)

theorem mem_concat {found : Outcome α} :
    found ∈ past ++ [outcome] ↔ found ∈ past ∨ found = outcome := by
  rw [List.mem_append, List.mem_singleton]

/-! ## The state and the past -/

/-- Whether the state of a channel is what has become of it. -/
structure Recorded (capacity : Nat) (past : List (Outcome α)) (channel : Channel α) : Prop where
  capacity_eq : channel.capacity = Nat.max capacity 1
  isRead : channel.isRead = true
  /-- What was accepted has been received or waits. -/
  accepted_eq : acceptedOf past = receivedOf past ++ channel.queue
  queue_le : channel.queue.length ≤ channel.capacity
  /-- The acknowledgments that were sent have been taken or wait. -/
  sent_eq : sentOf past = takenOf past + channel.acks
  acks_le : channel.acks ≤ channel.capacity
  closed_iff : channel.isOpen = false ↔ Closed past
  holds_iff : ∀ endpoint, channel.holds endpoint = true ↔ Held past endpoint
  endpoints_eq : channel.endpoints.length = endpointsOf past
  /-- A new endpoint is none that was dropped before. -/
  lt_of_dropped : ∀ endpoint, .dropped endpoint ∈ past → endpoint < channel.endpoints.length

theorem recorded_create (capacity : Nat) : Recorded capacity [] (create capacity : Channel α) where
  capacity_eq := rfl
  isRead := rfl
  accepted_eq := rfl
  queue_le := Nat.zero_le _
  sent_eq := rfl
  acks_le := Nat.zero_le _
  closed_iff := ⟨nofun, nofun⟩
  holds_iff endpoint := by
    cases endpoint with
    | zero => exact ⟨fun _ => ⟨Or.inl rfl, nofun⟩, fun _ => rfl⟩
    | succ other => exact ⟨nofun, fun h => h.1.elim nofun nofun⟩
  endpoints_eq := rfl
  lt_of_dropped _ := nofun

/-- Values go into the queue behind the others, and come out in front. -/
theorem accepted_of_step (hstep : Step channel operation next outcome)
    (h : acceptedOf past = receivedOf past ++ channel.queue) :
    acceptedOf (past ++ [outcome]) = receivedOf (past ++ [outcome]) ++ next.queue := by
  rw [acceptedOf_concat, receivedOf_concat, h]
  cases hstep with
  | receive hholds hqueue => simp [Outcome.accepted?, Outcome.delivery?, hqueue]
  | _ => simp [Outcome.accepted?, Outcome.delivery?, Channel.close, Channel.drop]

theorem queue_le_of_step (hstep : Step channel operation next outcome)
    (h : channel.queue.length ≤ channel.capacity) : next.queue.length ≤ next.capacity := by
  cases hstep with
  | accept hsends hopen hheld hroom =>
    rw [List.length_append]
    exact hroom
  | receive hholds hqueue =>
    rw [hqueue] at h
    exact Nat.le_of_succ_le h
  | _ => exact h

theorem sent_of_step (hstep : Step channel operation next outcome)
    (h : sentOf past = takenOf past + channel.acks) :
    sentOf (past ++ [outcome]) = takenOf (past ++ [outcome]) + next.acks := by
  rw [sentOf_concat, takenOf_concat, h]
  cases hstep with
  | credit hacks =>
    simp only [Outcome.isAcknowledged, Outcome.isCredited, Bool.toNat_false, Bool.toNat_true]
    omega
  | _ => rfl

theorem acks_le_of_step (hstep : Step channel operation next outcome)
    (h : channel.acks ≤ channel.capacity) : next.acks ≤ next.capacity := by
  cases hstep with
  | credit => exact Nat.le_trans (Nat.sub_le _ _) h
  | acknowledge hholds hroom => exact hroom
  | _ => exact h

theorem closed_of_step (hstep : Step channel operation next outcome)
    (h : channel.isOpen = false ↔ Closed past) :
    next.isOpen = false ↔ Closed (past ++ [outcome]) := by
  rw [Closed, mem_concat]
  cases hstep with
  | close => exact ⟨fun _ => Or.inr rfl, fun _ => rfl⟩
  | _ => exact h.trans ⟨Or.inl, fun hclosed => hclosed.resolve_right nofun⟩

/-- Other outcomes leave the endpoints as they are. -/
theorem held_concat (hcloned : ∀ endpoint, outcome ≠ .cloned endpoint)
    (hdropped : ∀ endpoint, outcome ≠ .dropped endpoint) (endpoint : Nat) :
    Held (past ++ [outcome]) endpoint ↔ Held past endpoint := by
  rw [Held, mem_concat, mem_concat, or_iff_left (hcloned endpoint).symm,
    or_iff_left (hdropped endpoint).symm]
  rfl

theorem lt_of_holds {endpoint : Nat} (h : channel.holds endpoint = true) :
    endpoint < channel.endpoints.length := by
  by_contra hbeyond
  rw [holds, List.getD_eq_default _ _ (Nat.le_of_not_lt hbeyond)] at h
  cases h

/-- A clone is one more endpoint. -/
theorem held_of_clone (h : ∀ endpoint, channel.holds endpoint = true ↔ Held past endpoint)
    (hnew : .dropped channel.endpoints.length ∉ past) (endpoint : Nat) :
    (channel.endpoints ++ [true]).getD endpoint false = true ↔
      Held (past ++ [.cloned channel.endpoints.length]) endpoint := by
  have hpast : Held (past ++ [.cloned channel.endpoints.length]) endpoint ↔
      (endpoint = channel.endpoints.length ∨ endpoint = 0 ∨ .cloned endpoint ∈ past) ∧
        .dropped endpoint ∉ past := by
    simp only [Held, mem_concat, Outcome.cloned.injEq, reduceCtorEq, or_false]
    tauto
  rw [hpast]
  rcases Nat.lt_trichotomy endpoint channel.endpoints.length with hlt | rfl | hgt
  · rw [List.getD_append _ _ _ _ hlt]
    refine (h endpoint).trans (and_congr_left fun _ => ?_)
    exact ⟨Or.inr, fun heither => heither.resolve_left (Nat.ne_of_lt hlt)⟩
  · rw [List.getD_append_right _ _ _ _ (Nat.le_refl _), Nat.sub_self]
    exact ⟨fun _ => ⟨Or.inl rfl, hnew⟩, fun _ => rfl⟩
  · -- There is no endpoint beyond the new one.
    have hbeyond : ¬ Held past endpoint := fun hheld =>
      Nat.lt_asymm hgt (lt_of_holds ((h endpoint).mpr hheld))
    rw [List.getD_eq_default _ _ (List.length_append ▸ hgt)]
    refine ⟨nofun, fun ⟨heither, hkept⟩ => absurd ⟨?_, hkept⟩ hbeyond⟩
    exact heither.resolve_left (Nat.ne_of_gt hgt)

/-- A dropped endpoint is not held any more, and the others are held as before. -/
theorem held_of_drop (h : ∀ endpoint, channel.holds endpoint = true ↔ Held past endpoint)
    {dropped : Nat} (hheld : channel.holds dropped = true) (endpoint : Nat) :
    (channel.drop dropped).holds endpoint = true ↔ Held (past ++ [.dropped dropped]) endpoint := by
  have hpast : Held (past ++ [.dropped dropped]) endpoint ↔
      Held past endpoint ∧ endpoint ≠ dropped := by
    simp only [Held, mem_concat, Outcome.dropped.injEq, reduceCtorEq, or_false, not_or]
    tauto
  show (channel.endpoints.set dropped false).getD endpoint false = true ↔ _
  rw [hpast, getD_set (lt_of_holds hheld)]
  by_cases hsame : endpoint = dropped
  · rw [if_pos hsame]
    exact ⟨nofun, fun hboth => absurd hsame hboth.2⟩
  · rw [if_neg hsame]
    exact (h endpoint).trans (and_iff_left hsame).symm

theorem holds_of_step (hstep : Step channel operation next outcome)
    (h : ∀ endpoint, channel.holds endpoint = true ↔ Held past endpoint)
    (hlt : ∀ endpoint, .dropped endpoint ∈ past → endpoint < channel.endpoints.length)
    (endpoint : Nat) : next.holds endpoint = true ↔ Held (past ++ [outcome]) endpoint := by
  cases hstep with
  | clone => exact held_of_clone h (fun hmem => Nat.lt_irrefl _ (hlt _ hmem)) endpoint
  | drop hholds => exact held_of_drop h hholds endpoint
  | _ => refine (h endpoint).trans (held_concat ?_ ?_ endpoint).symm <;> exact nofun

theorem endpoints_of_step (hstep : Step channel operation next outcome)
    (h : channel.endpoints.length = endpointsOf past) :
    next.endpoints.length = endpointsOf (past ++ [outcome]) := by
  rw [endpointsOf_concat, ← h]
  cases hstep with
  | clone => exact List.length_append
  | drop => exact List.length_set
  | _ => rfl

theorem lt_of_dropped_of_step (hstep : Step channel operation next outcome)
    (h : ∀ endpoint, .dropped endpoint ∈ past → endpoint < channel.endpoints.length)
    (endpoint : Nat) (hmem : .dropped endpoint ∈ past ++ [outcome]) :
    endpoint < next.endpoints.length := by
  rw [mem_concat] at hmem
  cases hstep with
  | clone =>
    rw [List.length_append]
    exact Nat.lt_add_right 1 (h endpoint (hmem.resolve_right nofun))
  | drop hholds =>
    rw [Channel.drop, List.length_set]
    rcases hmem with hbefore | hnow
    · exact h endpoint hbefore
    · cases hnow
      exact lt_of_holds hholds
  | _ => exact h endpoint (hmem.resolve_right nofun)

/-- Every step keeps the state and the past in agreement. -/
theorem Recorded.step (h : Recorded capacity past channel)
    (hstep : Step channel operation next outcome) :
    Recorded capacity (past ++ [outcome]) next where
  capacity_eq := by cases hstep <;> exact h.capacity_eq
  isRead := by cases hstep <;> exact h.isRead
  accepted_eq := accepted_of_step hstep h.accepted_eq
  queue_le := queue_le_of_step hstep h.queue_le
  sent_eq := sent_of_step hstep h.sent_eq
  acks_le := acks_le_of_step hstep h.acks_le
  closed_iff := closed_of_step hstep h.closed_iff
  holds_iff := holds_of_step hstep h.holds_iff h.lt_of_dropped
  endpoints_eq := endpoints_of_step hstep h.endpoints_eq
  lt_of_dropped := lt_of_dropped_of_step hstep h.lt_of_dropped

theorem after_concat (channel : Channel α) (operations : List (Operation α))
    (operation : Operation α) :
    channel.after (operations ++ [operation]) =
      ((channel.after operations).perform operation).1 := by
  rw [after, List.foldl_append]
  rfl

theorem outcomes_concat (channel : Channel α) (operations : List (Operation α))
    (operation : Operation α) :
    channel.outcomes (operations ++ [operation]) =
      channel.outcomes operations ++ [((channel.after operations).perform operation).2] := by
  induction operations generalizing channel with
  | nil => rfl
  | cons first rest ih => exact congrArg _ (ih _)

/-- So do all operations, whatever they are. -/
theorem recorded_after (capacity : Nat) (operations : List (Operation α)) :
    Recorded capacity ((create capacity).outcomes operations)
      ((create capacity).after operations) := by
  induction operations using List.reverseRecOn with
  | nil => exact recorded_create capacity
  | append_singleton operations operation ih =>
    rw [outcomes_concat, after_concat]
    exact ih.step (step_perform ih.isRead operation)

/-! ## The next operation -/

/-- The values that were accepted and have not been received, in order. -/
def waitingOf (past : List (Outcome α)) : List α :=
  (acceptedOf past).drop (deliveriesOf past).length

theorem length_waitingOf (past : List (Outcome α)) :
    (waitingOf past).length = (acceptedOf past).length - (receivedOf past).length := by
  rw [waitingOf, List.length_drop, receivedOf, List.length_map]

/-- Whether an operation has to wait: a value or an acknowledgment for a slot, and an endpoint for a
value. -/
def Delayed (capacity : Nat) (past : List (Outcome α)) : Operation α → Prop
  | .send _ => ¬ Closed past ∧ ¬ Deserted past ∧ (waitingOf past).length = Nat.max capacity 1
  | .receive endpoint => Held past endpoint ∧ ¬ Closed past ∧ waitingOf past = []
  | .acknowledge endpoint => Held past endpoint ∧ sentOf past = takenOf past + Nat.max capacity 1
  | _ => False

/-- What comes of the next operation on a channel, by what has come of those before. -/
structure Orderly (capacity : Nat) (past : List (Outcome α)) (channel : Channel α) : Prop where
  /-- Each value is received once, and in the order in which they were accepted. -/
  inOrder : receivedOf past <+: acceptedOf past
  /-- Those that were not received wait, as long as the channel is open. -/
  queued_eq : ¬ Closed past →
    channel.queued = (acceptedOf past).length - (receivedOf past).length
  queued_le : channel.queued ≤ Nat.max capacity 1
  /-- No more acknowledgments are taken than were sent. -/
  taken_le : takenOf past ≤ sentOf past
  /-- A value is accepted if a slot is free, neither on a closed channel nor on a deserted one. -/
  accepted_iff : ∀ operation value, (channel.perform operation).2 = .accepted value ↔
    operation.Sends value ∧ ¬ Closed past ∧ ¬ Deserted past ∧
      (waitingOf past).length < Nat.max capacity 1
  /-- If none is free, the value that was offered comes back. -/
  returned_iff : ∀ value other, (channel.perform (.trySend value)).2 = .returned other ↔
    value = other ∧ ¬ Closed past ∧ ¬ Deserted past ∧
      (waitingOf past).length = Nat.max capacity 1
  /-- No value is sent on a closed or deserted channel, and this is an internal fault. -/
  refused_iff : ∀ operation value, operation.Sends value →
    ((∃ fault, (channel.perform operation).2 = .refused fault) ↔ Closed past ∨ Deserted past)
  internal : ∀ operation fault, (channel.perform operation).2 = .refused fault →
    fault.kind = .internal
  /-- An endpoint receives the first of those that wait, also from a closed channel. -/
  received_iff : ∀ endpoint value,
    (channel.perform (.receive endpoint)).2 = .received endpoint value ↔
      Held past endpoint ∧ (waitingOf past).head? = some value
  /-- There are no values any more exactly if the channel is closed and all were received. -/
  exhausted_iff : ∀ endpoint, (channel.perform (.receive endpoint)).2 = .exhausted endpoint ↔
    Held past endpoint ∧ Closed past ∧ waitingOf past = []
  /-- An acknowledgment that was sent is taken, also if its endpoint has been dropped since. -/
  credited_iff : (channel.perform .takeCredit).2 = .credited ↔ takenOf past < sentOf past
  /-- So the loss of all endpoints is only told when all acknowledgments have been taken. -/
  disconnected_iff : (channel.perform .takeCredit).2 = .disconnected ↔
    takenOf past = sentOf past ∧ Deserted past
  /-- An acknowledgment is sent if a slot is free for it, also on a closed channel. -/
  acknowledged_iff : ∀ endpoint,
    (channel.perform (.acknowledge endpoint)).2 = .acknowledged endpoint ↔
      Held past endpoint ∧ sentOf past < takenOf past + Nat.max capacity 1
  /-- A clone is an endpoint that there has not been before. -/
  cloned_iff : ∀ endpoint added, (channel.perform (.clone endpoint)).2 = .cloned added ↔
    Held past endpoint ∧ added = endpointsOf past
  dropped_iff : ∀ endpoint, (channel.perform (.drop endpoint)).2 = .dropped endpoint ↔
    Held past endpoint
  /-- Nothing is done at an endpoint that is not held. -/
  gone_iff : ∀ operation endpoint, operation.endpoint? = some endpoint →
    ((channel.perform operation).2 = .gone ↔ ¬ Held past endpoint)
  blocked_iff : ∀ operation,
    (channel.perform operation).2 = .blocked ↔ Delayed capacity past operation
  /-- What is not done changes nothing. -/
  unchanged : ∀ operation, (channel.perform operation).2.isIdle = true →
    (channel.perform operation).1 = channel

namespace Recorded

variable (h : Recorded capacity past channel)

include h

theorem waitingOf_eq : waitingOf past = channel.queue := by
  have hlength : (deliveriesOf past).length = (receivedOf past).length := (List.length_map _).symm
  rw [waitingOf, h.accepted_eq, hlength, List.drop_left]

theorem isOpen_iff : channel.isOpen = true ↔ ¬ Closed past := by
  rw [← h.closed_iff, Bool.not_eq_false]

theorem isHeld_iff_not : channel.isHeld = true ↔ ¬ Deserted past := by
  rw [isHeld_iff, Deserted, not_forall_not]
  exact exists_congr h.holds_iff

theorem deserted_iff : channel.isHeld = false ↔ Deserted past := by
  rw [← not_iff_not, Bool.not_eq_false]
  exact h.isHeld_iff_not

theorem full_iff :
    channel.capacity ≤ channel.queue.length ↔ (waitingOf past).length = Nat.max capacity 1 := by
  rw [h.waitingOf_eq, ← h.capacity_eq]
  exact ⟨Nat.le_antisymm h.queue_le, fun heq => Nat.le_of_eq heq.symm⟩

theorem not_holds_iff (endpoint : Nat) :
    channel.holds endpoint = false ↔ ¬ Held past endpoint := by
  rw [← h.holds_iff, Bool.not_eq_true]

/-- What comes of an operation is known from what has come of those before it. -/
theorem orderly : Orderly capacity past channel where
  inOrder := ⟨channel.queue, h.accepted_eq.symm⟩
  queued_eq hopen := by
    rw [queued, if_pos (h.isOpen_iff.mpr hopen), ← h.waitingOf_eq, length_waitingOf]
  queued_le := by
    rw [queued, ← h.capacity_eq]
    split
    · exact h.queue_le
    · exact Nat.zero_le _
  taken_le := h.sent_eq ▸ Nat.le_add_right _ _
  accepted_iff operation value := by
    rw [← h.isOpen_iff, ← h.isHeld_iff_not, h.waitingOf_eq, ← h.capacity_eq]
    exact (step_perform h.isRead operation).accepted_iff value
  returned_iff value other := by
    rw [← h.isOpen_iff, ← h.isHeld_iff_not, ← h.full_iff]
    exact (step_perform h.isRead (.trySend value)).returned_iff other
  refused_iff operation value hsends := by
    rw [← h.closed_iff, ← h.deserted_iff]
    exact (step_perform h.isRead operation).refused_iff hsends
  internal operation fault hrefused := (step_perform h.isRead operation).internal hrefused
  received_iff endpoint value := by
    rw [← h.holds_iff, h.waitingOf_eq]
    exact (step_perform h.isRead (.receive endpoint)).received_iff value
  exhausted_iff endpoint := by
    rw [← h.holds_iff, ← h.closed_iff, h.waitingOf_eq]
    exact (step_perform h.isRead (.receive endpoint)).exhausted_iff
  credited_iff := by
    rw [h.sent_eq, Nat.lt_add_right_iff_pos]
    exact (step_perform h.isRead .takeCredit).credited_iff
  disconnected_iff := by
    rw [h.sent_eq, Nat.left_eq_add, ← h.deserted_iff]
    exact (step_perform h.isRead .takeCredit).disconnected_iff
  acknowledged_iff endpoint := by
    rw [← h.holds_iff, h.sent_eq, ← h.capacity_eq, Nat.add_lt_add_iff_left]
    exact (step_perform h.isRead (.acknowledge endpoint)).acknowledged_iff
  cloned_iff endpoint added := by
    rw [← h.holds_iff, ← h.endpoints_eq]
    exact (step_perform h.isRead (.clone endpoint)).cloned_iff added
  dropped_iff endpoint := by
    rw [← h.holds_iff]
    exact (step_perform h.isRead (.drop endpoint)).dropped_iff
  gone_iff operation endpoint hat := by
    rw [← h.not_holds_iff]
    exact (step_perform h.isRead operation).gone_iff hat
  blocked_iff operation := by
    rw [(step_perform h.isRead operation).blocked_iff]
    cases operation with
    | send value => rw [Delayed, ← h.isOpen_iff, ← h.isHeld_iff_not, ← h.full_iff]
    | receive endpoint => rw [Delayed, ← h.holds_iff, ← h.isOpen_iff, h.waitingOf_eq]
    | acknowledge endpoint =>
      have hfull : channel.capacity ≤ channel.acks ↔ channel.acks = channel.capacity :=
        ⟨Nat.le_antisymm h.acks_le, fun heq => Nat.le_of_eq heq.symm⟩
      rw [Delayed, ← h.holds_iff, h.sent_eq, ← h.capacity_eq, Nat.add_left_cancel_iff, hfull]
    | _ => rfl
  unchanged operation := (step_perform h.isRead operation).unchanged

end Recorded

/-- Whatever was done to a channel of any capacity, it has delivered what was sent in order and
once, and goes on to do so. -/
theorem orderly_after (capacity : Nat) (operations : List (Operation α)) :
    Orderly capacity ((create capacity).outcomes operations)
      ((create capacity).after operations) :=
  (recorded_after capacity operations).orderly

/-- A value that comes back, and an acknowledgment that is taken when all endpoints are dropped. -/
example : (create 1).outcomes [.trySend 7, .trySend 8, .clone 0, .drop 0, .receive 1,
      .acknowledge 1, .drop 1, .takeCredit, .takeCredit, .send 9] =
    [.accepted 7, .returned 8, .cloned 1, .dropped 0, .received 1 7,
      .acknowledged 1, .dropped 1, .credited, .disconnected,
      .refused SendFault.abandoned.fault] := by decide

end LoadBench.Channel
