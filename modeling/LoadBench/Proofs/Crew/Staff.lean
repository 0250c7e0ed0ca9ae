/-
  LoadBench.Proofs.Crew.Staff

  Workers and the endpoints of their queues.  A worker holds its endpoint until
  it is done, and no two workers share one, so a queue is listened to as long as
  one of its workers is not done (`Crew.Staffed`).

  To the channels a step of a worker does one of four things (`Worker.Effect`):
  nothing, or it receives a batch, acknowledges one, or drops its endpoint.
-/

import LoadBench.Proofs.Crew.Step
import Mathlib.Data.List.Nodup

namespace LoadBench

variable {α κ τ ω : Type}

/-! ## Endpoints that are held -/

/-- Whether an endpoint of a queue is held. -/
def Depot.holds (depot : Depot α) (queue endpoint : Nat) : Bool :=
  (depot.channels[queue]?).any fun channel => channel.holds endpoint

/-- An acknowledgment changes nothing about a channel but how many of them wait. -/
theorem Channel.acknowledge_eq {channel acknowledged : Channel α} {endpoint : Nat}
    {outcome : Acknowledgment} (h : channel.acknowledge endpoint = (acknowledged, outcome)) :
    acknowledged = { channel with acks := acknowledged.acks } := by
  unfold acknowledge at h
  split at h
  · rw [← (Prod.mk.inj h).1]
  · split at h
    · rw [← (Prod.mk.inj h).1]
    · split at h <;> rw [← (Prod.mk.inj h).1]

/-- An acknowledgment that has been sent waits, as long as somebody takes acknowledgments. -/
theorem Channel.acknowledge_sent {channel acknowledged : Channel α} {endpoint : Nat}
    (h : channel.acknowledge endpoint = (acknowledged, .sent)) (hread : channel.isRead = true) :
    acknowledged = { channel with acks := channel.acks + 1 } := by
  unfold acknowledge at h
  rw [if_neg (not_not_intro hread)] at h
  split at h
  · cases (Prod.mk.inj h).2
  · split at h
    · cases (Prod.mk.inj h).2
    · exact (Prod.mk.inj h).1.symm

namespace Depot

variable {depot : Depot α}

theorem holds_of_channel {queue : Nat} {channel : Channel (Batch α)}
    (hchannel : depot.channels[queue]? = some channel) (endpoint : Nat) :
    depot.holds queue endpoint = channel.holds endpoint := by
  rw [holds, hchannel, Option.any_some]

/-- Endpoints are held as before when a channel changes otherwise. -/
theorem holds_set {queue : Nat} {channel other : Channel (Batch α)}
    (hchannel : depot.channels[queue]? = some channel)
    (hendpoints : other.endpoints = channel.endpoints) {after : Depot α}
    (hafter : after.channels = depot.channels.set queue other) (chosen endpoint : Nat) :
    after.holds chosen endpoint = depot.holds chosen endpoint := by
  by_cases hsame : queue = chosen
  · subst hsame
    have hlt := (List.getElem?_eq_some_iff.mp hchannel).1
    have hset : after.channels[queue]? = some other := by
      rw [hafter, List.getElem?_set_self hlt]
    rw [holds_of_channel hset, holds_of_channel hchannel, Channel.holds, Channel.holds, hendpoints]
  · rw [holds, holds, hafter, List.getElem?_set_ne hsame]

/-- A dropped endpoint is not held, and the others are held as before. -/
theorem holds_drop (depot : Depot α) (queue endpoint chosen other : Nat) :
    (depot.drop queue endpoint).holds chosen other =
      (depot.holds chosen other && decide ((chosen, other) ≠ (queue, endpoint))) := by
  have hfound : (depot.drop queue endpoint).channels[chosen]? =
      if queue = chosen then (depot.channels[chosen]?).map fun channel => channel.drop endpoint
      else depot.channels[chosen]? := by
    rw [drop, modifyChannel, List.getElem?_modify]
    split <;> simp
  rw [holds, holds, hfound]
  -- Only the endpoints of this queue change, and of them only this one.
  by_cases hqueue : queue = chosen
  · subst hqueue
    rw [if_pos rfl]
    cases depot.channels[queue]? with
    | none => rfl
    | some channel =>
      rw [Option.map_some, Option.any_some, Option.any_some, Channel.drop, Channel.holds,
        Channel.holds]
      by_cases hendpoint : other = endpoint
      · subst hendpoint
        have hdropped : (channel.endpoints.set other false).getD other false = false := by
          rw [List.getD_eq_getElem?_getD, List.getElem?_set_self']
          cases channel.endpoints[other]? <;> rfl
        rw [hdropped]
        simp
      · simp [List.getD_eq_getElem?_getD, List.getElem?_set_ne (Ne.symm hendpoint), hendpoint]
  · rw [if_neg hqueue]
    simp [Ne.symm hqueue]

end Depot

/-! ## What a step does to the channels -/

namespace Worker

/-- Where a worker receives. -/
def place (worker : Worker α κ τ) : Nat × Nat := (worker.queue, worker.endpoint)

/-- Whether a worker has a batch to acknowledge. -/
def holdsBatch (worker : Worker α κ τ) : Bool :=
  match worker.stage with
  | .holding _ | .working _ _ | .recording _ _ | .releasing _ | .crediting | .unwinding => true
  | _ => false

/-- What a worker receives in a step. -/
def receipt (before after : Worker α κ τ) : List (Batch α) :=
  match before.stage, after.stage with
  | .receiving, .holding batch => [batch]
  | _, _ => []

/-- A worker that has a batch before a step, or none behind it, has received nothing. -/
theorem receipt_eq_nil {before after : Worker α κ τ}
    (h : before.holdsBatch = true ∨ after.holdsBatch = false ∨
      before.holdsBatch = after.holdsBatch) : before.receipt after = [] := by
  unfold receipt
  split
  · next batch hbefore hafter =>
    -- A worker that receives has no batch before, and one behind.
    rw [holdsBatch, holdsBatch, hbefore, hafter] at h
    simp at h
  · rfl

/-- What a step of a worker does to the channels. -/
inductive Effect (worker : Worker α κ τ) (depot : Depot α) (worker' : Worker α κ τ)
    (depot' : Depot α) : Prop where
  | none (hdone : worker.isDone = false) (hdone' : worker'.isDone = false)
      (hholds : worker'.holdsBatch = worker.holdsBatch)
      (hchannels : depot'.channels = depot.channels)
  | receive {channel : Channel (Batch α)} {batch : Batch α} {rest : List (Batch α)}
      (hdone : worker.isDone = false) (hdone' : worker'.isDone = false)
      (hstage : worker.stage = .receiving) (hstage' : worker'.stage = .holding batch)
      (hchannel : depot.channels[worker.queue]? = some channel)
      (hqueue : channel.queue = batch :: rest)
      (hchannels : depot'.channels =
        depot.channels.set worker.queue { channel with queue := rest })
  | acknowledge {channel acknowledged : Channel (Batch α)}
      (hdone : worker.isDone = false) (hdone' : worker'.isDone = false)
      (hholds : worker.holdsBatch = true) (hidle : worker'.holdsBatch = false)
      (hchannel : depot.channels[worker.queue]? = some channel)
      (hsent : channel.acknowledge worker.endpoint = (acknowledged, .sent))
      (hchannels : depot'.channels = depot.channels.set worker.queue acknowledged)
  | drop (hdone : worker.isDone = false) (hdone' : worker'.isDone = true)
      (hidle : worker.holdsBatch = false) (hidle' : worker'.holdsBatch = false)
      (hchannels : depot'.channels = (depot.drop worker.queue worker.endpoint).channels)

variable {handler : Handler α κ τ ω} {clock : Clock} {worker worker' : Worker α κ τ}
  {floor floor' : Floor α ω}

theorem depot_raise? (floor : Floor α ω) (fault : Option Fault) :
    (floor.raise? fault).depot = floor.depot := by
  cases fault <;> rfl

/-- A worker stays where it is. -/
theorem place_of_step (h : Step handler clock worker floor worker' floor') :
    worker'.place = worker.place := by
  cases h <;> rfl

theorem effect_of_step (h : Step handler clock worker floor worker' floor') :
    Effect worker floor.depot worker' floor'.depot := by
  cases h with
  | prepare hstage hprepare =>
    refine .none ?_ rfl ?_ ?_
    · rw [isDone, hstage]
    · rw [holdsBatch, holdsBatch, hstage]
    · rw [depot_raise?]
      rfl
  | receive hstage hchannel hholds hqueue =>
    refine .receive ?_ rfl hstage rfl hchannel hqueue rfl
    rw [isDone, hstage]
  | acknowledge hstage hchannel hsent =>
    rcases hstage with ⟨hstage, rfl⟩ | ⟨hstage, rfl⟩ <;>
      refine .acknowledge ?_ rfl ?_ rfl hchannel hsent rfl
    · rw [isDone, hstage]
    · rw [holdsBatch, hstage]
    · rw [isDone, hstage]
    · rw [holdsBatch, hstage]
  | leave hstage =>
    refine .drop ?_ rfl ?_ rfl rfl
    · rw [isDone, hstage]
    · rw [holdsBatch, hstage]
  | close hstage hfinish =>
    refine .drop ?_ rfl ?_ rfl rfl
    · rw [isDone, hstage]
    · rw [holdsBatch, hstage]
  | exhaust hstage | skip hstage | start hstage | go hstage | finish hstage | fail hstage
  | crash hstage | record hstage | overflow hstage | release hstage =>
    refine .none ?_ rfl ?_ rfl
    · rw [isDone, hstage]
    · rw [holdsBatch, holdsBatch, hstage]
      rfl

end Worker

namespace Worker

variable {handler : Handler α κ τ ω} {clock : Clock} {worker worker' : Worker α κ τ}
  {floor floor' : Floor α ω}

/-- Batches that nobody uses stay without items. -/
theorem clean_of_step (h : Step handler clock worker floor worker' floor')
    (hclean : floor.depot.pool.Clean) : floor'.depot.pool.Clean := by
  cases h with
  | prepare hstage hprepare =>
    rw [depot_raise?]
    exact hclean
  | release hstage => exact BatchPool.clean_release hclean _
  | _ => exact hclean

/-- A worker that has ended makes no step. -/
theorem Effect.isDone {depot depot' : Depot α} (h : Effect worker depot worker' depot') :
    worker.isDone = false := by
  cases h <;> assumption

/-- A step of a worker opens or closes no channel. -/
theorem Effect.flags {depot depot' : Depot α} (h : Effect worker depot worker' depot')
    {channel' : Channel (Batch α)} (hmem : channel' ∈ depot'.channels) :
    ∃ channel ∈ depot.channels,
      channel'.isOpen = channel.isOpen ∧ channel'.isRead = channel.isRead := by
  cases h with
  | none hdone hdone' hholds hchannels => exact ⟨channel', hchannels ▸ hmem, rfl, rfl⟩
  | receive hdone hdone' hstage hstage' hchannel hqueue hchannels =>
    rw [hchannels] at hmem
    rcases List.mem_or_eq_of_mem_set hmem with hold | rfl
    · exact ⟨channel', hold, rfl, rfl⟩
    · exact ⟨_, List.mem_of_getElem? hchannel, rfl, rfl⟩
  | acknowledge hdone hdone' hholds hidle hchannel hsent hchannels =>
    rw [hchannels] at hmem
    rcases List.mem_or_eq_of_mem_set hmem with hold | rfl
    · exact ⟨channel', hold, rfl, rfl⟩
    · rw [Channel.acknowledge_eq hsent]
      exact ⟨_, List.mem_of_getElem? hchannel, rfl, rfl⟩
  | drop hdone hdone' hidle hidle' hchannels =>
    rw [hchannels] at hmem
    obtain ⟨i, hi⟩ := List.getElem?_of_mem hmem
    rw [Depot.drop, Depot.modifyChannel, List.getElem?_modify] at hi
    obtain ⟨channel, hchannel, heq⟩ := Option.map_eq_some_iff.mp hi
    refine ⟨channel, List.mem_of_getElem? hchannel, ?_⟩
    split at heq <;> subst heq <;> exact ⟨rfl, rfl⟩

end Worker

/-! ## The staff -/

namespace Crew

/-- How many workers of a queue have a batch to acknowledge. -/
def heldOn (crew : Crew α κ τ ω) (queue : Nat) : Nat :=
  crew.workers.countP fun worker => decide (worker.queue = queue) && worker.holdsBatch

/-- The workers hold their endpoints until they are done, and nobody else holds one. -/
structure Staffed (crew : Crew α κ τ ω) : Prop where
  places : (crew.workers.map Worker.place).Nodup
  held : ∀ worker ∈ crew.workers, worker.isDone = false →
    crew.floor.depot.holds worker.queue worker.endpoint = true
  staffed : ∀ queue endpoint, crew.floor.depot.holds queue endpoint = true →
    ∃ worker ∈ crew.workers, worker.place = (queue, endpoint) ∧ worker.isDone = false

variable {crew : Crew α κ τ ω} {worker worker' : Worker α κ τ} {floor : Floor α ω} {index : Nat}

/-- Workers that stay where they are are at the same places. -/
theorem places_set (hworker : crew.workers[index]? = some worker)
    (hplace : worker'.place = worker.place) :
    (crew.workers.set index worker').map Worker.place = crew.workers.map Worker.place := by
  refine List.ext_getElem? fun i => ?_
  rw [List.getElem?_map, List.getElem?_map, List.getElem?_set]
  by_cases hsame : index = i
  · subst hsame
    rw [if_pos rfl, if_pos (List.getElem?_eq_some_iff.mp hworker).1, hworker, Option.map_some,
      Option.map_some, hplace]
  · rw [if_neg hsame]

/-- A worker at the place of another is that worker. -/
theorem Staffed.index_eq (h : crew.Staffed) (hworker : crew.workers[index]? = some worker)
    {i : Nat} {other : Worker α κ τ} (hother : crew.workers[i]? = some other)
    (hplace : other.place = worker.place) : i = index := by
  have hlt : i < (crew.workers.map Worker.place).length := by
    rw [List.length_map]
    exact (List.getElem?_eq_some_iff.mp hother).1
  -- No two workers are at one place.
  refine (List.getElem?_inj hlt h.places).mp ?_
  rw [List.getElem?_map, List.getElem?_map, hother, hworker, Option.map_some, Option.map_some,
    hplace]

/-- Endpoints are held as before, and no worker has become done: the staff is as before. -/
theorem Staffed.set (h : crew.Staffed) (hworker : crew.workers[index]? = some worker)
    (hplace : worker'.place = worker.place) (hdone : worker.isDone = false)
    (hdone' : worker'.isDone = false)
    (hholds : ∀ queue endpoint,
      floor.depot.holds queue endpoint = crew.floor.depot.holds queue endpoint) :
    Staffed ⟨crew.workers.set index worker', floor⟩ := by
  have hmem := List.mem_of_getElem? hworker
  have hlt := (List.getElem?_eq_some_iff.mp hworker).1
  refine ⟨?_, ?_, ?_⟩
  · show ((crew.workers.set index worker').map Worker.place).Nodup
    rw [places_set hworker hplace]
    exact h.places
  · intro other hother hotherDone
    show floor.depot.holds other.queue other.endpoint = true
    rw [hholds]
    rcases List.mem_or_eq_of_mem_set hother with hold | rfl
    · exact h.held other hold hotherDone
    · obtain ⟨hqueue, hendpoint⟩ := Prod.mk.inj hplace
      rw [hqueue, hendpoint]
      exact h.held worker hmem hdone
  · intro queue endpoint hheld
    have hbefore : crew.floor.depot.holds queue endpoint = true := by rw [← hholds]; exact hheld
    obtain ⟨other, hother, hotherPlace, hotherDone⟩ := h.staffed queue endpoint hbefore
    obtain ⟨i, hi⟩ := List.getElem?_of_mem hother
    -- The endpoint is held by the worker that changes, or by another one, which is still there.
    by_cases hsame : i = index
    · subst hsame
      obtain rfl : worker = other := Option.some.inj (hworker.symm.trans hi)
      exact ⟨worker', List.mem_set hlt worker', hplace.trans hotherPlace, hdone'⟩
    · refine ⟨other, ?_, hotherPlace, hotherDone⟩
      refine List.mem_of_getElem? (i := i) ?_
      rw [List.getElem?_set_ne (Ne.symm hsame)]
      exact hi

/-- A worker that is done has dropped its endpoint: the others are as before. -/
theorem Staffed.drop (h : crew.Staffed) (hworker : crew.workers[index]? = some worker)
    (hplace : worker'.place = worker.place) (hdone' : worker'.isDone = true)
    (hholds : ∀ queue endpoint, floor.depot.holds queue endpoint =
      (crew.floor.depot.drop worker.queue worker.endpoint).holds queue endpoint) :
    Staffed ⟨crew.workers.set index worker', floor⟩ := by
  refine ⟨?_, ?_, ?_⟩
  · show ((crew.workers.set index worker').map Worker.place).Nodup
    rw [places_set hworker hplace]
    exact h.places
  · intro other hother hotherDone
    show floor.depot.holds other.queue other.endpoint = true
    obtain ⟨i, hi⟩ := List.getElem?_of_mem hother
    rcases eq_or_of_getElem?_set hi with ⟨rfl, rfl⟩ | ⟨hsame, hi⟩
    · -- The dropped worker itself is done.
      rw [hdone'] at hotherDone
      cases hotherDone
    · have hne : (other.queue, other.endpoint) ≠ (worker.queue, worker.endpoint) := fun hcontra =>
        hsame (h.index_eq hworker hi hcontra).symm
      rw [hholds, Depot.holds_drop, h.held other (List.mem_of_getElem? hi) hotherDone,
        decide_eq_true hne]
      rfl
  · intro queue endpoint hheld
    have hbefore : floor.depot.holds queue endpoint = true := hheld
    rw [hholds, Depot.holds_drop, Bool.and_eq_true, decide_eq_true_iff] at hbefore
    obtain ⟨other, hother, hotherPlace, hotherDone⟩ := h.staffed queue endpoint hbefore.1
    obtain ⟨i, hi⟩ := List.getElem?_of_mem hother
    have hne : index ≠ i := by
      rintro rfl
      obtain rfl : worker = other := Option.some.inj (hworker.symm.trans hi)
      exact hbefore.2 hotherPlace.symm
    refine ⟨other, List.mem_of_getElem? (i := i) ?_, hotherPlace, hotherDone⟩
    rw [List.getElem?_set_ne hne]
    exact hi

/-- A step of a worker keeps the staff. -/
theorem Staffed.step (h : crew.Staffed) (hworker : crew.workers[index]? = some worker)
    (hplace : worker'.place = worker.place)
    (heffect : Worker.Effect worker crew.floor.depot worker' floor.depot) :
    Staffed ⟨crew.workers.set index worker', floor⟩ := by
  cases heffect with
  | none hdone hdone' hholds hchannels =>
    refine h.set hworker hplace hdone hdone' fun queue endpoint => ?_
    rw [Depot.holds, Depot.holds, hchannels]
  | receive hdone hdone' hstage hstage' hchannel hqueue hchannels =>
    exact h.set hworker hplace hdone hdone' (Depot.holds_set hchannel (by rfl) hchannels)
  | acknowledge hdone hdone' hholds hidle hchannel hsent hchannels =>
    have hendpoints := congrArg Channel.endpoints (Channel.acknowledge_eq hsent)
    exact h.set hworker hplace hdone hdone' (Depot.holds_set hchannel hendpoints hchannels)
  | drop hdone hdone' hidle hidle' hchannels =>
    refine h.drop hworker hplace hdone' fun queue endpoint => ?_
    rw [Depot.holds, Depot.holds, hchannels]

/-- The staff depends on the endpoints of the channels only. -/
theorem Staffed.withFloor (h : crew.Staffed)
    (hholds : ∀ queue endpoint,
      floor.depot.holds queue endpoint = crew.floor.depot.holds queue endpoint) :
    Staffed { crew with floor } := by
  refine ⟨h.places, ?_, ?_⟩
  · intro worker hworker hdone
    show floor.depot.holds worker.queue worker.endpoint = true
    rw [hholds]
    exact h.held worker hworker hdone
  · intro queue endpoint hheld
    refine h.staffed queue endpoint ?_
    rw [← hholds]
    exact hheld

/-! ## Batches that are held -/

/-- A worker that changes changes the number of batches held for its queue only. -/
theorem heldOn_set (hworker : crew.workers[index]? = some worker)
    (hqueue : worker'.queue = worker.queue) (queue : Nat) :
    heldOn (⟨crew.workers.set index worker', floor⟩ : Crew α κ τ ω) queue +
        (if worker.queue = queue ∧ worker.holdsBatch = true then 1 else 0) =
      crew.heldOn queue + if worker.queue = queue ∧ worker'.holdsBatch = true then 1 else 0 := by
  have hset := countP_set_add hworker worker' fun worker =>
    decide (worker.queue = queue) && worker.holdsBatch
  rw [hqueue] at hset
  simpa only [heldOn, Bool.toNat, Bool.cond_eq_ite, Bool.and_eq_true, decide_eq_true_eq] using hset

end Crew

end LoadBench
