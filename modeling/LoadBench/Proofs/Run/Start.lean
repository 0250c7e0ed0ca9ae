/-
  LoadBench.Proofs.Run.Start

  A run that has started begins right (`begins_start`): each queue has a fresh
  channel with as many slots as the plan says, and each worker an endpoint of its
  own.  The endpoints of a queue are numbered by how often all queues have had
  their turn, so worker `w` has endpoint `w / queues` of queue `w % queues`.
-/

import LoadBench.Proofs.Run.Kept

namespace LoadBench

variable {α κ τ ω φ : Type}

/-! ## Endpoints and workers -/

/-- A queue has an endpoint if it has a worker with its number. -/
theorem lt_ceilDiv_iff {workers queue queues endpoint : Nat} (hpos : 0 < queues) :
    endpoint < ceilDiv (workers - queue) queues ↔ endpoint * queues + queue < workers := by
  rw [ceilDiv, Nat.lt_div_iff_mul_lt hpos]
  omega

namespace Crew

variable {queues workers : Nat}

theorem getElem?_endpoints {queue : Nat} (hqueue : queue < queues) :
    (endpoints queues workers)[queue]? = some (ceilDiv (workers - queue) queues) := by
  rw [endpoints, List.getElem?_map, List.getElem?_range hqueue, Option.map_some]

theorem holds_assign {depot : Depot α} {queue : Nat} {channel : Channel (Batch α)}
    (hchannel : depot.channels[queue]? = some channel) (hqueue : queue < queues) (endpoint : Nat) :
    (depot.assign (endpoints queues workers)).holds queue endpoint =
      decide (endpoint < ceilDiv (workers - queue) queues) := by
  have hassigned : (depot.assign (endpoints queues workers)).channels[queue]? =
      some (channel.assign (ceilDiv (workers - queue) queues)) := by
    rw [Depot.assign, List.getElem?_zipWith, hchannel, getElem?_endpoints hqueue]
  rw [Depot.holds_of_channel hassigned, Channel.holds, Channel.assign, List.getD_eq_getElem?_getD,
    List.getElem?_replicate]
  by_cases hlt : endpoint < ceilDiv (workers - queue) queues <;> simp [hlt]

/-- No two workers are hired for one place. -/
theorem places_hire (handler : Handler α κ τ ω) (loadEnabled : Bool) (queues workers : Nat) :
    ((hire handler queues workers loadEnabled).map Worker.place).Nodup := by
  rw [hire, List.map_map]
  refine List.Nodup.map ?_ List.nodup_range
  intro worker other hplace
  obtain ⟨hqueue, hendpoint⟩ := Prod.mk.inj hplace
  dsimp only at hqueue hendpoint
  -- The place of a worker is its number divided by that of the queues, with the remainder.
  rw [← Nat.div_add_mod worker queues, ← Nat.div_add_mod other queues, hqueue, hendpoint]

/-- Each worker that is hired has its endpoint, and each endpoint its worker. -/
theorem staffed_start {handler : Handler α κ τ ω} {loadEnabled : Bool} {floor : Floor α ω}
    {crew : Crew α κ τ ω} (h : start handler workers loadEnabled floor = .ok crew) :
    crew.Staffed := by
  unfold start at h
  dsimp only at h
  split at h
  · cases h
  · next hne =>
    obtain rfl := Except.ok.inj h
    have hpos : 0 < floor.depot.channels.length := Nat.pos_of_ne_zero hne
    refine ⟨places_hire handler loadEnabled _ workers, ?_, ?_⟩
    · intro worker hworker _
      obtain ⟨number, hnumber, rfl⟩ := List.mem_map.mp hworker
      have hlt := Nat.mod_lt number hpos
      dsimp only
      rw [holds_assign (List.getElem?_eq_getElem hlt) hlt, decide_eq_true_iff,
        lt_ceilDiv_iff hpos, Nat.mul_comm, Nat.div_add_mod]
      exact List.mem_range.mp hnumber
    · intro queue endpoint hheld
      have hqueue : queue < floor.depot.channels.length := by
        by_contra hge
        dsimp only at hheld
        rw [Depot.holds, Depot.assign, List.getElem?_zipWith,
          List.getElem?_eq_none (Nat.le_of_not_lt hge)] at hheld
        cases hheld
      dsimp only at hheld
      rw [holds_assign (List.getElem?_eq_getElem hqueue) hqueue, decide_eq_true_iff,
        lt_ceilDiv_iff hpos] at hheld
      -- The worker with the number `endpoint * queues + queue` has it.
      refine ⟨_, List.mem_map.mpr ⟨_, List.mem_range.mpr hheld, rfl⟩, ?_, rfl⟩
      refine Prod.ext ?_ ?_
      · show (endpoint * floor.depot.channels.length + queue) % floor.depot.channels.length = queue
        rw [Nat.mul_add_mod_self_right, Nat.mod_eq_of_lt hqueue]
      · show (endpoint * floor.depot.channels.length + queue) / floor.depot.channels.length =
          endpoint
        rw [Nat.mul_comm, Nat.mul_add_div hpos, Nat.div_eq_of_lt hqueue, Nat.add_zero]

end Crew

/-! ## The start of a run -/

namespace Run

/-- What a run starts with. -/
theorem start_eq {workload : Workload α κ τ ω φ} {settings : Settings} {world : ω} {input : φ}
    {run : Run α κ τ ω φ} (h : start workload settings world input = .ok run) :
    run.duration = settings.duration ∧ run.input = input ∧
      run.crew.workers = Crew.hire workload.handler settings.queueCount settings.workers
        settings.loadEnabled ∧
      run.crew.floor.alarm = Alarm.quiet ∧
      run.crew.floor.ledger = Ledger.create settings.burnIn := by
  unfold start at h
  split at h
  · cases h
  · next crew hcrew =>
    obtain rfl := Except.ok.inj h
    unfold Crew.start at hcrew
    dsimp only at hcrew
    split at hcrew
    · cases hcrew
    · obtain rfl := Except.ok.inj hcrew
      refine ⟨rfl, rfl, ?_, rfl, rfl⟩
      show Crew.hire _ (List.replicate settings.queueCount _).length _ _ = _
      rw [List.length_replicate]

/-- A run that has started begins right. -/
theorem begins_start {workload : Workload α κ τ ω φ} {settings : Settings} {world : ω} {input : φ}
    {run : Run α κ τ ω φ} (h : start workload settings world input = .ok run) :
    run.Begins settings.plan (workload.routing settings.queueCount) := by
  unfold start at h
  split at h
  · cases h
  · next crew hcrew =>
    obtain rfl := Except.ok.inj h
    have hstaffed := Crew.staffed_start hcrew
    unfold Crew.start at hcrew
    dsimp only at hcrew
    split at hcrew
    · cases hcrew
    · next hne =>
      obtain rfl := Except.ok.inj hcrew
      have hslots : 0 < Nat.max settings.workersPerQueue 1 := Nat.le_max_right _ _
      refine
        { queues_pos := ?_
          slots_pos := hslots
          stage_eq := rfl
          scan_eq := rfl
          width := ?_
          fresh := ?_
          clean := BatchPool.clean_empty _
          staffed := hstaffed
          idle := ?_ }
      · refine Nat.pos_of_ne_zero fun hzero => hne ?_
        show (List.replicate settings.queueCount _).length = 0
        rw [List.length_replicate]
        exact hzero
      · show (List.zipWith Channel.assign (List.replicate _ _) _).length = settings.queueCount
        rw [List.length_zipWith, List.length_replicate, Crew.endpoints, List.length_map,
          List.length_range]
        show min settings.queueCount (List.replicate _ _).length = _
        rw [List.length_replicate, Nat.min_self]
      · intro channel hmem
        obtain ⟨queue, hqueue⟩ := List.getElem?_of_mem hmem
        obtain ⟨created, count, hcreated, -, rfl⟩ := List.getElem?_zipWith_eq_some.mp hqueue
        obtain rfl := List.eq_of_mem_replicate (List.mem_of_getElem? hcreated)
        exact { Channel.fresh_create hslots with }
      · intro worker hworker
        obtain ⟨number, -, rfl⟩ := List.mem_map.mp hworker
        rfl

end Run

end LoadBench
