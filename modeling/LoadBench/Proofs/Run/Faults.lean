/-
  LoadBench.Proofs.Run.Faults

  How a run ends when something goes wrong.  Whatever fails leads to a fault that
  is raised: a worker raises its own, and a scan whose input cannot be read, or
  that breaks off, cannot end well any more (`Judged`).  So a run that ends well
  is one in which nothing has failed, and any other one ends with the fault that
  was raised first.
-/

import LoadBench.Proofs.Run.Halt
import LoadBench.Proofs.Run.Queues

namespace LoadBench

variable {α κ τ ω φ : Type}

namespace Run

variable {workload : Workload α κ τ ω φ} {clock : Clock} {run next : Run α κ τ ω φ}
  {occurrence : Occurrence} {notes : List (Note α)} {plan : ScanPlan} {routing : Routing α}

/-! ## What a scan is answered -/

/-- What fails at the scan is an input that cannot be read, or makes the scan break off. -/
theorem breaksOff_of_isFailure (hstage : run.stage = .scanning) {request : Request α}
    {reply : Reply α} {depot : Depot α} {input : φ} (hrequest : run.scan.request? = some request)
    (hanswers : Answers workload clock run request reply depot input) {note : Note α}
    (hnote : run.mainNote? workload = some note)
    (hfails : note.isFailure run.scan.plan.queues = true) :
    run.scan.BreaksOff reply ∨ ∃ fault, reply = .unreadable fault := by
  unfold mainNote? at hnote
  simp only [hstage, hrequest] at hnote
  cases hanswers with
  | item hnext =>
    rw [hnext] at hnote
    obtain rfl := Option.some.inj hnote
    left
    show run.scan.plan.queues ≤ run.scan.routing (run.scan.itemsRead + 1) _
    simpa [Note.isFailure] using hfails
  | ended hnext =>
    rw [hnext] at hnote
    cases hnote
  | unreadable hnext => exact Or.inr ⟨_, rfl⟩
  | @rewind _ again hagain =>
    rw [hagain] at hnote
    cases again with
    | error fault => exact Or.inr ⟨fault, rfl⟩
    | ok again => cases hnote
  | @send queue batch channel hchannel =>
    simp only [hchannel, Option.map_some, Option.some.injEq] at hnote
    subst hnote
    left
    cases houtcome : (channel.offer batch).2 with
    | refused => exact trivial
    | accepted | full => simp [Note.isFailure, houtcome] at hfails
  | stop | draw | credit | desert | goOn => cases hnote

/-- A scan that has returned well is not spoiled. -/
theorem Kept.not_spoiled (h : run.Kept plan routing) (hstage : run.stage = .scanning)
    {tally : ScanTally} (hresult : run.scan.result? = some (.ok tally)) : ¬run.scan.Spoiled := by
  obtain ⟨exchange, hkept, hpicture⟩ := h.pictured (Or.inl hstage)
  rw [← hpicture.scan_eq] at hresult ⊢
  obtain ⟨-, -, -, -, -, hfault⟩ := hkept.ended_well hresult
  rintro (⟨hspoiled, -⟩ | ⟨fault, hreturned⟩)
  · rw [hfault] at hspoiled
    cases hspoiled
  · rw [Scan.phase_of_result? hresult] at hreturned
    cases hreturned

/-! ## The invariant -/

/-- Whether what has failed in a run is on its way to the result of the run. -/
structure Judged (queues : Nat) (notes : List (Note α)) (run : Run α κ τ ω φ) : Prop where
  failed : ∀ note ∈ notes, note.isFailure queues = true →
    faultsOf notes ≠ [] ∨ run.stage = .scanning ∧ run.scan.Spoiled ∨ run.stage = .panicked
  returned : run.stage ≠ .scanning → run.stage ≠ .panicked →
    ∃ result, run.scan.result? = some result ∧
      ∀ fault, result = .error fault → faultsOf notes ≠ []
  lost : run.stage = .panicked → .lost ∈ notes
  ended : ∀ result, run.stage = .over result → run.crew.isDone = true ∧ result = run.verdict

/-- A scan that is answered is judged. -/
theorem Judged.turn (h : run.Judged plan.queues notes) (hkept : run.Kept plan routing)
    (hstage : run.stage = .scanning) {request : Request α} {reply : Reply α} {depot : Depot α}
    {input : φ} (hrequest : run.scan.request? = some request)
    (hanswers : Answers workload clock run request reply depot input) :
    (run.served reply depot input).Judged plan.queues
      (notes ++ (run.mainNote? workload).toList) where
  failed := by
    intro note hmem hfails
    have hspoiled := hkept.spoiled_turn hstage hrequest hanswers
    obtain ⟨-, hplan, -⟩ := hkept.turn hstage hrequest hanswers
    rcases List.mem_append.mp hmem with hmem | hmem
    · rcases h.failed note hmem hfails with hfaults | ⟨-, hscan⟩ | hgone
      · exact Or.inl (faultsOf_append_ne_nil hfaults _)
      · exact Or.inr (Or.inl ⟨hstage, hspoiled (Or.inl hscan)⟩)
      · rw [hstage] at hgone
        cases hgone
    · rw [← hplan] at hfails
      have hbreaks :=
        breaksOff_of_isFailure hstage hrequest hanswers (Option.mem_toList.mp hmem) hfails
      exact Or.inr (Or.inl ⟨hstage, hspoiled (Or.inr hbreaks)⟩)
  returned := fun hscanned => absurd hstage hscanned
  lost := by
    intro hgone
    have hcontra : run.stage = .panicked := hgone
    rw [hstage] at hcontra
    cases hcontra
  ended := by
    intro result hover
    have hcontra : run.stage = .over result := hover
    rw [hstage] at hcontra
    cases hcontra

/-- A scan that has returned is judged: what has failed is raised now, unless it was before. -/
theorem Judged.scanned (h : run.Judged plan.queues notes) (hkept : run.Kept plan routing)
    (hstage : run.stage = .scanning) (hrequest : run.scan.request? = none) :
    run.scanned.Judged plan.queues (notes ++ (run.mainNote? workload).toList) := by
  obtain ⟨hstage', hscan, -, -⟩ := run.scanned_eq
  obtain ⟨result, hresult⟩ := exists_result hrequest
  have hnote : run.mainNote? workload = some (.returned run.scan.fault?) := by
    unfold mainNote?
    simp only [hstage, hrequest]
  rw [hnote, Option.toList_some]
  -- A fault that the scan returns is raised.
  have hraised : ∀ fault, result = .error fault →
      faultsOf (notes ++ [Note.returned run.scan.fault?]) ≠ [] := by
    rintro fault rfl
    rw [faultsOf_append, Scan.fault?, hresult]
    exact fun hnil => nomatch (List.append_eq_nil_iff.mp hnil).2
  refine ⟨?_, ?_, ?_, ?_⟩
  · intro note hmem hfails
    left
    cases result with
    | error fault => exact hraised fault rfl
    | ok tally =>
      rcases List.mem_append.mp hmem with hmem | hmem
      · rcases h.failed note hmem hfails with hfaults | ⟨-, hspoiled⟩ | hgone
        · exact faultsOf_append_ne_nil hfaults _
        · exact absurd hspoiled (hkept.not_spoiled hstage hresult)
        · rw [hstage] at hgone
          cases hgone
      · rw [List.mem_singleton.mp hmem, Scan.fault?, hresult] at hfails
        cases hfails
  · intro _ _
    rw [hscan]
    exact ⟨result, hresult, hraised⟩
  · intro hgone
    rw [hstage'] at hgone
    cases hgone
  · intro result hover
    rw [hstage'] at hover
    cases hover

/-- A note that fails at the workers is a fault that is raised. -/
theorem faultsOf_ne_nil {note : Note α} (hmem : note ∈ notes) {fault : Fault}
    (hfault : note.fault? = some fault) : faultsOf notes ≠ [] := by
  intro hnil
  have hfound : fault ∈ faultsOf notes := List.mem_filterMap.mpr ⟨note, hmem, hfault⟩
  rw [hnil] at hfound
  cases hfound

/-- What a worker did is noted, and so is the fault it raised. -/
theorem fault?_of_mem_journalOf (h : faultsOf notes = []) {index : Nat}
    {deed : Deed α} (hmem : deed ∈ journalOf index notes) : deed.fault? index = none := by
  obtain ⟨note, hnote, hdeed⟩ := List.mem_filterMap.mp hmem
  by_contra hraised
  obtain ⟨fault, hfault⟩ := Option.ne_none_iff_exists'.mp hraised
  cases note with
  | did worker queue done =>
    simp only [Note.deedOf?] at hdeed
    split at hdeed
    · next hworker =>
      obtain rfl := Option.some.inj hdeed
      subst hworker
      exact faultsOf_ne_nil hnote hfault h
    · cases hdeed
  | _ => cases hdeed

/-- A step of a worker is judged. -/
theorem Judged.work (h : run.Judged plan.queues notes) {index : Nat}
    {worker worker' : Worker α κ τ} {floor : Floor α ω}
    (hworker : run.crew.workers[index]? = some worker)
    (hstep : Worker.Step workload.handler clock worker run.crew.floor worker' floor) :
    Judged plan.queues (notes ++ ((worker.deed? workload.handler clock run.crew.floor).map
        (Note.did index worker.queue)).toList)
      { run with crew := ⟨run.crew.workers.set index worker', floor⟩ } := by
  refine ⟨?_, ?_, ?_, ?_⟩
  · intro note hmem hfails
    rcases List.mem_append.mp hmem with hold | hnew
    · rcases h.failed note hold hfails with hfaults | hscan | hgone
      · exact Or.inl (faultsOf_append_ne_nil hfaults _)
      · exact Or.inr (Or.inl hscan)
      · exact Or.inr (Or.inr hgone)
    · obtain ⟨deed, -, rfl⟩ := Option.map_eq_some_iff.mp (Option.mem_toList.mp hnew)
      obtain ⟨fault, hfault⟩ := Option.isSome_iff_exists.mp hfails
      exact Or.inl (faultsOf_ne_nil hmem hfault)
  · intro hscanned hgoing
    obtain ⟨result, hresult, hraised⟩ := h.returned hscanned hgoing
    exact ⟨result, hresult, fun fault herror => faultsOf_append_ne_nil (hraised fault herror) _⟩
  · intro hgone
    exact List.mem_append_left _ (h.lost hgone)
  · -- No worker makes a step in a run that is over.
    intro result hover
    have hdone := List.all_eq_true.mp (h.ended result hover).1 worker (List.mem_of_getElem? hworker)
    rw [(Worker.effect_of_step hstep).isDone] at hdone
    cases hdone

/-- A run that goes on behind its scan is judged. -/
theorem Judged.behind (h : run.Judged plan.queues notes)
    (hstage : run.stage = .closing ∨ run.stage = .joining) (hscan : next.scan = run.scan)
    (hnext : next.stage = .joining ∨
      next.stage = .over next.verdict ∧ next.crew.isDone = true) :
    next.Judged plan.queues notes where
  failed := by
    intro note hmem hfails
    rcases h.failed note hmem hfails with hfaults | ⟨hcontra, -⟩ | hcontra
    · exact Or.inl hfaults
    · rcases hstage with hstage | hstage <;> rw [hstage] at hcontra <;> cases hcontra
    · rcases hstage with hstage | hstage <;> rw [hstage] at hcontra <;> cases hcontra
  returned := by
    intro _ _
    rw [hscan]
    apply h.returned
    · intro hcontra
      rcases hstage with hstage | hstage <;> rw [hstage] at hcontra <;> cases hcontra
    · intro hcontra
      rcases hstage with hstage | hstage <;> rw [hstage] at hcontra <;> cases hcontra
  lost := by
    intro hgone
    rcases hnext with hjoining | ⟨hover, -⟩
    · rw [hjoining] at hgone
      cases hgone
    · rw [hover] at hgone
      cases hgone
  ended := by
    intro result hover
    rcases hnext with hjoining | ⟨hended, hdone⟩
    · rw [hjoining] at hover
      cases hover
    · rw [hended] at hover
      exact ⟨hdone, (RunStage.over.inj hover).symm⟩

/-- Whatever occurs is judged. -/
theorem judged_occur (h : run.Judged plan.queues notes) (hkept : run.Kept plan routing)
    (hoccur : run.occur? workload occurrence = some next) :
    next.Judged plan.queues (notes ++ (run.note? workload occurrence).toList) := by
  cases occurrence with
  | period timestamp took previous =>
    obtain rfl := Option.some.inj hoccur
    have hfaults : faultsOf (notes ++ [Note.period timestamp took previous]) = faultsOf notes :=
      filterMap_concat_of_none notes rfl
    refine ⟨?_, ?_, ?_, h.ended⟩
    · intro note hmem hfails
      rw [note?, Option.toList_some, hfaults]
      rcases List.mem_append.mp hmem with hmem | hmem
      · exact h.failed note hmem hfails
      · rw [note?, Option.toList_some, List.mem_singleton] at hmem
        subst hmem
        cases hfails
    · rw [note?, Option.toList_some, hfaults]
      exact h.returned
    · exact fun hgone => List.mem_append_left _ (h.lost hgone)
  | move clock move =>
    have hstep := step?_sound (show run.step? workload clock move = some next from hoccur)
    cases hstep with
    | turn hstage hrequest hanswers => exact h.turn hkept hstage hrequest hanswers
    | lose hstage hrequest hnext =>
      have hnote : run.mainNote? workload = some .lost := by
        unfold mainNote?
        simp only [hstage, hrequest, hnext]
      refine ⟨fun _ _ _ => Or.inr (Or.inr rfl), fun _ hgoing => absurd rfl hgoing, ?_, ?_⟩
      · intro _
        rw [note?, hnote]
        exact List.mem_append_right _ (List.mem_singleton.mpr rfl)
      · intro result hover
        cases hover
    | scanned hstage hrequest => exact h.scanned hkept hstage hrequest
    | close hstage =>
      rw [note?, mainNote?_behind (Or.inl hstage), Option.toList_none, List.append_nil]
      exact h.behind (Or.inl hstage) rfl (Or.inl rfl)
    | join hstage hdone =>
      rw [note?, mainNote?_behind (Or.inr hstage), Option.toList_none, List.append_nil]
      exact h.behind (Or.inr hstage) rfl (Or.inr ⟨rfl, hdone⟩)
    | work hworker hstep =>
      rw [note?, hworker, Option.bind_some]
      exact h.work hworker hstep

end Run

end LoadBench
