/-
  LoadBench.Proofs.Dispatch.Untimed

  A scan with its depot, next to the scan that reads its input once with a depot of
  its own.  What happens to the two is a list of deals: the scan is served by its
  depot or answered by its input, and between that the depot may change in any
  way, as workers change it.  The one scan is told besides that it is not to stop
  and that its input is not read again.

  Each run of the one scan is a run of the other on the same deals without those
  answers (`follow?_untimed`), and each run of the other comes from one of the
  first (`exists_controlled`).
-/

import LoadBench.Dispatch
import LoadBench.Proofs.Scan.Untimed
import LoadBench.Proofs.Trace

namespace LoadBench

variable {α : Type}

/-- What happens to a scan and its depot. -/
inductive Deal (α : Type) where
  /-- The depot serves the scan, with an acknowledgment of the queue `pick` if it needs one. -/
  | serve (pick : Nat)
  /-- The input answers the scan. -/
  | read (reply : Reply α)
  /-- The scan is told not to stop. -/
  | goOn
  /-- The scan is told whether its input is read again. -/
  | rewind (reply : Reply α)
  /-- The depot is left behind by others than the scan. -/
  | beside (depot : Depot α)

/-- Whether a deal answers what only a scan asks that can be stopped. -/
def Deal.isControl : Deal α → Bool
  | .goOn | .rewind _ => true
  | .serve _ | .read _ | .beside _ => false

namespace Dispatch

/-- What a deal comes to; nothing if the scan does not need it. -/
def deal? : Deal α → Dispatch α → Option (Dispatch α)
  | .serve pick, dispatch => dispatch.serve? pick
  | .read reply, dispatch =>
    match dispatch.scan.request? with
    | some .item =>
      if (Request.item : Request α).admits 0 reply then some (dispatch.answer reply) else none
    | _ => none
  | .goOn, dispatch =>
    match dispatch.scan.request? with
    | some .stop => some (dispatch.answer (.stop false))
    | _ => none
  | .rewind reply, dispatch =>
    match dispatch.scan.request? with
    | some .rewind =>
      if (Request.rewind : Request α).admits 0 reply then some (dispatch.answer reply) else none
    | _ => none
  | .beside depot, dispatch => some { dispatch with depot }

/-- What a scan is given at a deal that is no control: its request, and the depot at that point. -/
def note? : Deal α → Dispatch α → Option (Request α × Depot α)
  | .serve _, dispatch | .read _, dispatch =>
    dispatch.scan.request?.map fun request => (request, dispatch.depot)
  | _, _ => none

/-- Whether a scan has a plan without a deadline, and another one with the same depot reads its input
once. -/
structure Untimed (plan : ScanPlan) (timed once : Dispatch α) : Prop where
  depot_eq : once.depot = timed.depot
  scan : Scan.Untimed plan timed.scan once.scan

variable {plan : ScanPlan} {timed once : Dispatch α}

theorem Untimed.withDepot (h : Untimed plan timed once) (depot : Depot α) :
    Untimed plan { timed with depot } { once with depot } := ⟨rfl, h.scan⟩

section

variable (hmode : plan.mode = .timed false)

include hmode

/-- Both scans make the same of an answer. -/
theorem Untimed.answer (h : Untimed plan timed once) (hplain : ¬timed.scan.Controlled)
    (reply : Reply α) : Untimed plan (timed.answer reply) (once.answer reply) :=
  ⟨h.depot_eq, Scan.untimed_resume hmode h.scan hplain reply⟩

/-- Both scans are served alike, or neither is. -/
theorem Untimed.serve? (h : Untimed plan timed once) (hplain : ¬timed.scan.Controlled)
    (pick : Nat) : Option.Rel (Untimed plan) (timed.serve? pick) (once.serve? pick) := by
  have hsame : ∀ depot reply, Untimed plan (Dispatch.answer { timed with depot } reply)
      (Dispatch.answer { once with depot } reply) :=
    fun depot => (h.withDepot depot).answer hmode hplain
  unfold Dispatch.serve? draw send? credit?
  rw [h.scan.request?_eq hplain, h.depot_eq]
  split
  · exact .some (hsame _ _)
  · next queue batch hrequest =>
    cases timed.depot.offer queue batch with
    | none => exact .none
    | some offered => exact .some (hsame offered.1 (.offered offered.2))
  · split
    · cases timed.depot.takeCredit pick with
      | none => exact .none
      | some taken =>
        obtain ⟨depot, credit⟩ := taken
        cases credit with
        | taken => exact .some (hsame depot (.acknowledged pick))
        | lost => exact .some (hsame depot (.deserted pick))
        | none => exact .none
    · split
      · exact .none
      · exact .some (h.answer hmode hplain .unacknowledged)
  · exact .none

/-- A deal that is no control comes to the same for both scans. -/
theorem Untimed.deal? (h : Untimed plan timed once) (hplain : ¬timed.scan.Controlled)
    {deal : Deal α} (hdeal : deal.isControl = false) :
    Option.Rel (Untimed plan) (Dispatch.deal? deal timed) (Dispatch.deal? deal once) ∧
      note? deal once = note? deal timed := by
  have hrequest := h.scan.request?_eq hplain
  cases deal with
  | goOn | rewind reply => cases hdeal
  | serve pick =>
    refine ⟨h.serve? hmode hplain pick, ?_⟩
    rw [note?, note?, hrequest, h.depot_eq]
  | read reply =>
    constructor
    · rw [Dispatch.deal?, Dispatch.deal?, hrequest]
      split
      · split
        · exact .some (h.answer hmode hplain reply)
        · exact .none
      · exact .none
    · rw [note?, note?, hrequest, h.depot_eq]
  | beside depot => exact ⟨.some (h.withDepot depot), rfl⟩

end

/-! ## Controls -/

/-- A scan that has to be controlled is given nothing else. -/
theorem deal?_of_controlled (hcontrolled : timed.scan.Controlled) {deal : Deal α}
    (hdeal : deal.isControl = false) (hbeside : ∀ depot, deal ≠ .beside depot) :
    deal? deal timed = none := by
  have hrequest : timed.scan.request? = some .stop ∨ timed.scan.request? = some .rewind :=
    hcontrolled.imp Scan.request?_eq_stop.mpr Scan.request?_eq_rewind.mpr
  cases deal with
  | goOn | rewind reply => cases hdeal
  | serve pick =>
    rw [deal?, serve?]
    rcases hrequest with hrequest | hrequest <;> rw [hrequest]
  | read reply =>
    rw [deal?]
    rcases hrequest with hrequest | hrequest <;> rw [hrequest]
  | beside depot => exact absurd rfl (hbeside depot)

theorem deal?_goOn (hphase : timed.scan.phase = .checking) :
    deal? .goOn timed = some (timed.answer (.stop false)) := by
  rw [deal?, Scan.request?_eq_stop.mpr hphase]

theorem deal?_rewind (hphase : timed.scan.phase = .rewinding) {reply : Reply α}
    (hadmits : (Request.rewind : Request α).admits 0 reply = true) :
    deal? (.rewind reply) timed = some (timed.answer reply) := by
  rw [deal?, Scan.request?_eq_rewind.mpr hphase]
  exact if_pos hadmits

/-- A scan that reads its input once is not controlled. -/
theorem Untimed.not_controlled (h : Untimed plan timed once) : ¬once.scan.Controlled := by
  rw [h.scan.once_eq]
  exact Scan.not_controlled_plain timed.scan

theorem deal?_of_plain {dispatch : Dispatch α} (hplain : ¬dispatch.scan.Controlled)
    {deal : Deal α} (hdeal : deal.isControl = true) : deal? deal dispatch = none := by
  obtain ⟨hchecking, hrewinding⟩ := not_or.mp hplain
  cases deal with
  | serve pick | read reply | beside depot => cases hdeal
  | goOn =>
    rw [deal?]
    split
    · next hrequest => exact absurd (Scan.request?_eq_stop.mp hrequest) hchecking
    · rfl
  | rewind reply =>
    rw [deal?]
    split
    · next hrequest => exact absurd (Scan.request?_eq_rewind.mp hrequest) hrewinding
    · rfl

/-- A control leaves behind what reads its input once, as long as the input is not read again. -/
theorem Untimed.control (h : Untimed plan timed once) {deal : Deal α} {next : Dispatch α}
    (hdeal : deal.isControl = true)
    (hrewind : 0 < plan.limit → ∀ reply, deal = .rewind reply → reply = .rewound false)
    (hnext : Dispatch.deal? deal timed = some next) : Untimed plan next once := by
  cases deal with
  | serve pick | read reply | beside depot => cases hdeal
  | goOn =>
    rw [Dispatch.deal?] at hnext
    split at hnext
    · next hrequest =>
      obtain rfl := Option.some.inj hnext
      exact ⟨h.depot_eq, Scan.untimed_checked h.scan (Scan.request?_eq_stop.mp hrequest)⟩
    · cases hnext
  | rewind reply =>
    rw [Dispatch.deal?] at hnext
    split at hnext
    · next hrequest =>
      have hphase := Scan.request?_eq_rewind.mp hrequest
      -- Without a limit the scan would not have asked.
      have hlimit : 0 < plan.limit :=
        Nat.pos_of_ne_zero fun hzero => h.scan.forward hzero hphase
      obtain rfl := hrewind hlimit reply rfl
      obtain rfl := Option.some.inj hnext
      exact ⟨h.depot_eq, Scan.untimed_unrewound h.scan hphase⟩
    · cases hnext

/-- A scan that has to be controlled comes, with one control, to where the other scan stands. -/
theorem Untimed.exists_cleared (h : Untimed plan timed once) :
    ∃ (controls : List (Deal α)) (next : Dispatch α),
      (∀ deal ∈ controls, deal = .goOn ∨ deal = .rewind (.rewound false)) ∧
      follow? Dispatch.deal? controls timed = some next ∧
      noted Dispatch.deal? note? controls timed = [] ∧
      Untimed plan next once ∧ ¬next.scan.Controlled := by
  have hone : ∀ (control : Deal α) (next : Dispatch α),
      control = .goOn ∨ control = .rewind (.rewound false) →
      Dispatch.deal? control timed = some next → ¬next.scan.Controlled →
      ∃ (controls : List (Deal α)) (next : Dispatch α),
        (∀ deal ∈ controls, deal = .goOn ∨ deal = .rewind (.rewound false)) ∧
        follow? Dispatch.deal? controls timed = some next ∧
        noted Dispatch.deal? note? controls timed = [] ∧
        Untimed plan next once ∧ ¬next.scan.Controlled := by
    intro control next hcontrol hdeal hnext
    have hkept : Untimed plan next once := by
      refine h.control ?_ ?_ hdeal
      · rcases hcontrol with rfl | rfl <;> rfl
      · rintro - reply rfl
        exact Deal.rewind.inj (hcontrol.resolve_left nofun)
    refine ⟨[control], next, List.forall_mem_singleton.mpr hcontrol, ?_, ?_, hkept, hnext⟩
    · rw [follow?_cons, hdeal]
      rfl
    · rw [noted_cons hdeal]
      rcases hcontrol with rfl | rfl <;> rfl
  by_cases hcontrolled : timed.scan.Controlled
  · rcases hcontrolled with hphase | hphase
    · refine hone .goOn _ (Or.inl rfl) (deal?_goOn hphase) ?_
      have hresume : timed.scan.resume (.stop false) = timed.scan.readMore := by
        simp only [Scan.resume, hphase, Bool.false_eq_true, if_false]
      rw [Dispatch.answer, hresume]
      exact Scan.not_controlled_readMore timed.scan
    · refine hone (.rewind (.rewound false)) _ (Or.inr rfl) (deal?_rewind hphase rfl) ?_
      have hresume : timed.scan.resume (.rewound false) = timed.scan.finish := by
        simp only [Scan.resume, hphase]
      rw [Dispatch.answer, hresume]
      exact Scan.not_controlled_flushFrom timed.scan 0
  · exact ⟨[], timed, List.forall_mem_nil _, rfl, rfl, h, hcontrolled⟩

theorem filter_controls {controls : List (Deal α)}
    (h : ∀ deal ∈ controls, deal = .goOn ∨ deal = .rewind (.rewound false)) :
    (controls.filter fun deal => !deal.isControl) = [] := by
  refine List.filter_eq_nil_iff.mpr fun deal hmem => ?_
  rcases h deal hmem with rfl | rfl <;> exact Bool.false_ne_true

theorem rewound_controls {controls : List (Deal α)}
    (h : ∀ deal ∈ controls, deal = .goOn ∨ deal = .rewind (.rewound false)) :
    ∀ reply, .rewind reply ∈ controls → reply = .rewound false := by
  intro reply hmem
  rcases h _ hmem with hcontra | hrewind
  · cases hcontra
  · exact Deal.rewind.inj hrewind

/-! ## Runs -/

section

variable (hmode : plan.mode = .timed false)

include hmode

/-- What is no control is done to both scans, or is not done to the one that can be stopped. -/
theorem Untimed.exists_dealt (h : Untimed plan timed once) {deal : Deal α}
    (hdeal : deal.isControl = false) {next : Dispatch α}
    (hnext : Dispatch.deal? deal timed = some next) :
    ∃ other, Dispatch.deal? deal once = some other ∧ note? deal once = note? deal timed ∧
      Untimed plan next other := by
  by_cases hcontrolled : timed.scan.Controlled
  · -- Only others than the scan can do something now.
    by_cases hbeside : ∀ depot, deal ≠ .beside depot
    · rw [deal?_of_controlled hcontrolled hdeal hbeside] at hnext
      cases hnext
    · obtain ⟨depot, hdepot⟩ := not_forall.mp hbeside
      obtain rfl := not_not.mp hdepot
      obtain rfl := Option.some.inj hnext
      exact ⟨_, rfl, rfl, h.withDepot depot⟩
  · obtain ⟨hrel, hnote⟩ := h.deal? hmode hcontrolled hdeal
    rw [hnext] at hrel
    cases hother : Dispatch.deal? deal once with
    | none =>
      rw [hother] at hrel
      cases hrel
    | some other =>
      rw [hother] at hrel
      cases hrel with
      | some hkept => exact ⟨other, rfl, hnote, hkept⟩

/-- A run of the scan that can be stopped, without its controls, is a run of the other. -/
theorem follow?_untimed {deals : List (Deal α)} {final : Dispatch α}
    (h : Untimed plan timed once)
    (hrewind : 0 < plan.limit → ∀ reply, .rewind reply ∈ deals → reply = .rewound false)
    (hdeals : follow? deal? deals timed = some final) :
    ∃ same, follow? deal? (deals.filter fun deal => !deal.isControl) once = some same ∧
      Untimed plan final same ∧
      noted deal? note? (deals.filter fun deal => !deal.isControl) once =
        noted deal? note? deals timed := by
  induction deals generalizing timed once with
  | nil =>
    obtain rfl : timed = final := Option.some.inj hdeals
    exact ⟨once, rfl, h, rfl⟩
  | cons deal rest ih =>
    rw [follow?_cons, Option.bind_eq_some_iff] at hdeals
    obtain ⟨next, hnext, hrest⟩ := hdeals
    have hrewind' : 0 < plan.limit → ∀ reply, .rewind reply ∈ rest → reply = .rewound false :=
      fun hlimit reply hmem => hrewind hlimit reply (List.mem_cons_of_mem _ hmem)
    rw [noted_cons hnext]
    cases hdeal : deal.isControl with
    | true =>
      have hkept := h.control hdeal
        (fun hlimit reply heq => hrewind hlimit reply (heq ▸ List.mem_cons_self)) hnext
      have hnote : note? deal timed = none := by
        cases deal with
        | goOn | rewind reply => rfl
        | serve pick | read reply | beside depot => cases hdeal
      rw [List.filter_cons_of_neg (by simp [hdeal]), hnote]
      exact ih hkept hrewind' hrest
    | false =>
      obtain ⟨other, hother, hnote, hkept⟩ := h.exists_dealt hmode hdeal hnext
      obtain ⟨same, hsame, huntimed, hnotes⟩ := ih hkept hrewind' hrest
      rw [List.filter_cons_of_pos (by simp [hdeal])]
      refine ⟨same, ?_, huntimed, ?_⟩
      · rw [follow?_cons, hother]
        exact hsame
      · rw [noted_cons hother, hnote, hnotes]

/-- A run of the scan that reads its input once is one of the other scan, without its controls. -/
theorem exists_controlled {deals : List (Deal α)} {same : Dispatch α}
    (h : Untimed plan timed once) (hdeals : follow? deal? deals once = some same) :
    ∃ (controlled : List (Deal α)) (final : Dispatch α),
      (controlled.filter fun deal => !deal.isControl) = deals ∧
      (∀ reply, .rewind reply ∈ controlled → reply = .rewound false) ∧
      follow? deal? controlled timed = some final ∧
      noted deal? note? controlled timed = noted deal? note? deals once ∧
      Untimed plan final same ∧ ¬final.scan.Controlled := by
  induction deals generalizing timed once with
  | nil =>
    obtain rfl : once = same := Option.some.inj hdeals
    obtain ⟨controls, final, hcontrols, hfollow, hnoted, hkept, hplain⟩ := h.exists_cleared
    exact ⟨controls, final, filter_controls hcontrols, rewound_controls hcontrols, hfollow, hnoted,
      hkept, hplain⟩
  | cons deal rest ih =>
    rw [follow?_cons, Option.bind_eq_some_iff] at hdeals
    obtain ⟨other, hother, hrest⟩ := hdeals
    have hdeal : deal.isControl = false := by
      by_contra hcontrol
      rw [deal?_of_plain h.not_controlled (Bool.eq_true_of_not_eq_false hcontrol)] at hother
      cases hother
    -- The controls come first, so that the scan needs the same as the other.
    obtain ⟨controls, mid, hcontrols, hfollow, hnoted, hmid, hplain⟩ := h.exists_cleared
    obtain ⟨hrel, hnote⟩ := hmid.deal? hmode hplain hdeal
    cases hnext : deal? deal mid with
    | none =>
      rw [hnext, hother] at hrel
      cases hrel
    | some next =>
      rw [hnext, hother] at hrel
      cases hrel with
      | some hkept =>
      obtain ⟨controlled, final, hfilter, hrewind, hfinal, hnotes, hlast⟩ := ih hkept hrest
      refine ⟨controls ++ deal :: controlled, final, ?_, ?_, ?_, ?_, hlast⟩
      · rw [List.filter_append, filter_controls hcontrols, List.filter_cons_of_pos (by simp [hdeal]),
          hfilter]
        rfl
      · intro reply hmem
        rcases List.mem_append.mp hmem with hmem | hmem
        · exact rewound_controls hcontrols reply hmem
        · rcases List.mem_cons.mp hmem with rfl | hmem
          · cases hdeal
          · exact hrewind reply hmem
      · rw [follow?_append, hfollow]
        show (deal? deal mid).bind _ = _
        rw [hnext]
        exact hfinal
      · rw [noted_append hfollow, hnoted, noted_cons hnext, noted_cons hother, hnote, hnotes]
        rfl

end

/-- A scan without a deadline that is never stopped is the scan that reads its input once, as long as
there is no limit or else no input to be read again.  Whatever the depot and its workers do, both ask
for the same items and offer the same batches with the depot at the same point, and both return the
same, be it a summary or a fault; and each run of either of them is met by one of the other. -/
theorem runs_untimed (plan : ScanPlan) (routing : Routing α) (depot : Depot α)
    (hmode : plan.mode = .timed false) :
    let timed : Dispatch α := ⟨Scan.start plan routing, depot⟩
    let once : Dispatch α := ⟨Scan.start { plan with mode := .once } routing, depot⟩
    (∀ (deals : List (Deal α)) (final : Dispatch α),
      (0 < plan.limit → ∀ reply, .rewind reply ∈ deals → reply = .rewound false) →
      follow? deal? deals timed = some final →
      ∃ same, follow? deal? (deals.filter fun deal => !deal.isControl) once = some same ∧
        same.depot = final.depot ∧
        noted deal? note? (deals.filter fun deal => !deal.isControl) once =
          noted deal? note? deals timed ∧
        ∀ result, final.scan.result? = some result → same.scan.result? = some result) ∧
    ∀ (deals : List (Deal α)) (same : Dispatch α), follow? deal? deals once = some same →
      ∃ (controlled : List (Deal α)) (final : Dispatch α),
        (controlled.filter fun deal => !deal.isControl) = deals ∧
        (∀ reply, .rewind reply ∈ controlled → reply = .rewound false) ∧
        follow? deal? controlled timed = some final ∧
        same.depot = final.depot ∧
        noted deal? note? controlled timed = noted deal? note? deals once ∧
        final.scan.request? = same.scan.request? ∧ final.scan.result? = same.scan.result? := by
  intro timed once
  have hstart : Untimed plan timed once := ⟨rfl, Scan.untimed_start plan routing⟩
  constructor
  · intro deals final hrewind hdeals
    obtain ⟨same, hsame, hkept, hnotes⟩ := follow?_untimed hmode hstart hrewind hdeals
    refine ⟨same, hsame, hkept.depot_eq, hnotes, fun result hresult => ?_⟩
    have hphase := Scan.phase_of_result? hresult
    have hplain : ¬final.scan.Controlled := by
      rintro (hcontra | hcontra) <;> rw [hphase] at hcontra <;> cases hcontra
    rw [hkept.scan.result?_eq hplain, hresult]
  · intro deals same hdeals
    obtain ⟨controlled, final, hfilter, hrewind, hfinal, hnotes, hkept, hplain⟩ :=
      exists_controlled hmode hstart hdeals
    exact ⟨controlled, final, hfilter, hrewind, hfinal, hkept.depot_eq, hnotes,
      (hkept.scan.request?_eq hplain).symm, (hkept.scan.result?_eq hplain).symm⟩

/-- One item under a limit of five, a batch of its own, and an input that is not read again; between
that a worker receives and acknowledges the batch. -/
def oneItem : List (Deal Nat) :=
  [.serve 0, .goOn, .serve 0, .read (.item (some 7)), .serve 0, .serve 0, .goOn, .serve 0,
    .read (.item none), .rewind (.rewound false),
    .beside ⟨[{ Channel.create 1 with acks := 1 }], BatchPool.empty 0⟩, .serve 0]

theorem runs_untimed_oneItem : ∃ same,
    follow? deal? (oneItem.filter fun deal => !deal.isControl)
      ⟨Scan.start ⟨1, 1, 1, 5, .once⟩ fun _ _ => 0, Depot.create 1 1 0⟩ = some same ∧
    same.scan.result? = some (.ok ⟨1, 1, 1, 3, 0, 0⟩) := by
  have hresult : (follow? deal? oneItem
      ⟨Scan.start ⟨1, 1, 1, 5, .timed false⟩ fun _ _ => 0, Depot.create 1 1 0⟩).map
        (fun final => final.scan.result?) = some (some (.ok ⟨1, 1, 1, 3, 0, 0⟩)) := rfl
  obtain ⟨final, hfinal, hreturned⟩ := Option.map_eq_some_iff.mp hresult
  have hruns := @runs_untimed Nat ⟨1, 1, 1, 5, .timed false⟩ (fun _ _ => 0) (Depot.create 1 1 0) rfl
  have hrewind : ∀ reply, Deal.rewind reply ∈ oneItem → reply = .rewound false := by
    intro reply hmem
    simpa [oneItem] using hmem
  obtain ⟨same, hsame, -, -, hboth⟩ := hruns.1 oneItem final (fun _ => hrewind) hfinal
  exact ⟨same, hsame, hboth _ hreturned⟩

end Dispatch

end LoadBench
