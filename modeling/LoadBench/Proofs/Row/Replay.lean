/-
  LoadBench.Proofs.Row.Replay

  The sequential replay of rows, which says what a run over them measures.  One
  row after another is taken; a row that is no command is skipped, and a command
  is executed once and its cursor followed to the end (`Chain`).  Each call is
  counted under its label (`Counts.ofCalls`).

  The replay is defined by what a system under load answers each call, and not by
  how a worker plays its batches; `handler_meets` says that workers that play
  batches of rows do the same.
-/

import LoadBench.Proofs.Crew.Balance
import LoadBench.Row.Playback

namespace LoadBench

/-! ## Calls and answers -/

/-- Whether a system under load accepts every worker, and answers a call the same way whenever and
by whomever it is made. -/
structure Target.Answers {ω : Type} (target : Target ω) (reply : Call → CallOutcome) : Prop where
  connects : ∀ worker world, (target.connect worker world).2 = none
  answers : ∀ worker call world, (target.call worker call world).2 = reply call

/-- The response among the outcomes of a call. -/
def CallOutcome.response? : CallOutcome → Option Response
  | .answered response => some response
  | .failed _ | .panicked => none

namespace Response

/-- Whether a response names a further page of results. Cursor zero names none. -/
def Names (response : Response) (cursor : UInt64) : Prop :=
  response.cursor = some cursor ∧ cursor ≠ 0

/-- Whether a response names no further page. -/
def IsLast (response : Response) : Prop := response.cursor = none ∨ response.cursor = some 0

variable {response : Response}

theorem next?_eq_some_iff {cursor : UInt64} :
    response.next? = some cursor ↔ response.Names cursor := by
  rw [next?, Option.filter_eq_some_iff, decide_eq_true_eq]
  rfl

theorem next?_eq_none_iff : response.next? = none ↔ response.IsLast := by
  rw [next?, Option.filter_eq_none_iff, IsLast]
  cases response.cursor with
  | none => simp
  | some cursor => simp

theorem Names.unique {cursor other : UInt64} (h : response.Names cursor)
    (hother : response.Names other) : cursor = other :=
  Option.some.inj (h.1.symm.trans hother.1)

theorem Names.not_isLast {cursor : UInt64} (h : response.Names cursor) : ¬ response.IsLast := by
  rw [← next?_eq_none_iff, next?_eq_some_iff.mpr h]
  exact nofun

end Response

namespace Call

/-- The group under which a call is counted. -/
def group : Call → Label
  | .execute command => Label.ofName command.label
  | .readCursor _ _ => .cursorRead

/-- How many bytes a call sends. -/
def bytes : Call → Nat
  | .execute command => command.size
  | .readCursor _ _ => 0

end Call

/-- A call with the calls that it leads to: each page of results names the next one. A call that
panics leads to no calls at all. -/
inductive Chain (reply : Call → CallOutcome) : Call → List Call → Prop where
  | failed {call : Call} {fault : Fault} (hreply : reply call = .failed fault) :
      Chain reply call [call]
  | last {call : Call} {response : Response} (hreply : reply call = .answered response)
      (hlast : response.IsLast) : Chain reply call [call]
  | page {call : Call} {response : Response} {cursor : UInt64} {calls : List Call}
      (hreply : reply call = .answered response) (hnames : response.Names cursor)
      (hrest : Chain reply (.readCursor call.command cursor) calls) :
      Chain reply call (call :: calls)

/-- The calls of a sequential replay of rows, in order. -/
inductive Replay (reply : Call → CallOutcome) : List (List UInt8) → List Call → Prop where
  | done : Replay reply [] []
  | skipped {row : List UInt8} {fault : RowFault} {rows : List (List UInt8)} {calls : List Call}
      (hrow : Row.command row = .error fault) (hrest : Replay reply rows calls) :
      Replay reply (row :: rows) calls
  | played {row : List UInt8} {command : Command} {rows : List (List UInt8)}
      {chain calls : List Call} (hrow : Row.command row = .ok command)
      (hchain : Chain reply (.execute command) chain)
      (hrest : Replay reply rows calls) : Replay reply (row :: rows) (chain ++ calls)

/-- What calls come to. -/
def Counts.ofCalls (reply : Call → CallOutcome) (calls : List Call) : Counts where
  perLabel := PerLabel.ofFn fun label => calls.countP fun call => call.group = label
  total := calls.length
  failures := calls.countP fun call => (reply call).response?.isNone
  timeouts := calls.countP fun call => (reply call).response?.any Response.timedOut
  sent := (calls.map Call.bytes).sum
  received :=
    (calls.map fun call => (((reply call).response?.map Response.received).getD 0).toNat).sum

/-! ## The replay is determined -/

variable {reply : Call → CallOutcome}

theorem Chain.unique {call : Call} {calls others : List Call} (h : Chain reply call calls)
    (hother : Chain reply call others) : calls = others := by
  -- By induction on the chain: what the system answers says how it goes on.
  induction h generalizing others with
  | failed hreply =>
    cases hother with
    | failed _ | last _ _ => rfl
    | page hanswered _ _ =>
      rw [hreply] at hanswered
      cases hanswered
  | last hreply hlast =>
    cases hother with
    | failed _ | last _ _ => rfl
    | page hanswered hnames _ =>
      rw [hreply] at hanswered
      obtain rfl := CallOutcome.answered.inj hanswered
      exact absurd hlast hnames.not_isLast
  | page hreply hnames hrest ih =>
    cases hother with
    | failed hfailed =>
      rw [hreply] at hfailed
      cases hfailed
    | last hanswered hlast =>
      rw [hreply] at hanswered
      obtain rfl := CallOutcome.answered.inj hanswered
      exact absurd hlast hnames.not_isLast
    | page hanswered hnames' hothers =>
      rw [hreply] at hanswered
      obtain rfl := CallOutcome.answered.inj hanswered
      obtain rfl := hnames.unique hnames'
      rw [ih hothers]

/-- Rows have one replay at most. -/
theorem Replay.unique {rows : List (List UInt8)} {calls others : List Call}
    (h : Replay reply rows calls) (hother : Replay reply rows others) : calls = others := by
  induction h generalizing others with
  | done =>
    cases hother
    rfl
  | skipped hrow hrest ih =>
    cases hother with
    | skipped _ hothers => exact ih hothers
    | played hcommand _ _ =>
      rw [hrow] at hcommand
      cases hcommand
  | played hrow hchain hrest ih =>
    cases hother with
    | skipped hfault _ =>
      rw [hrow] at hfault
      cases hfault
    | played hcommand hchain' hothers =>
      rw [hrow] at hcommand
      obtain rfl := Except.ok.inj hcommand
      rw [hchain.unique hchain', ih hothers]

/-! ## Calls and samples -/

/-- What a call measures, without its date. -/
def Call.sample (reply : Call → CallOutcome) (call : Call) : Sample :=
  Playback.sampleOf ⟨0, 0, 0⟩ call (reply call).response?

/-- Only the date of a sample depends on the clock. -/
theorem Call.undated_sampleOf (clock : Clock) {call : Call} {response : Option Response}
    (hreply : (reply call).response? = response) :
    (Playback.sampleOf clock call response).undated = call.sample reply := by
  rw [sample, hreply]
  rfl

theorem Call.group_sample (call : Call) : (call.sample reply).group = call.group := by
  cases call with
  | execute command => rfl
  | readCursor command cursor => exact Label.ofName_name .cursorRead

/-- What calls send, if 64 bits hold it. -/
theorem Call.sentBytes_sample {calls : List Call} (hbound : (calls.map Call.bytes).sum < 2 ^ 64) :
    Sample.sentBytes (calls.map (Call.sample reply) : List Sample) =
      (calls.map Call.bytes).sum := by
  rw [Sample.sentBytes, Multiset.map_coe, Multiset.sum_coe, List.map_map]
  refine congrArg List.sum (List.map_congr_left fun call hmem => ?_)
  -- No call sends more than all of them, so its size is not cut off.
  have hle := List.le_sum_of_mem (List.mem_map_of_mem (f := Call.bytes) hmem)
  cases call with
  | execute command =>
    show (UInt64.ofNat command.size).toNat = command.size
    rw [UInt64.toNat_ofNat']
    exact Nat.mod_eq_of_lt (Nat.lt_of_le_of_lt hle hbound)
  | readCursor command cursor => rfl

theorem Call.receivedBytes_sample (calls : List Call) :
    Sample.receivedBytes (calls.map (Call.sample reply) : List Sample) =
      (Counts.ofCalls reply calls).received := by
  rw [Sample.receivedBytes, Multiset.map_coe, Multiset.sum_coe, List.map_map]
  rfl

/-- What calls come to is what their samples come to, if 64 bits hold their bytes. -/
theorem Counts.ofSamples_calls {calls : List Call} (hsent : (ofCalls reply calls).sent < 2 ^ 64)
    (hreceived : (ofCalls reply calls).received < 2 ^ 64) :
    ofSamples (calls.map (Call.sample reply) : List Sample) = ofCalls reply calls := by
  have hcount : ∀ (p : Sample → Prop) [DecidablePred p],
      Multiset.countP p (calls.map (Call.sample reply) : List Sample) =
        calls.countP fun call => p (call.sample reply) := by
    intro p _
    rw [Multiset.coe_countP, List.countP_map]
    rfl
  have hbytes : Sample.sentBytes (calls.map (Call.sample reply) : List Sample) = _ :=
    Call.sentBytes_sample hsent
  have hfailed : ∀ call, (Call.sample reply call).failed = (reply call).response?.isNone :=
    fun _ => rfl
  have htimedOut : ∀ call, (Call.sample reply call).timedOut =
      (reply call).response?.any Response.timedOut := by
    intro call
    show ((reply call).response?.map Response.timedOut).getD false = _
    cases (reply call).response? <;> rfl
  simp only [ofSamples, hcount, Call.receivedBytes_sample, hbytes, Call.group_sample, hfailed,
    htimedOut, Bool.decide_eq_true, Multiset.coe_card, List.length_map]
  -- The totals are below the bound at which they would wrap.
  rw [Nat.mod_eq_of_lt hreceived, Nat.mod_eq_of_lt (by exact hsent)]
  rfl

/-! ## Batches that are played -/

namespace Row

/-- The calls that a row leads to, given those that each command leads to. -/
def callsOf (chain : Command → List Call) (row : List UInt8) : List Call :=
  match command row with
  | .error _ => []
  | .ok command => chain command

/-- What rows lead to is their sequential replay. -/
theorem replay_callsOf {chain : Command → List Call}
    (hchain : ∀ command, Chain reply (.execute command) (chain command))
    (rows : List (List UInt8)) :
    Replay reply rows (rows.flatMap (callsOf chain)) := by
  induction rows with
  | nil => exact .done
  | cons row rest ih =>
    rw [List.flatMap_cons, callsOf]
    cases hrow : command row with
    | error fault => exact .skipped hrow ih
    | ok command => exact .played hrow (hchain command) ih

end Row

namespace Playback

variable {chain : Command → List Call} {playback : Playback}

/-- Which samples a playback will have measured when it ends: those that it has, those of the calls
that its present call leads to, and those of the rows that it has not looked at. -/
inductive Owes (reply : Call → CallOutcome) (chain : Command → List Call) (playback : Playback) :
    List Sample → Prop where
  | ended {measured : Measurements} (hstage : playback.stage = .ended (.ok measured)) :
      Owes reply chain playback (measured.samples.map Sample.undated)
  | calling {call : Call} {calls : List Call} (hconnected : playback.connected = true)
      (hlenient : playback.lenient = true)
      (hstage : playback.stage = .reserving call ∨ playback.stage = .calling call)
      (hcalls : Chain reply call calls) :
      Owes reply chain playback
        (playback.measured.samples.map Sample.undated ++
          (calls ++ playback.rows.flatMap (Row.callsOf chain)).map (Call.sample reply))

theorem stage_issue (playback : Playback) (call : Call) :
    (playback.issue call).stage = .reserving call ∨
      (playback.issue call).stage = .calling call := by
  unfold issue
  split
  · exact Or.inl rfl
  · exact Or.inr rfl

theorem measured_nextRow (playback : Playback) (rows : List (List UInt8)) :
    (playback.nextRow rows).measured = playback.measured := by
  induction rows with
  | nil => rfl
  | cons row rest ih =>
    rw [nextRow]
    split
    · split
      · exact ih
      · rfl
    · split <;> rfl

/-- A lenient playback goes on to the first row that is a command. -/
theorem owes_nextRow (hchain : ∀ command, Chain reply (.execute command) (chain command))
    (hconnected : playback.connected = true) (hlenient : playback.lenient = true)
    (rows : List (List UInt8)) :
    Owes reply chain (playback.nextRow rows)
      (playback.measured.samples.map Sample.undated ++
        (rows.flatMap (Row.callsOf chain)).map (Call.sample reply)) := by
  induction rows with
  | nil =>
    rw [List.flatMap_nil, List.map_nil, List.append_nil]
    exact .ended rfl
  | cons row rest ih =>
    rw [List.flatMap_cons, Row.callsOf, nextRow]
    cases hrow : Row.command row with
    | error fault =>
      -- A row that is no command leads to no calls, and the next one is looked at.
      dsimp only
      rw [if_pos hlenient]
      exact ih
    | ok command =>
      dsimp only
      rw [if_pos hconnected]
      refine @Owes.calling _ _ (issue { playback with rows := rest } (.execute command)) _ _
        hconnected hlenient (stage_issue _ _) (hchain command)

/-- How many steps a playback has before it at most, if it owes samples. -/
def stepsLeft (owed : List Sample) (playback : Playback) : Nat :=
  2 * (owed.length - playback.measured.count) +
    match playback.stage with
    | .reserving _ => 1
    | _ => 0

/-- What a playback owes does not change when it has measured a call and goes on. -/
theorem owes_measured {next : Playback} {clock : Clock} {call : Call} {response : Option Response}
    {calls : List Call} (hreply : (reply call).response? = response)
    (hmeasured : next.measured = playback.measured.add (sampleOf clock call response))
    (h : Owes reply chain next (next.measured.samples.map Sample.undated ++
      calls.map (Call.sample reply))) :
    Owes reply chain next (playback.measured.samples.map Sample.undated ++
        (call :: calls).map (Call.sample reply)) ∧
      ∀ owed : List Sample, playback.measured.count < owed.length →
        next.stepsLeft owed < 2 * (owed.length - playback.measured.count) := by
  constructor
  · rw [hmeasured, Measurements.samples_add, List.map_append, List.map_singleton,
      Call.undated_sampleOf clock hreply, List.append_assoc] at h
    exact h
  · intro owed howed
    have hcount : next.measured.count = playback.measured.count + 1 := by
      rw [hmeasured, Measurements.count_add]
    -- A call that is measured is worth two steps, and its successor may have to wait for leave.
    have hstage : (match next.stage with | .reserving _ => 1 | _ => 0) ≤ 1 := by
      split <;> omega
    unfold stepsLeft
    omega

/-- How a playback goes on behind a call. -/
def behind (playback : Playback) (clock : Clock) (call : Call) : CallOutcome → Progress Playback
  | .answered response => .going (playback.answered clock call response)
  | .failed fault => .going (playback.failed clock call fault)
  | .panicked => .panicked

/-- Behind a call its page is next, or else the next row. -/
theorem exists_behind {call : Call} {calls : List Call}
    (hchain : ∀ command, Chain reply (.execute command) (chain command))
    (hconnected : playback.connected = true) (hlenient : playback.lenient = true)
    (hcalls : Chain reply call calls) (clock : Clock) :
    ∃ (next : Playback) (others : List Call),
      playback.behind clock call (reply call) = .going next ∧
      next.measured = playback.measured.add (sampleOf clock call (reply call).response?) ∧
      calls ++ playback.rows.flatMap (Row.callsOf chain) = call :: others ∧
      Owes reply chain next (next.measured.samples.map Sample.undated ++
        others.map (Call.sample reply)) := by
  cases hcalls with
  | @failed _ fault hreply =>
    rw [hreply]
    -- The chain ends here, so what is left are the rows.
    have hrows := @owes_nextRow reply chain (playback.measure (sampleOf clock call none)) hchain
      hconnected hlenient playback.rows
    rw [← measured_nextRow (playback.measure (sampleOf clock call none)) playback.rows] at hrows
    refine ⟨_, _, ?_, measured_nextRow _ _, rfl, hrows⟩
    rw [behind, failed, if_pos (by exact hlenient)]
    rfl
  | @last _ response hreply hlast =>
    rw [hreply]
    have hrows := @owes_nextRow reply chain (playback.measure (sampleOf clock call (some response)))
      hchain hconnected hlenient playback.rows
    rw [← measured_nextRow (playback.measure (sampleOf clock call (some response)))
      playback.rows] at hrows
    refine ⟨_, _, ?_, measured_nextRow _ _, rfl, hrows⟩
    rw [behind, answered, Response.next?_eq_none_iff.mpr hlast]
    rfl
  | @page _ response cursor rest hreply hnames hrest =>
    rw [hreply]
    -- The rest of the chain is that of the next page.
    refine ⟨(playback.measure (sampleOf clock call (some response))).issue
      (.readCursor call.command cursor), rest ++ playback.rows.flatMap (Row.callsOf chain), ?_, rfl,
      rfl, .calling hconnected hlenient ?_ hrest⟩
    · rw [behind, answered, Response.next?_eq_some_iff.mpr hnames]
    · exact stage_issue _ _

variable {ω : Type} {target : Target ω} {owed : List Sample}

/-- A call is answered as all such calls are. -/
theorem step_calling (htarget : target.Answers reply) {call : Call}
    (hstage : playback.stage = .calling call) (clock : Clock) (surroundings : Surroundings ω) :
    (playback.step target clock surroundings).2 = playback.behind clock call (reply call) := by
  rw [← htarget.answers playback.worker call surroundings.world, step, hstage]
  rfl

/-- A step of a playback that owes samples: it goes on, owes the same and has less before it, or it
ends and has measured them. -/
theorem owes_step (htarget : target.Answers reply)
    (hchain : ∀ command, Chain reply (.execute command) (chain command))
    (h : Owes reply chain playback owed) (clock : Clock) (surroundings : Surroundings ω) :
    (∃ next, (playback.step target clock surroundings).2 = .going next ∧
      Owes reply chain next owed ∧ next.stepsLeft owed < playback.stepsLeft owed) ∨
    ∃ measured, (playback.step target clock surroundings).2 = .done measured ∧
      measured.samples.map Sample.undated = owed := by
  cases h with
  | @ended measured hstage =>
    right
    refine ⟨measured, ?_, rfl⟩
    rw [step, hstage]
  | @calling call calls hconnected hlenient hstage hcalls =>
    left
    rcases hstage with hstage | hstage
    · -- The leave for a call changes nothing else.
      refine ⟨{ playback with stage := .calling call }, by rw [step, hstage],
        .calling hconnected hlenient (Or.inr rfl) hcalls, ?_⟩
      unfold stepsLeft
      rw [hstage]
      exact Nat.lt_succ_self _
    -- The call itself is owed, so there is one sample more to come than there are.
    · obtain ⟨next, others, hbehind, hmeasured, hothers, howes⟩ :=
        exists_behind hchain hconnected hlenient hcalls clock
      obtain ⟨howes', hless⟩ := owes_measured rfl hmeasured howes
      rw [← hothers] at howes'
      refine ⟨next, (step_calling htarget hstage clock surroundings).trans hbehind, howes', ?_⟩
      refine Nat.lt_of_lt_of_le (hless _ ?_) (Nat.le_add_right _ _)
      rw [hothers, List.length_append, List.length_map, List.length_map, List.length_cons]
      exact Nat.lt_add_of_pos_right (Nat.succ_pos _)

/-- A playback that owes samples comes to an end. -/
theorem acc_of_owes (htarget : target.Answers reply)
    (hchain : ∀ command, Chain reply (.execute command) (chain command))
    (h : Owes reply chain playback owed) (lenient : Bool) :
    Acc (Row.handler target lenient).Continues playback := by
  -- By induction on the steps left, with the same samples owed all along.
  induction hleft : playback.stepsLeft owed using Nat.strong_induction_on generalizing playback with
  | _ left ih =>
  refine ⟨playback, ?_⟩
  rintro next ⟨clock, before, after, hstep⟩
  have hprogress : (playback.step target clock before).2 = .going next := (Prod.mk.inj hstep).2
  rcases owes_step htarget hchain h clock before with
    ⟨found, hgoing, howes, hless⟩ | ⟨measured, hdone, -⟩
  · rw [hprogress] at hgoing
    obtain rfl := Progress.going.inj hgoing
    exact ih _ (hleft ▸ hless) howes rfl
  · rw [hprogress] at hdone
    cases hdone

end Playback

namespace Row

/-- What workers that play rows are to measure. -/
def contract (reply : Call → CallOutcome) (chain : Command → List Call) :
    Contract (List UInt8) Seat Playback where
  samples := fun row => (callsOf chain row).map (Call.sample reply)
  ready := fun seat => seat.connected = true
  owes := Playback.Owes reply chain

/-- The samples of rows are those of their sequential replay. -/
theorem total_contract (chain : Command → List Call) (rows : List (List UInt8)) :
    (contract reply chain).total rows =
      (((rows.flatMap (callsOf chain)).map (Call.sample reply) : List Sample) :
        Multiset Sample) := by
  rw [Contract.total, Multiset.coe_bind, List.map_flatMap]
  rfl

variable {ω : Type} {target : Target ω}

/-- Workers that play rows, and go on behind whatever fails, measure the sequential replay of their
rows. -/
theorem handler_meets (htarget : target.Answers reply) {chain : Command → List Call}
    (hchain : ∀ command, Chain reply (.execute command) (chain command)) :
    (handler target true).Meets (contract reply chain) where
  prepares := by
    intro kept post world hload
    have hconnects := htarget.connects post.worker world
    refine ⟨(target.connect post.worker world).1, ⟨post.worker, true⟩, ?_, rfl⟩
    show (if post.loadEnabled = true then _ else _) = _
    rw [if_pos hload]
    cases hconnect : target.connect post.worker world with
    | mk after fault =>
      rw [hconnect] at hconnects
      dsimp only at hconnects
      rw [hconnects]
  starts := by
    intro seat batch limited hready
    have hrows := @Playback.owes_nextRow reply chain
      ⟨seat.worker, seat.connected, limited, true, batch.items, Measurements.empty,
        .ended (.ok Measurements.empty)⟩ hchain hready rfl batch.items
    rw [List.map_flatMap] at hrows
    exact hrows
  works := by
    intro clock playback surroundings owed howes
    rcases Playback.owes_step htarget hchain howes clock surroundings with
      ⟨next, hgoing, hnext, -⟩ | ⟨measured, hdone, hmeasured⟩
    · have hstep :
          ((handler target true).step clock playback surroundings).2 = .going next := hgoing
      rw [hstep]
      exact hnext
    · have hstep :
          ((handler target true).step clock playback surroundings).2 = .done measured := hdone
      rw [hstep]
      exact hmeasured
  ends := fun _ _ howes => Playback.acc_of_owes htarget hchain howes true

end Row

end LoadBench
