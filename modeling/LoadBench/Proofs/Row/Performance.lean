/-
  LoadBench.Proofs.Row.Performance

  What a worker asks of a system under load when it plays a batch of rows, for any
  system, also one that remembers the calls.  One row after another is performed:
  its command is executed, and one page after another is read until a page names no
  other or a call fails (`Episode`, `Performance`).

  Which pages there are is said by the replies, and there is one performance only
  (`Performance.unique`).

  A playback makes the calls of a performance and no others, one reservation before
  each if the rate is limited, and has one sample for each call when it ends
  (`plays_batch`).  The argument goes backwards: the end of a playback is known
  from the end of the playback behind its next call (`Ends`).
-/

import LoadBench.Proofs.Row.Replay
import LoadBench.Proofs.Row.Whole
import LoadBench.Proofs.Trace

namespace LoadBench

/-! ## Calls that have been made -/

/-- A call that has been made, and what came of it. -/
structure Made where
  call : Call
  outcome : CallOutcome
  deriving DecidableEq, Repr

namespace Target

variable {ω : Type} (target : Target ω) (worker : Nat)

/-- What comes of calls that a worker makes one after another, and what the system remembers
then. -/
def perform : List Call → ω → ω × List CallOutcome
  | [], world => (world, [])
  | call :: rest, world =>
    let behind := target.call worker call world
    let last := perform rest behind.1
    (last.1, behind.2 :: last.2)

/-- Whether calls, made one after another, come to what they are said to, and lead from what the
system remembers to what it remembers last. -/
def Makes (world : ω) (made : List Made) (last : ω) : Prop :=
  target.perform worker (made.map Made.call) world = (last, made.map Made.outcome)

/-- Whether the pages behind a call come to an end. -/
inductive Settles : Call → ω → Prop where
  | intro {call : Call} {world : ω}
      (hpages : ∀ response cursor, (target.call worker call world).2 = .answered response →
        response.Names cursor →
        Settles (.readCursor call.command cursor) (target.call worker call world).1) :
      Settles call world

variable {target worker}

theorem makes_nil (world : ω) : target.Makes worker world [] world := rfl

theorem makes_cons_iff {world last : ω} {first : Made} {made : List Made} :
    target.Makes worker world (first :: made) last ↔
      (target.call worker first.call world).2 = first.outcome ∧
        target.Makes worker (target.call worker first.call world).1 made last := by
  unfold Makes
  rw [List.map_cons, List.map_cons, perform, Prod.mk.injEq, List.cons.injEq, Prod.ext_iff,
    and_left_comm]

theorem Makes.cons {call : Call} {world last : ω} {made : List Made}
    (h : target.Makes worker (target.call worker call world).1 made last) :
    target.Makes worker world (⟨call, (target.call worker call world).2⟩ :: made) last :=
  makes_cons_iff.mpr ⟨rfl, h⟩

theorem makes_append_iff {world last : ω} {made more : List Made} :
    target.Makes worker world (made ++ more) last ↔
      ∃ mid, target.Makes worker world made mid ∧ target.Makes worker mid more last := by
  induction made generalizing world with
  | nil =>
    refine ⟨fun h => ⟨world, makes_nil world, h⟩, fun ⟨mid, hnone, hmore⟩ => ?_⟩
    obtain rfl : world = mid := (Prod.mk.inj hnone).1
    exact hmore
  | cons first rest ih =>
    rw [List.cons_append, makes_cons_iff, ih]
    refine ⟨fun ⟨hfirst, mid, hrest, hmore⟩ => ?_, fun ⟨mid, hmade, hmore⟩ => ?_⟩
    · exact ⟨mid, makes_cons_iff.mpr ⟨hfirst, hrest⟩, hmore⟩
    · obtain ⟨hfirst, hrest⟩ := makes_cons_iff.mp hmade
      exact ⟨hfirst, mid, hrest, hmore⟩

/-- The same calls come to the same. -/
theorem Makes.unique {world last other : ω} {made : List Made}
    (h : target.Makes worker world made last) (hother : target.Makes worker world made other) :
    last = other :=
  (Prod.mk.inj (h.symm.trans hother)).1

/-- One call has one outcome. -/
theorem Makes.agree {call : Call} {outcome other : CallOutcome} {world last final : ω}
    {made more : List Made} (h : target.Makes worker world (⟨call, outcome⟩ :: made) last)
    (hother : target.Makes worker world (⟨call, other⟩ :: more) final) :
    outcome = other ∧ target.Makes worker (target.call worker call world).1 made last ∧
      target.Makes worker (target.call worker call world).1 more final := by
  obtain ⟨hfirst, hmade⟩ := makes_cons_iff.mp h
  obtain ⟨hsecond, hmore⟩ := makes_cons_iff.mp hother
  exact ⟨hfirst.symm.trans hsecond, hmade, hmore⟩

end Target

/-! ## Performances -/

/-- A call with the calls that it leads to: each page of results names the next one. The last one
may have failed, with a fault. -/
inductive Episode : Call → List Made → Option Fault → Prop where
  | last {call : Call} {response : Response} (hlast : response.IsLast) :
      Episode call [⟨call, .answered response⟩] none
  | failed {call : Call} {fault : Fault} : Episode call [⟨call, .failed fault⟩] (some fault)
  | page {call : Call} {response : Response} {cursor : UInt64} {made : List Made}
      {broken : Option Fault} (hnames : response.Names cursor)
      (hrest : Episode (.readCursor call.command cursor) made broken) :
      Episode call (⟨call, .answered response⟩ :: made) broken

/-- The calls that are made for rows, in order, and the fault with which they break off. Who is
lenient passes over a row that is no command and goes on behind a call that fails. -/
inductive Performance (lenient : Bool) : List (List UInt8) → List Made → Option Fault → Prop where
  | done : Performance lenient [] [] none
  | skipped {row : List UInt8} {rows : List (List UInt8)} {fault : RowFault} {made : List Made}
      {broken : Option Fault} (hrow : Row.command row = .error fault) (hlenient : lenient = true)
      (hrest : Performance lenient rows made broken) : Performance lenient (row :: rows) made broken
  | rejected {row : List UInt8} {rows : List (List UInt8)} {fault : RowFault}
      (hrow : Row.command row = .error fault) (hstrict : lenient = false) :
      Performance lenient (row :: rows) [] (some fault.fault)
  | played {row : List UInt8} {rows : List (List UInt8)} {command : Command}
      {made more : List Made} {failure broken : Option Fault}
      (hrow : Row.command row = .ok command) (hepisode : Episode (.execute command) made failure)
      (hgoes : lenient = true ∨ failure = none) (hrest : Performance lenient rows more broken) :
      Performance lenient (row :: rows) (made ++ more) broken
  | broken {row : List UInt8} {rows : List (List UInt8)} {command : Command} {made : List Made}
      {fault : Fault} (hrow : Row.command row = .ok command)
      (hepisode : Episode (.execute command) made (some fault)) (hstrict : lenient = false) :
      Performance lenient (row :: rows) made (some (Playback.callFault command fault))

section

variable {ω : Type} {target : Target ω} {worker : Nat} {world : ω}

/-- What a call leads to is determined by the system under load. -/
theorem Episode.unique {call : Call} {made other : List Made} {broken failure : Option Fault}
    {last final : ω} (h : Episode call made broken) (hmakes : target.Makes worker world made last)
    (hother : Episode call other failure) (hothers : target.Makes worker world other final) :
    made = other ∧ broken = failure ∧ last = final := by
  -- By induction on the pages: what the call comes to says how it goes on.
  induction h generalizing world other with
  | @last call response hlast =>
    cases hother with
    | last _ =>
      cases (hmakes.agree hothers).1
      exact ⟨rfl, rfl, hmakes.unique hothers⟩
    | failed => cases (hmakes.agree hothers).1
    | page hnames _ =>
      cases (hmakes.agree hothers).1
      exact absurd hlast hnames.not_isLast
  | @failed call fault =>
    cases hother with
    | failed =>
      cases (hmakes.agree hothers).1
      exact ⟨rfl, rfl, hmakes.unique hothers⟩
    | last _ | page _ _ => cases (hmakes.agree hothers).1
  | @page call response cursor made broken hnames hrest ih =>
    cases hother with
    | last hlast =>
      cases (hmakes.agree hothers).1
      exact absurd hlast hnames.not_isLast
    | failed => cases (hmakes.agree hothers).1
    | page hnames' hrest' =>
      obtain ⟨hsame, hmade, hmore⟩ := hmakes.agree hothers
      cases hsame
      obtain rfl := hnames.unique hnames'
      obtain ⟨rfl, rfl, rfl⟩ := ih hmade hrest' hmore
      exact ⟨rfl, rfl, rfl⟩

/-- So is the performance of rows. -/
theorem Performance.unique {lenient : Bool} {rows : List (List UInt8)} {made other : List Made}
    {broken failure : Option Fault} {last final : ω} (h : Performance lenient rows made broken)
    (hmakes : target.Makes worker world made last) (hother : Performance lenient rows other failure)
    (hothers : target.Makes worker world other final) :
    made = other ∧ broken = failure ∧ last = final := by
  induction h generalizing world other with
  | done =>
    cases hother
    exact ⟨rfl, rfl, hmakes.unique hothers⟩
  | skipped hrow hlenient hrest ih =>
    cases hother with
    | skipped _ _ hrest' => exact ih hmakes hrest' hothers
    | rejected _ hstrict => simp [hlenient] at hstrict
    | played hcommand _ _ _ | broken hcommand _ _ => simp [hrow] at hcommand
  | rejected hrow hstrict =>
    cases hother with
    | rejected hrow' _ =>
      cases hrow.symm.trans hrow'
      exact ⟨rfl, rfl, hmakes.unique hothers⟩
    | skipped _ hlenient _ => simp [hstrict] at hlenient
    | played hcommand _ _ _ | broken hcommand _ _ => simp [hrow] at hcommand
  | played hrow hepisode hgoes hrest ih =>
    obtain ⟨mid, hmade, hmore⟩ := Target.makes_append_iff.mp hmakes
    cases hother with
    | skipped hfault _ _ | rejected hfault _ => simp [hrow] at hfault
    | played hrow' hepisode' _ hrest' =>
      cases hrow.symm.trans hrow'
      obtain ⟨mid', hmade', hmore'⟩ := Target.makes_append_iff.mp hothers
      obtain ⟨rfl, rfl, rfl⟩ := hepisode.unique hmade hepisode' hmade'
      obtain ⟨rfl, rfl, rfl⟩ := ih hmore hrest' hmore'
      exact ⟨rfl, rfl, rfl⟩
    | broken hrow' hepisode' hstrict =>
      cases hrow.symm.trans hrow'
      obtain ⟨-, rfl, -⟩ := hepisode.unique hmade hepisode' hothers
      simp [hstrict] at hgoes
  | broken hrow hepisode hstrict =>
    cases hother with
    | skipped hfault _ _ | rejected hfault _ => simp [hrow] at hfault
    | played hrow' hepisode' hgoes _ =>
      cases hrow.symm.trans hrow'
      obtain ⟨mid', hmade', -⟩ := Target.makes_append_iff.mp hothers
      obtain ⟨-, rfl, -⟩ := hepisode.unique hmakes hepisode' hmade'
      simp [hstrict] at hgoes
    | broken hrow' hepisode' _ =>
      cases hrow.symm.trans hrow'
      obtain ⟨rfl, hfault, rfl⟩ := hepisode.unique hmakes hepisode' hothers
      cases hfault
      exact ⟨rfl, rfl, rfl⟩

end

/-- The command that a call executes. -/
def Made.executed? (made : Made) : Option Command :=
  match made.call with
  | .execute command => some command
  | .readCursor _ _ => none

/-- Whether a call was answered. -/
def Made.Answered (made : Made) : Prop := ∃ response, made.outcome = .answered response

/-- The calls behind a page execute nothing. -/
theorem Episode.executed_page {command : Command} {cursor : UInt64} {made : List Made}
    {broken : Option Fault} (h : Episode (.readCursor command cursor) made broken) :
    made.filterMap Made.executed? = [] := by
  induction made generalizing cursor with
  | nil => rfl
  | cons first rest ih =>
    cases h with
    | last _ | failed => rfl
    | page _ hrest => exact ih hrest

/-- A command is executed once. -/
theorem Episode.executed_eq {command : Command} {made : List Made} {broken : Option Fault}
    (h : Episode (.execute command) made broken) :
    made.filterMap Made.executed? = [command] := by
  cases h with
  | last _ | failed => rfl
  | page _ hrest => exact congrArg (command :: ·) hrest.executed_page

/-- The calls that a call leads to are all answered unless they break off. -/
theorem Episode.eq_none_iff {call : Call} {made : List Made} {broken : Option Fault}
    (h : Episode call made broken) : broken = none ↔ ∀ one ∈ made, one.Answered := by
  induction h with
  | last _ => exact iff_of_true rfl (List.forall_mem_singleton.mpr ⟨_, rfl⟩)
  | failed =>
    refine iff_of_false (fun hcontra => nomatch hcontra) fun hall => ?_
    obtain ⟨response, hresponse⟩ := List.forall_mem_singleton.mp hall
    cases hresponse
  | page _ _ ih =>
    rw [ih, List.forall_mem_cons]
    exact (and_iff_right ⟨_, rfl⟩).symm

namespace Performance

variable {lenient : Bool} {rows : List (List UInt8)} {made : List Made} {broken : Option Fault}
  (h : Performance lenient rows made broken)

include h

/-- Who is lenient never breaks off, and executes the commands of exactly the rows that are some. -/
theorem of_lenient (hlenient : lenient = true) :
    broken = none ∧
      made.filterMap Made.executed? = rows.filterMap fun row => (Row.command row).toOption := by
  induction h with
  | done => exact ⟨rfl, rfl⟩
  | skipped hrow _ _ ih =>
    rw [List.filterMap_cons, hrow]
    exact ih
  | rejected _ hstrict | broken _ _ hstrict =>
    rw [hlenient] at hstrict
    cases hstrict
  | played hrow hepisode _ _ ih =>
    obtain ⟨hnone, hexecuted⟩ := ih
    rw [List.filterMap_append, hepisode.executed_eq, hexecuted, List.filterMap_cons, hrow]
    exact ⟨hnone, rfl⟩

/-- Who is strict breaks off unless every row is a command and every call is answered. -/
theorem eq_none_iff (hstrict : lenient = false) :
    broken = none ↔
      (∀ row ∈ rows, ∃ command, Row.command row = .ok command) ∧ ∀ one ∈ made, one.Answered := by
  induction h with
  | done => exact iff_of_true rfl ⟨List.forall_mem_nil _, List.forall_mem_nil _⟩
  | skipped _ hlenient _ _ =>
    rw [hstrict] at hlenient
    cases hlenient
  | rejected hrow _ =>
    refine iff_of_false (fun hcontra => nomatch hcontra) fun hall => ?_
    obtain ⟨command, hcommand⟩ := hall.1 _ List.mem_cons_self
    rw [hrow] at hcommand
    cases hcommand
  | played hrow hepisode hgoes _ ih =>
    have hfailure := hgoes.resolve_left fun hlenient => by
      rw [hstrict] at hlenient
      cases hlenient
    have hanswered := hepisode.eq_none_iff.mp hfailure
    rw [ih, List.forall_mem_cons, List.forall_mem_append]
    exact ⟨fun hrest => ⟨⟨⟨_, hrow⟩, hrest.1⟩, hanswered, hrest.2⟩,
      fun hrest => ⟨hrest.1.2, hrest.2.2⟩⟩
  | broken _ hepisode _ =>
    refine iff_of_false (fun hcontra => nomatch hcontra) fun hall => ?_
    cases hepisode.eq_none_iff.mpr hall.2

end Performance

/-! ## What a playback does outside -/

/-- What a playback does outside. -/
inductive Event where
  /-- A call was reserved at a moment. -/
  | reserved (now : Nat)
  | called (call : Call) (outcome : CallOutcome)
  deriving DecidableEq, Repr

/-- What surroundings come to. -/
def Event.after {ω : Type} (target : Target ω) (worker : Nat) (surroundings : Surroundings ω) :
    Event → Surroundings ω
  | .reserved now => { surroundings with limit := (surroundings.limit.reserve 1 now).1 }
  | .called call _ =>
    { surroundings with world := (target.call worker call surroundings.world).1 }

/-- Whether events are calls, each behind one reservation if the rate is limited, and nothing
besides. -/
inductive Reserves (limited : Bool) : List Made → List Event → Prop where
  | none : Reserves limited [] []
  | free {one : Made} {made : List Made} {events : List Event} (hlimited : limited = false)
      (hrest : Reserves limited made events) :
      Reserves limited (one :: made) (.called one.call one.outcome :: events)
  | reserved {one : Made} {made : List Made} {events : List Event} (now : Nat)
      (hlimited : limited = true) (hrest : Reserves limited made events) :
      Reserves limited (one :: made) (.reserved now :: .called one.call one.outcome :: events)

/-- Whether a sample is that of a call. -/
structure Records (made : Made) (sample : Sample) : Prop where
  label_eq : sample.label =
    match made.call with
    | .execute command => command.label
    | .readCursor _ _ => "CURSOR_READ"
  query_eq : sample.query = made.call.command.query
  sent_eq : sample.sent =
    match made.call with
    | .execute command => UInt64.ofNat command.size
    | .readCursor _ _ => 0
  failed_iff : sample.failed = true ↔ ¬made.Answered
  reply_eq : (sample.received, sample.timedOut) =
    match made.outcome with
    | .answered response => (response.received, response.timedOut)
    | .failed _ | .panicked => (0, false)

/-- The sample that a playback takes of a call is that of the call. -/
theorem records_sampleOf (clock : Clock) (call : Call) (outcome : CallOutcome) :
    Records ⟨call, outcome⟩ (Playback.sampleOf clock call outcome.response?) where
  label_eq := by cases call <;> rfl
  query_eq := rfl
  sent_eq := by cases call <;> rfl
  failed_iff := by
    cases outcome with
    | answered response => exact iff_of_false (fun hcontra => nomatch hcontra) fun h => h ⟨_, rfl⟩
    | failed fault | panicked => exact iff_of_true rfl fun ⟨_, hcontra⟩ => nomatch hcontra
  reply_eq := by cases outcome <;> rfl

namespace Playback

variable {ω : Type} (target : Target ω)

/-- One step of a playback and its surroundings, unless it has ended. -/
def advance? (clock : Clock) (state : Playback × Surroundings ω) :
    Option (Playback × Surroundings ω) :=
  match state.1.step target clock state.2 with
  | (surroundings, .going next) => some (next, surroundings)
  | (_, _) => none

/-- What a playback does outside in its next step. -/
def event? (clock : Clock) (state : Playback × Surroundings ω) : Option Event :=
  match state.1.stage with
  | .reserving _ => some (.reserved clock.now)
  | .calling call => some (.called call (target.call state.1.worker call state.2.world).2)
  | .ended _ => none

/-- What a playback reports at its end: what it has measured, or a fault. -/
def report (playback : Playback) : Option Fault → Except Fault Measurements
  | none => .ok playback.measured
  | some fault => .error fault

/-- Whether a playback, as clocks show, does what events say and then has ended, with one more
sample for each call made, having led to what the system under load remembers last. -/
def RunsTo (clocks : List Clock) (state : Playback × Surroundings ω) (events : List Event)
    (made : List Made) (last : ω) (broken : Option Fault) : Prop :=
  ∃ (final : Playback) (limit : RateLimit) (samples : List Sample),
    follow? (advance? target) clocks state = some (final, ⟨limit, last⟩) ∧
    noted (advance? target) (event? target) clocks state = events ∧
    final.stage = .ended (final.report broken) ∧
    final.measured.samples = state.1.measured.samples ++ samples ∧
    List.Forall₂ Records made samples

/-- How many steps a playback makes for a call. -/
def stepsPerCall (limited : Bool) : Nat := if limited then 2 else 1

/-- Whether a playback makes the given calls and ends, whatever the clocks show and however many
calls others have reserved. -/
def Ends (playback : Playback) (world : ω) (made : List Made) (last : ω) (broken : Option Fault) :
    Prop :=
  ∀ (limit : RateLimit) (clocks : List Clock),
    clocks.length = stepsPerCall playback.limited * made.length →
    ∃ events, Reserves playback.limited made events ∧
      RunsTo target clocks (playback, ⟨limit, world⟩) events made last broken

/-! ## One call -/

variable {target} {playback : Playback} {world last : ω} {made : List Made} {broken : Option Fault}

/-- A playback that has ended makes no calls. -/
theorem ends_finish (result : Except Fault Measurements)
    (hresult : result = playback.report broken) :
    Ends target (playback.finish result) world [] world broken := by
  intro limit clocks hlength
  obtain rfl := List.length_eq_zero_iff.mp hlength
  refine ⟨[], .none, _, limit, [], rfl, rfl, ?_, (List.append_nil _).symm, .nil⟩
  rw [hresult]
  rfl

/-- A step that makes a call comes before what the playback does behind it. -/
theorem RunsTo.called {clock : Clock} {rest : List Clock} {limit : RateLimit} {call : Call}
    {after : ω} {outcome : CallOutcome} {next : Playback} {events : List Event}
    (hstage : playback.stage = .calling call)
    (hcall : target.call playback.worker call world = (after, outcome))
    (hbehind : playback.behind clock call outcome = .going next)
    (hmeasured : next.measured = playback.measured.add (sampleOf clock call outcome.response?))
    (h : RunsTo target rest (next, ⟨limit, after⟩) events made last broken) :
    RunsTo target (clock :: rest) (playback, ⟨limit, world⟩) (.called call outcome :: events)
      (⟨call, outcome⟩ :: made) last broken := by
  obtain ⟨final, limited, samples, hfollow, hnoted, hend, hsamples, hrecords⟩ := h
  have hstep : advance? target clock (playback, ⟨limit, world⟩) = some (next, ⟨limit, after⟩) := by
    have hgoing : playback.step target clock ⟨limit, world⟩ = (⟨limit, after⟩, .going next) := by
      rw [← hbehind]
      simp only [step, hstage, hcall]
      rfl
    rw [advance?, hgoing]
  have hevent : event? target clock (playback, ⟨limit, world⟩) = some (.called call outcome) := by
    rw [event?, hstage]
    dsimp only
    rw [hcall]
  refine ⟨final, limited, _ :: samples, ?_, ?_, hend, ?_,
    .cons (records_sampleOf clock call outcome) hrecords⟩
  · rw [follow?_cons, hstep]
    exact hfollow
  · rw [noted_cons hstep, hevent, hnoted]
    rfl
  · rw [hsamples, hmeasured, Measurements.samples_add, ← List.append_cons]

/-- A step that reserves a call comes before the call. -/
theorem RunsTo.reserved {clock : Clock} {rest : List Clock} {limit : RateLimit} {call : Call}
    {events : List Event} (hstage : playback.stage = .reserving call)
    (h : RunsTo target rest
      ({ playback with stage := .calling call }, ⟨(limit.reserve 1 clock.now).1, world⟩) events made
      last broken) :
    RunsTo target (clock :: rest) (playback, ⟨limit, world⟩) (.reserved clock.now :: events) made
      last broken := by
  obtain ⟨final, after, samples, hfollow, hnoted, hend, hsamples, hrecords⟩ := h
  have hstep : advance? target clock (playback, ⟨limit, world⟩) =
      some ({ playback with stage := .calling call }, ⟨(limit.reserve 1 clock.now).1, world⟩) := by
    have hgoing : playback.step target clock ⟨limit, world⟩ =
        (⟨(limit.reserve 1 clock.now).1, world⟩,
          .going { playback with stage := .calling call }) := by
      rw [step, hstage]
    rw [advance?, hgoing]
  have hevent : event? target clock (playback, ⟨limit, world⟩) = some (.reserved clock.now) := by
    rw [event?, hstage]
  refine ⟨final, after, samples, ?_, ?_, hend, hsamples, hrecords⟩
  · rw [follow?_cons, hstep]
    exact hfollow
  · rw [noted_cons hstep, hevent, hnoted]
    rfl

/-- Whether a playback is that of a worker with a connection, with the given rows to come. -/
structure Suits (playback : Playback) (worker : Nat) (limited lenient : Bool)
    (rows : List (List UInt8)) : Prop where
  worker_eq : playback.worker = worker
  connected : playback.connected = true
  limited_eq : playback.limited = limited
  lenient_eq : playback.lenient = lenient
  rows_eq : playback.rows = rows

/-- Whether playbacks go on in a way that changes no more than their rows and their stage. -/
def Moves (go : Playback → Playback) : Prop :=
  ∀ playback : Playback, ∃ rest stage, go playback = { playback with rows := rest, stage }

variable {worker : Nat} {limited lenient : Bool} {rows : List (List UInt8)}

/-- The end of a playback that goes on to a call is known from its end behind the call. -/
theorem ends_issue {call : Call} {after : ω} {outcome : CallOutcome} {go : Playback → Playback}
    (hcall : target.call worker call world = (after, outcome)) (hgo : Moves go)
    (hbehind : ∀ (playback : Playback) (clock : Clock), playback.behind clock call outcome =
      .going (go (playback.measure (sampleOf clock call outcome.response?))))
    (hends : ∀ playback : Playback, playback.Suits worker limited lenient rows →
      Ends target (go playback) after made last broken)
    (hsuits : playback.Suits worker limited lenient rows) :
    Ends target (playback.issue call) world (⟨call, outcome⟩ :: made) last broken := by
  obtain ⟨rfl, hconnected, rfl, rfl, rfl⟩ := hsuits
  -- Both with a limit and without one, the playback comes to make the call.
  have hcalling : ∀ (limit : RateLimit) (clock : Clock) (rest : List Clock),
      rest.length = stepsPerCall playback.limited * made.length →
      ∃ events, Reserves playback.limited made events ∧
        RunsTo target (clock :: rest) ({ playback with stage := .calling call }, ⟨limit, world⟩)
          (.called call outcome :: events) (⟨call, outcome⟩ :: made) last broken := by
    intro limit clock rest hlength
    have hnext := hbehind { playback with stage := .calling call } clock
    have hruns := hends (measure { playback with stage := .calling call }
      (sampleOf clock call outcome.response?)) ⟨rfl, hconnected, rfl, rfl, rfl⟩ limit rest
    obtain ⟨left, stage, hmoved⟩ := hgo (measure { playback with stage := .calling call }
      (sampleOf clock call outcome.response?))
    rw [hmoved] at hnext hruns
    obtain ⟨events, hreserves, hruns⟩ := hruns hlength
    exact ⟨events, hreserves, RunsTo.called rfl hcall hnext rfl hruns⟩
  intro limit clocks hlength
  rw [List.length_cons, Nat.mul_succ] at hlength
  have hsame : (playback.issue call).limited = playback.limited := rfl
  rw [hsame] at hlength ⊢
  rcases Bool.eq_false_or_eq_true playback.limited with hlimited | hlimited
  · have hissue : playback.issue call = { playback with stage := .reserving call } := by
      rw [issue, if_pos hlimited]
    have hsteps : stepsPerCall playback.limited = 2 := if_pos hlimited
    rw [hsteps] at hlength hcalling
    obtain ⟨leave, others, rfl⟩ := List.exists_cons_of_length_eq_add_one hlength
    obtain ⟨clock, rest, rfl⟩ := List.exists_cons_of_length_eq_add_one (Nat.succ.inj hlength)
    obtain ⟨events, hreserves, hruns⟩ := hcalling (limit.reserve 1 leave.now).1 clock rest
      (Nat.succ.inj (Nat.succ.inj hlength))
    rw [hissue]
    exact ⟨_, .reserved leave.now hlimited hreserves, RunsTo.reserved rfl hruns⟩
  · have hissue : playback.issue call = { playback with stage := .calling call } := by
      rw [issue, hlimited]
      rfl
    have hsteps : stepsPerCall playback.limited = 1 := by
      rw [hlimited]
      rfl
    rw [hsteps] at hlength hcalling
    obtain ⟨clock, rest, rfl⟩ := List.exists_cons_of_length_eq_add_one hlength
    obtain ⟨events, hreserves, hruns⟩ := hcalling limit clock rest (Nat.succ.inj hlength)
    rw [hissue]
    exact ⟨_, .free hlimited hreserves, hruns⟩

/-! ## All calls of a batch -/

theorem moves_issue (call : Call) : Moves fun playback => playback.issue call :=
  fun _ => ⟨_, _, rfl⟩

theorem moves_nextRow (rows : List (List UInt8)) : Moves fun playback => playback.nextRow rows := by
  intro playback
  dsimp only
  induction rows with
  | nil => exact ⟨_, _, rfl⟩
  | cons row rest ih =>
    rw [nextRow]
    split
    · split
      · exact ih
      · exact ⟨_, _, rfl⟩
    · split <;> exact ⟨_, _, rfl⟩

/-- How a playback goes on behind the calls that a command led to. -/
def beyond (command : Command) (failure : Option Fault) (playback : Playback) : Playback :=
  match failure with
  | none => playback.nextRow playback.rows
  | some fault =>
    if playback.lenient then playback.nextRow playback.rows
    else playback.finish (.error (callFault command fault))

theorem moves_beyond (command : Command) (failure : Option Fault) :
    Moves (beyond command failure) := by
  intro playback
  cases failure with
  | none => exact moves_nextRow playback.rows playback
  | some fault =>
    rw [beyond]
    split
    · exact moves_nextRow playback.rows playback
    · exact ⟨_, _, rfl⟩

section

variable {playback : Playback} (hsuits : playback.Suits worker limited lenient rows)

include hsuits

/-- A row that is a command is called, and the rows behind it are left. -/
theorem Suits.nextRow_command {row : List UInt8} {command : Command}
    (hrow : Row.command row = .ok command) (rest : List (List UInt8)) :
    playback.nextRow (row :: rest) = issue { playback with rows := rest } (.execute command) := by
  rw [nextRow, hrow]
  exact if_pos hsuits.connected

/-- A row that is no command is passed over by who is lenient, and is fatal to all others. -/
theorem Suits.nextRow_error {row : List UInt8} {fault : RowFault}
    (hrow : Row.command row = .error fault) (rest : List (List UInt8)) :
    playback.nextRow (row :: rest) =
      if lenient then playback.nextRow rest
      else finish { playback with rows := rest } (.error fault.fault) := by
  rw [nextRow, hrow, ← hsuits.lenient_eq]

/-- Behind a command that has not failed, or whose failure is passed over, the next row follows. -/
theorem Suits.beyond_goes {failure : Option Fault} (hgoes : lenient = true ∨ failure = none)
    (command : Command) : playback.beyond command failure = playback.nextRow rows := by
  rw [← hsuits.rows_eq]
  cases failure with
  | none => rfl
  | some fault =>
    exact if_pos (hsuits.lenient_eq.trans (hgoes.resolve_right (Option.some_ne_none fault)))

theorem Suits.beyond_finish (hstrict : lenient = false) (command : Command) (fault : Fault) :
    playback.beyond command (some fault) = playback.finish (.error (callFault command fault)) :=
  if_neg (by rw [hsuits.lenient_eq, hstrict]; nofun)

end

section

variable (hcalm : ∀ call world, (target.call worker call world).2 ≠ .panicked)

include hcalm

/-- The end of a playback that goes on to a call is known from its end behind all calls that the
call leads to. -/
theorem exists_episode {call : Call} (hsettles : target.Settles worker call world) :
    ∃ (made : List Made) (failure : Option Fault) (mid : ω),
      Episode call made failure ∧ target.Makes worker world made mid ∧
      ∀ (more : List Made) (broken : Option Fault) (last : ω),
        (∀ playback : Playback, playback.Suits worker limited lenient rows →
          Ends target (playback.beyond call.command failure) mid more last broken) →
        ∀ playback : Playback, playback.Suits worker limited lenient rows →
          Ends target (playback.issue call) world (made ++ more) last broken := by
  -- By induction on the pages that are still to come.
  induction hsettles with
  | @intro call world hpages ih =>
  cases hcall : target.call worker call world with
  | mk after outcome =>
  rw [hcall] at hpages ih
  have hmakes := @Target.Makes.cons ω target worker call world
  rw [hcall] at hmakes
  cases outcome with
  | panicked => exact absurd (congrArg Prod.snd hcall) (hcalm call world)
  | failed fault =>
    refine ⟨[⟨call, .failed fault⟩], some fault, after, .failed, hmakes (Target.makes_nil after),
      fun more broken last hends playback hsuits => ?_⟩
    exact ends_issue hcall (moves_beyond call.command (some fault)) (fun _ _ => rfl) hends hsuits
  | answered response =>
    cases hnext : response.next? with
    | none =>
      have hlast := Response.next?_eq_none_iff.mp hnext
      refine ⟨[⟨call, .answered response⟩], none, after, .last hlast,
        hmakes (Target.makes_nil after), fun more broken last hends playback hsuits => ?_⟩
      refine ends_issue hcall (moves_beyond call.command none) (fun playback clock => ?_)
        hends hsuits
      rw [behind, answered, hnext]
      rfl
    | some cursor =>
      have hnames := Response.next?_eq_some_iff.mp hnext
      obtain ⟨made, failure, mid, hepisode, hmade, hpage⟩ := ih response cursor rfl hnames
      refine ⟨⟨call, .answered response⟩ :: made, failure, mid, .page hnames hepisode, hmakes hmade,
        fun more broken last hends playback hsuits => ?_⟩
      refine ends_issue hcall (moves_issue (.readCursor call.command cursor))
        (fun playback clock => ?_)
        (hpage more broken last hends) hsuits
      rw [behind, answered, hnext]
      rfl

variable (hsettles : ∀ command world, target.Settles worker (.execute command) world)

include hsettles

/-- A playback of rows makes the calls of a performance of them. -/
theorem exists_performance (limited lenient : Bool) (rows : List (List UInt8)) (world : ω) :
    ∃ (made : List Made) (broken : Option Fault) (last : ω),
      Performance lenient rows made broken ∧ target.Makes worker world made last ∧
      ∀ (playback : Playback) (others : List (List UInt8)),
        playback.Suits worker limited lenient others →
          Ends target (playback.nextRow rows) world made last broken := by
  induction rows generalizing world with
  | nil =>
    refine ⟨[], none, world, .done, Target.makes_nil world, fun playback others hsuits => ?_⟩
    exact @ends_finish _ _ { playback with rows := [] } world _ _ rfl
  | cons row rest ih =>
    cases hrow : Row.command row with
    | error fault =>
      cases lenient with
      | true =>
        obtain ⟨made, broken, last, hperformance, hmakes, hends⟩ := ih world
        refine ⟨made, broken, last, .skipped hrow rfl hperformance, hmakes,
          fun playback others hsuits => ?_⟩
        rw [hsuits.nextRow_error hrow]
        exact hends playback others hsuits
      | false =>
        refine ⟨[], some fault.fault, world, .rejected hrow rfl, Target.makes_nil world,
          fun playback others hsuits => ?_⟩
        rw [hsuits.nextRow_error hrow]
        exact @ends_finish _ _ { playback with rows := rest } world (some fault.fault) _ rfl
    | ok command =>
      obtain ⟨made, failure, mid, hepisode, hmakes, hissue⟩ :=
        @exists_episode _ _ _ _ limited lenient rest hcalm _ (hsettles command world)
      have hends : ∀ more broken last,
          (∀ playback : Playback, playback.Suits worker limited lenient rest →
            Ends target (playback.beyond command failure) mid more last broken) →
          ∀ (playback : Playback) (others : List (List UInt8)),
            playback.Suits worker limited lenient others →
              Ends target (playback.nextRow (row :: rest)) world (made ++ more) last broken := by
        intro more broken last hbeyond playback others hsuits
        rw [hsuits.nextRow_command hrow]
        exact hissue more broken last hbeyond _
          ⟨hsuits.worker_eq, hsuits.connected, hsuits.limited_eq, hsuits.lenient_eq, rfl⟩
      by_cases hgoes : lenient = true ∨ failure = none
      · obtain ⟨more, broken, last, hperformance, hmore, hrest⟩ := ih mid
        refine ⟨made ++ more, broken, last, .played hrow hepisode hgoes hperformance,
          Target.makes_append_iff.mpr ⟨mid, hmakes, hmore⟩,
          hends more broken last fun playback hsuits => ?_⟩
        rw [hsuits.beyond_goes hgoes]
        exact hrest playback rest hsuits
      · obtain ⟨hlenient, hfailure⟩ := not_or.mp hgoes
        obtain ⟨fault, rfl⟩ := Option.ne_none_iff_exists'.mp hfailure
        have hstrict : lenient = false := Bool.eq_false_of_not_eq_true hlenient
        refine ⟨made, some (callFault command fault), mid, .broken hrow hepisode hstrict,
          hmakes, ?_⟩
        rw [← List.append_nil made]
        refine hends [] _ mid fun playback hsuits => ?_
        rw [hsuits.beyond_finish hstrict]
        exact ends_finish _ rfl

end

/-! ## The run of a batch -/

/-- What a step does outside is what its event says. -/
theorem advance?_after {clock : Clock} {state next : Playback × Surroundings ω}
    (h : advance? target clock state = some next) :
    next.1.worker = state.1.worker ∧
      next.2 = (event? target clock state).toList.foldl (Event.after target state.1.worker)
        state.2 := by
  obtain ⟨playback, limit, world⟩ := state
  unfold advance? step at h
  unfold event?
  dsimp only at h ⊢
  cases hstage : playback.stage with
  | ended result => cases result <;> simp only [hstage] at h <;> cases h
  | reserving call =>
    simp only [hstage] at h
    cases h
    exact ⟨rfl, rfl⟩
  | calling call =>
    simp only [hstage] at h
    cases hcall : target.call playback.worker call world with
    | mk after outcome =>
    simp only [hcall] at h
    have hafter : (⟨limit, after⟩ : Surroundings ω) =
        ⟨limit, (target.call playback.worker call world).1⟩ := by rw [hcall]
    cases outcome with
    | panicked => cases h
    | answered response =>
      cases h
      refine ⟨?_, hafter⟩
      rw [answered]
      dsimp only
      split
      · rfl
      · obtain ⟨rest, stage, hnext⟩ := moves_nextRow
          (playback.measure (sampleOf clock call (some response))).rows
          (playback.measure (sampleOf clock call (some response)))
        dsimp only at hnext
        rw [hnext]
        rfl
    | failed fault =>
      cases h
      refine ⟨?_, hafter⟩
      obtain ⟨rest, stage, hnext⟩ := moves_beyond call.command (some fault)
        (playback.measure (sampleOf clock call none))
      have hfailed : playback.failed clock call fault =
          beyond call.command (some fault) (playback.measure (sampleOf clock call none)) := rfl
      rw [hfailed, hnext]
      rfl

/-- What a playback does outside is what its events say. -/
theorem follow?_after {clocks : List Clock} {surroundings left : Surroundings ω}
    {final : Playback}
    (h : follow? (advance? target) clocks (playback, surroundings) = some (final, left)) :
    left = (noted (advance? target) (event? target) clocks (playback, surroundings)).foldl
      (Event.after target playback.worker) surroundings := by
  have hkept := @follow?_noted _ _ (advance? target) _ (event? target)
    (fun events state => state.1.worker = playback.worker ∧
      state.2 = events.foldl (Event.after target playback.worker) surroundings)
    (fun events clock state next hstate hstep => by
      obtain ⟨hworker, hafter⟩ := advance?_after hstep
      rw [hstate.1] at hworker hafter
      rw [List.foldl_append, ← hstate.2]
      exact ⟨hworker, hafter⟩)
    clocks [] (playback, surroundings) (final, left) ⟨rfl, rfl⟩ h
  exact hkept.2

/-- A worker with a connection performs the rows of a batch, whatever the system under load
remembers, as long as no call panics and every command has an end of pages.  It makes exactly these
calls, each behind one reservation if the rate is limited, and measures each of them once.  Who is
lenient passes over exactly the rows that are no commands and always ends well; who is strict does
so if every row is a command and every call is answered. -/
theorem plays_batch (target : Target ω) (worker : Nat) (lenient limited : Bool)
    (batch : Batch (List UInt8)) (world : ω)
    (hcalm : ∀ call world, (target.call worker call world).2 ≠ .panicked)
    (hsettles : ∀ command world, target.Settles worker (.execute command) world) :
    ∃ (made : List Made) (broken : Option Fault),
      Performance lenient batch.items made broken ∧
      (target.perform worker (made.map Made.call) world).2 = made.map Made.outcome ∧
      (lenient = true → broken = none ∧ made.filterMap Made.executed? =
        batch.items.filterMap fun row => (Row.command row).toOption) ∧
      (lenient = false → (broken = none ↔
        (∀ row ∈ batch.items, ∃ command, Row.command row = .ok command) ∧
          ∀ one ∈ made, one.Answered)) ∧
      ∀ (limit : RateLimit) (clocks : List Clock),
        clocks.length = (if limited then 2 else 1) * made.length →
        let first := (Row.handler target lenient).start ⟨worker, true⟩ batch true limited
        let events := noted (advance? target) (event? target) clocks (first, ⟨limit, world⟩)
        ∃ (final : Playback) (surroundings : Surroundings ω),
          follow? (advance? target) clocks (first, ⟨limit, world⟩) = some (final, surroundings) ∧
          surroundings = events.foldl (Event.after target worker) ⟨limit, world⟩ ∧
          Reserves limited made events ∧
          final.measured.count = made.length ∧
          List.Forall₂ Records made final.measured.samples ∧
          ∀ clock, (Row.handler target lenient).step clock final surroundings =
            (surroundings, match broken with
              | none => .done final.measured
              | some fault => .failed fault) := by
  obtain ⟨made, broken, last, hperformance, hmakes, hends⟩ :=
    exists_performance hcalm hsettles limited lenient batch.items world
  refine ⟨made, broken, hperformance, congrArg Prod.snd hmakes, hperformance.of_lenient,
    hperformance.eq_none_iff, fun limit clocks hlength => ?_⟩
  have hsuits : Suits
      ⟨worker, true, limited, lenient, batch.items, Measurements.empty,
        .ended (.ok Measurements.empty)⟩
      worker limited lenient batch.items := ⟨rfl, rfl, rfl, rfl, rfl⟩
  obtain ⟨rest, stage, hfirst⟩ := moves_nextRow batch.items
    ⟨worker, true, limited, lenient, batch.items, Measurements.empty,
      .ended (.ok Measurements.empty)⟩
  have hstart : (Row.handler target lenient).start ⟨worker, true⟩ batch true limited =
      ⟨worker, true, limited, lenient, rest, Measurements.empty, stage⟩ := hfirst
  have hruns := hends _ _ hsuits limit clocks
  dsimp only at hfirst
  rw [hfirst] at hruns
  obtain ⟨events, hreserves, final, after, samples, hfollow, rfl, hend, hsamples, hrecords⟩ :=
    hruns hlength
  rw [hstart]
  refine ⟨final, ⟨after, last⟩, hfollow, follow?_after hfollow, hreserves, ?_, ?_, fun clock => ?_⟩
  · rw [Measurements.count, hsamples]
    exact hrecords.length_eq.symm
  · rw [hsamples]
    exact hrecords
  · show final.step target clock ⟨after, last⟩ = _
    cases broken <;> simp only [step, hend, report]

/-- A system under load that remembers how many pages are left to read: two more behind each
command, and behind the last page a cursor that is none. -/
def book : Target Nat where
  connect := fun _ pages => (pages, none)
  call := fun _ call pages =>
    match call, pages with
    | .execute _, _ => (2, .answered ⟨10, false, some 2⟩)
    | .readCursor _ _, 0 => (0, .answered ⟨5, false, some 0⟩)
    | .readCursor _ _, pages + 1 => (pages, .answered ⟨5, false, some 1⟩)
  close := fun _ pages => pages

theorem settles_book (worker : Nat) (command : Command) (cursor : UInt64) (pages : Nat) :
    book.Settles worker (.readCursor command cursor) pages := by
  induction pages generalizing cursor with
  | zero =>
    refine .intro fun response next hresponse hnames => ?_
    cases hresponse
    exact absurd (Option.some.inj hnames.1).symm hnames.2
  | succ pages ih => exact .intro fun response next _ _ => ih next

/-- The calls that a command leads to in the book. -/
def bookCalls (command : Command) : List Made :=
  [⟨.execute command, .answered ⟨10, false, some 2⟩⟩,
    ⟨.readCursor command 2, .answered ⟨5, false, some 1⟩⟩,
    ⟨.readCursor command 1, .answered ⟨5, false, some 1⟩⟩,
    ⟨.readCursor command 1, .answered ⟨5, false, some 0⟩⟩]

theorem episode_book (command : Command) : Episode (.execute command) (bookCalls command) none :=
  .page ⟨rfl, by decide⟩ (.page ⟨rfl, by decide⟩ (.page ⟨rfl, by decide⟩ (.last (Or.inr rfl))))

theorem performance_book : Performance true Row.threeRows
    (bookCalls ⟨"READ", "a", "GET", [], 6⟩ ++ bookCalls ⟨"WRITE", "b", "SET", [], 6⟩) none := by
  obtain ⟨hget, ⟨fault, hdrop⟩, hset⟩ := Row.command_threeRows
  rw [← List.append_nil (bookCalls ⟨"WRITE", "b", "SET", [], 6⟩)]
  exact .played hget (episode_book _) (Or.inl rfl)
    (.skipped hdrop rfl (.played hset (episode_book _) (Or.inl rfl) .done))

/-- Each of the two commands is executed, and its three pages are read. -/
theorem plays_book : ∃ made : List Made,
    made = bookCalls ⟨"READ", "a", "GET", [], 6⟩ ++ bookCalls ⟨"WRITE", "b", "SET", [], 6⟩ ∧
    ∀ (limit : RateLimit) (clocks : List Clock), clocks.length = 2 * made.length →
      let first := (Row.handler book true).start ⟨7, true⟩ ⟨1, Row.threeRows⟩ true true
      ∃ (final : Playback) (surroundings : Surroundings Nat),
        follow? (advance? book) clocks (first, ⟨limit, 0⟩) = some (final, surroundings) ∧
        Reserves true made (noted (advance? book) (event? book) clocks (first, ⟨limit, 0⟩)) ∧
        final.measured.count = 8 ∧ List.Forall₂ Records made final.measured.samples := by
  have hcalm : ∀ call pages, (book.call 7 call pages).2 ≠ .panicked := by
    rintro (command | ⟨command, cursor⟩) (_ | pages) hpanicked <;> cases hpanicked
  obtain ⟨made, broken, hperformance, houtcomes, -, -, hruns⟩ :=
    plays_batch book 7 true true ⟨1, Row.threeRows⟩ 0 hcalm
      fun command pages => .intro fun response cursor _ _ => settles_book 7 command cursor 2
  -- There is only one performance of these rows.
  have hmade : book.Makes 7 0 made _ := Prod.ext rfl houtcomes
  have hbook : book.Makes 7 0
      (bookCalls ⟨"READ", "a", "GET", [], 6⟩ ++ bookCalls ⟨"WRITE", "b", "SET", [], 6⟩) 0 := rfl
  obtain ⟨rfl, -, -⟩ := hperformance.unique hmade performance_book hbook
  refine ⟨_, rfl, fun limit clocks hlength => ?_⟩
  obtain ⟨final, surroundings, hfollow, -, hreserves, hcount, hrecords, -⟩ :=
    hruns limit clocks hlength
  exact ⟨final, surroundings, hfollow, hreserves, hcount, hrecords⟩

end Playback

end LoadBench
