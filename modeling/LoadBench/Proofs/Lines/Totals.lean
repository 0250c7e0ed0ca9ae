/-
  LoadBench.Proofs.Lines.Totals

  The totals of a run over lines.  They are those of the sequential replay of its
  rows (`replays_lines`): how many workers and queues there are, how large the
  batches, in which pieces the bytes arrive, who makes the next step and when
  periods are reported does not matter.

  This needs a line limit under which lines can be read (`LineReader.isReadable`).
  Under the two greatest limits, 64 bits do not hold the number of bytes taken for
  one line, the reader panics at its first item, and no run ends with a report.

  A run starts with valid settings (`Run.start`), whatever room there is; a user gets
  one only if what it starts with fits into memory (`Settings.canStart`).  Then the
  user gets the report, if the driver of the run may make enough steps
  (`reports_lines`).
-/

import LoadBench.Lines.Workload
import LoadBench.Proofs.Lines.Reader
import LoadBench.Proofs.Row.Replay
import LoadBench.Proofs.Row.Whole
import LoadBench.Proofs.Run.Drive
import LoadBench.Proofs.Run.Lost
import LoadBench.Proofs.Run.Schedule
import LoadBench.Run.Outcome

namespace LoadBench

variable {ω : Type}

/-! ## Lines as items -/

/-- Whether an input of lines that is read once has certain items left. -/
structure LineInput.Holds (input : LineInput) (rest : List (List UInt8)) : Prop where
  once : input.reopened = none
  readable : LineReader.isReadable input.reader.limit = true
  gives : input.reader.Gives rest

namespace LineInput

variable {input : LineInput} {rest : List (List UInt8)}

/-- An input of lines gives its items one after another. -/
theorem Holds.next (h : input.Holds rest) :
    ∃ after, input.next = (after, match rest.head? with
      | some line => .item line
      | none => .ended) ∧ after.Holds rest.tail := by
  obtain ⟨reader, hnext, hgives, hlimit⟩ := h.gives.next
  refine ⟨{ input with reader }, ?_, h.once, ?_, hgives⟩
  · rw [LineInput.next, if_pos h.readable, hnext]
    cases rest with
    | nil => rfl
    | cons line rest => rfl
  · show LineReader.isReadable reader.limit = true
    rw [hlimit]
    exact h.readable

end LineInput

/-! ## What a run is to do -/

/-- What a run over lines is to do: to replay the items of its bytes. -/
def replayTask (settings : Settings) (reply : Call → CallOutcome) (chain : Command → List Call)
    (source : Source) : Assignment (List UInt8) Seat Playback LineInput where
  plan := settings.plan
  routing := Routing.inTurn settings.queueCount
  contract := Row.contract reply chain
  items := LineReader.itemsOf source.content
  left := LineInput.Holds

/-- The first items up to a limit; all of them if it is zero. -/
def upTo (limit : Nat) (items : List (List UInt8)) : List (List UInt8) :=
  if limit = 0 then items else items.take limit

variable {target : Target ω} {reply : Call → CallOutcome} {chain : Command → List Call}
  {settings : Settings} {source : Source}

theorem suits_replay (htarget : target.Answers reply)
    (hchain : ∀ command, Chain reply (.execute command) (chain command))
    (hqueues : 0 < settings.queueCount) (room : Nat) (configuration : Table String Json.Value)
    (hcountable : Sample.Countable (replayTask settings reply chain source).samples) :
    (lineWorkload target true room configuration).Suits
      (replayTask settings reply chain source) where
  meets := Row.handler_meets htarget hchain
  routed := Routing.inTurn_lt hqueues
  item := fun hleft => hleft.next
  ended := fun hleft => hleft.next
  again := by
    intro input rest hleft
    refine ⟨input, ?_, hleft⟩
    show input.again = _
    rw [LineInput.again, hleft.once]
  countable := hcountable

/-! ## What comes of it -/

/-- Whether settings are valid, issue commands, measure all of them, set no deadline and ask for no
report file. -/
structure Settings.MeasuresAll (settings : Settings) : Prop where
  valid : settings.validate = .ok ()
  loadEnabled : settings.loadEnabled = true
  burnIn : settings.burnIn = 0
  duration : settings.duration = none
  reportFile : settings.reportFile = none

/-- Whether a user gets a report with certain totals. -/
def Outcome.Reports (outcome : Outcome ω) (totals : Totals) : Prop :=
  ∃ report, outcome.result = some (.ok report) ∧ report.totals = totals

/-- The samples of a replay are those of its calls. -/
theorem samples_replay (settings : Settings) (reply : Call → CallOutcome)
    (chain : Command → List Call) (source : Source) :
    (replayTask settings reply chain source).samples =
      ((((upTo settings.limit (LineReader.itemsOf source.content)).flatMap
        (Row.callsOf chain)).map (Call.sample reply) : List Sample) : Multiset Sample) :=
  Row.total_contract chain _

namespace Run

/-- A run that is over and has recorded the replay reports it. -/
theorem Finished.reports {last : Run (List UInt8) Seat Playback ω LineInput} {calls : List Call}
    {settings : Settings} {source : Source}
    (h : last.Finished (replayTask settings reply chain source))
    (hcalls : calls = (upTo settings.limit (LineReader.itemsOf source.content)).flatMap
      (Row.callsOf chain))
    (hsent : (Counts.ofCalls reply calls).sent < 2 ^ 64)
    (hreceived : (Counts.ofCalls reply calls).received < 2 ^ 64)
    (hreportFile : settings.reportFile = none) (configuration : Table String Json.Value)
    (took : TimeSpan) :
    (last.outcome settings configuration took).Reports
      (Totals.ofCounts (Counts.ofCalls reply calls)) := by
  obtain ⟨tally, hstage⟩ := h.stage_eq
  -- What was recorded are the samples of the calls, and 64 bits hold their bytes.
  have hrecorded := h.recorded.counts_eq
  rw [samples_replay, ← hcalls, Counts.ofSamples_calls hsent hreceived] at hrecorded
  refine ⟨Report.compose last.crew.floor.ledger (settings.facts configuration took), ?_, ?_⟩
  · rw [outcome, hstage, hreportFile]
    rfl
  · show Totals.ofCounts last.crew.floor.ledger.counts = _
    rw [hrecorded]

/-- Under a limit that is too great no run over lines ends with a report. -/
theorem no_report_of_unreadable {settings : Settings} (hmeasures : settings.MeasuresAll)
    {workload : Workload (List UInt8) Seat Playback ω LineInput}
    (hnext : workload.next = LineInput.next) {input : LineInput}
    (hunreadable : LineReader.isReadable input.reader.limit = false) {world : ω}
    {first last : Run (List UInt8) Seat Playback ω LineInput} {moves : List (Clock × Move)}
    (hstart : start workload settings world input = .ok first)
    (hmoves : first.follow? workload moves = some last) (configuration : Table String Json.Value)
    (took : TimeSpan) (report : Report) :
    (last.outcome settings configuration took).result ≠ some (.ok report) := by
  obtain ⟨hbatches, hqueues, -⟩ := Settings.valid hmeasures.valid
  -- The first attempt to read a line is lost.
  have hpanics : (workload.next input).2 = .panicked := by
    rw [hnext, LineInput.next, hunreadable]
    rfl
  have hnever := not_over_ok_of_panics hbatches hqueues hmeasures.duration hpanics hstart hmoves
  unfold outcome
  match hstage : last.stage with
  | .over (.ok tally) => exact absurd hstage (hnever tally)
  | .over (.error fault) => exact nofun
  | .scanning | .closing | .joining | .panicked => exact nofun

section

variable (htarget : target.Answers reply)
  (hchain : ∀ command, Chain reply (.execute command) (chain command))
  (hmeasures : settings.MeasuresAll) (hreliable : source.Reliable) {longest : UInt64}
  (hreadable : LineReader.isReadable longest = true)
  (hfits : ∀ line ∈ LineReader.linesOf source.content, LineReader.Fits longest line)
  {calls : List Call}
  (hcalls : calls = (upTo settings.limit (LineReader.itemsOf source.content)).flatMap
    (Row.callsOf chain))
  (hsent : (Counts.ofCalls reply calls).sent < 2 ^ 64)
  (hreceived : (Counts.ofCalls reply calls).received < 2 ^ 64)
  {buffer room : Nat} (configuration : Table String Json.Value) (world : ω) (took : TimeSpan)

include htarget hchain hmeasures hreliable hreadable hfits hcalls hsent hreceived

/-- A run over lines that can be read comes to its end whatever the schedule, and reports the totals
of the calls of its rows. -/
theorem leads_lines :
    ∃ first, start (lineWorkload target true room configuration) settings world
        ⟨LineReader.start source longest, buffer, none⟩ = .ok first ∧
      first.Leads (lineWorkload target true room configuration) fun last =>
        (last.outcome settings (lineWorkload target true room configuration).configuration
          took).Reports (Totals.ofCounts (Counts.ofCalls reply calls)) := by
  have hqueues := (Settings.valid hmeasures.valid).2.1
  -- The samples of the replay are those of its calls, so 64 bits hold their bytes, too.
  have hcountable : Sample.Countable (replayTask settings reply chain source).samples := by
    rw [samples_replay, ← hcalls]
    refine ⟨?_, ?_⟩
    · rw [Call.sentBytes_sample hsent]
      exact hsent
    · rw [Call.receivedBytes_sample]
      exact hreceived
  have hsuits := suits_replay htarget hchain hqueues room configuration hcountable
  have hleft : LineInput.Holds ⟨LineReader.start source longest, buffer, none⟩
      (LineReader.itemsOf source.content) := ⟨rfl, hreadable, hreliable, hfits, rfl⟩
  exact leads_start hmeasures.valid hmeasures.loadEnabled hmeasures.burnIn hmeasures.duration
    rfl rfl hsuits world hleft fun last hlast =>
      hlast.reports hcalls hsent hreceived hmeasures.reportFile _ took

/-- With room for what a run starts with, a user gets the report, if enough steps are made. -/
theorem reports_lines (hroom : settings.canStart room buffer = true) (clock : Clock) :
    ∃ fuel, ∀ more,
      ((lineWorkload target true room configuration).run settings clock took (fuel + more)
        (.ok ⟨LineReader.start source longest, buffer, none⟩) world).Reports
          (Totals.ofCounts (Counts.ofCalls reply calls)) := by
  obtain ⟨first, hstart, hleads⟩ := leads_lines htarget hchain hmeasures hreliable hreadable hfits
    hcalls hsent hreceived configuration world took
  exact Workload.exists_fuel_run hmeasures.valid hroom hstart
    (fun outcome => outcome.Reports (Totals.ofCounts (Counts.ofCalls reply calls))) hleads clock

end

/-- A run over lines comes to its end whatever the schedule, and reports the totals of the
sequential replay of its rows. The replay is the same for all settings with one limit of requests,
and for all pieces in which the bytes may arrive. Only a line limit under which no line can be read
keeps a run from its report. -/
theorem replays_lines (htarget : target.Answers reply)
    (hfinite : ∀ command, ∃ calls, Chain reply (.execute command) calls) (bytes : List UInt8)
    (requests : Nat) :
    ∃ calls, Replay reply (upTo requests (LineReader.itemsOf bytes)) calls ∧
      ∀ (source : Source) (longest : UInt64) (buffer : Nat) (settings : Settings) (room : Nat)
        (configuration : Table String Json.Value) (world : ω) (took : TimeSpan),
      source.Reliable → source.content = bytes →
      (∀ line ∈ LineReader.linesOf bytes, LineReader.Fits longest line) →
      settings.MeasuresAll → settings.limit = requests →
      (Counts.ofCalls reply calls).sent < 2 ^ 64 → (Counts.ofCalls reply calls).received < 2 ^ 64 →
      let workload := lineWorkload target true room configuration
      ∃ first, start workload settings world ⟨LineReader.start source longest, buffer, none⟩ =
          .ok first ∧
        (LineReader.isReadable longest = true → first.Leads workload fun last =>
          (last.outcome settings workload.configuration took).Reports
            (Totals.ofCounts (Counts.ofCalls reply calls))) ∧
        (LineReader.isReadable longest = false →
          ∀ moves last, first.follow? workload moves = some last → ∀ report,
            (last.outcome settings workload.configuration took).result ≠ some (.ok report)) := by
  choose chain hchain using hfinite
  refine ⟨_, Row.replay_callsOf hchain _, ?_⟩
  rintro source longest buffer settings room configuration world took hreliable rfl hfits hmeasures
    rfl hsent hreceived
  obtain ⟨first, hfirst⟩ := exists_start (lineWorkload target true room configuration)
    (Settings.valid hmeasures.valid).2.1 world ⟨LineReader.start source longest, buffer, none⟩
  refine ⟨first, hfirst, ?_, ?_⟩
  · intro hreadable
    obtain ⟨other, hother, hleads⟩ := leads_lines htarget hchain hmeasures hreliable hreadable hfits
      rfl hsent hreceived configuration world took
    rw [hfirst] at hother
    obtain rfl := Except.ok.inj hother
    exact hleads
  · intro hunreadable moves last hmoves
    exact no_report_of_unreadable hmeasures rfl hunreadable hfirst hmoves _ took

/-- Commands lead to two pages each. -/
def twoPages : Call → CallOutcome
  | .execute _ => .answered ⟨3, false, some 5⟩
  | .readCursor _ _ => .answered ⟨2, false, none⟩

/-- A system under load that answers with two pages, and remembers nothing. -/
def pager : Target Unit where
  connect := fun _ _ => ((), none)
  call := fun _ call _ => ((), twoPages call)
  close := fun _ _ => ()

/-- The lines `READ,a,GET` with a carriage return, a blank one, `DROP`, and `WRITE,b,SET` without a
line feed, in two pieces. -/
def fourLines : Source :=
  [.bytes [82, 69, 65, 68, 44], .interrupted,
    .bytes [97, 44, 71, 69, 84, 13, 10, 10, 68, 82, 79, 80, 10, 87, 82, 73, 84, 69, 44, 98, 44, 83,
      69, 84]]

/-- Three workers at two queues, to which each line goes by itself. -/
def threeAtTwo : Settings := { Settings.standard 3 with batchSize := 1, queues := .count 2 }

/-- The calls of the two commands among the four lines. -/
def fourCalls : List Call :=
  let get : Command := ⟨"READ", "a", "GET", [], 6⟩
  let set : Command := ⟨"WRITE", "b", "SET", [], 6⟩
  [.execute get, .readCursor get 5, .execute set, .readCursor set 5]

theorem chain_twoPages (command : Command) :
    Chain twoPages (.execute command) [.execute command, .readCursor command 5] :=
  .page rfl ⟨rfl, by decide⟩ (.last rfl (Or.inl rfl))

theorem replay_fourLines :
    Replay twoPages (upTo 0 (LineReader.itemsOf fourLines.content)) fourCalls := by
  have hitems : upTo 0 (LineReader.itemsOf fourLines.content) = Row.threeRows := by decide
  obtain ⟨hget, ⟨fault, hdrop⟩, hset⟩ := Row.command_threeRows
  rw [hitems]
  exact .played hget (chain_twoPages _) (.skipped hdrop (.played hset (chain_twoPages _) .done))

theorem replays_fourLines : ∃ first lost,
    start (lineWorkload pager true 1 Table.empty) threeAtTwo ()
        ⟨LineReader.start fourLines LineReader.standardLimit, 0, none⟩ = .ok first ∧
      (first.Leads (lineWorkload pager true 1 Table.empty) fun last =>
        (last.outcome threeAtTwo (lineWorkload pager true 1 Table.empty).configuration
          (TimeSpan.ofParts 1 0)).Reports ⟨4, 0, 1, 1, 2, 0, 0, 0, 0, 0, 12, 10⟩) ∧
    start (lineWorkload pager true 1 Table.empty) threeAtTwo ()
        ⟨LineReader.start fourLines 18446744073709551615, 0, none⟩ = .ok lost ∧
      ∀ moves last, lost.follow? (lineWorkload pager true 1 Table.empty) moves = some last →
        ∀ report, (last.outcome threeAtTwo (lineWorkload pager true 1 Table.empty).configuration
          (TimeSpan.ofParts 1 0)).result ≠ some (.ok report) := by
  obtain ⟨calls, hreplay, hruns⟩ := @replays_lines Unit pager twoPages
    ⟨fun _ _ => rfl, fun _ _ _ => rfl⟩ (fun command => ⟨_, chain_twoPages command⟩)
    fourLines.content 0
  obtain rfl := hreplay.unique replay_fourLines
  have htotals : Totals.ofCounts (Counts.ofCalls twoPages fourCalls) =
      ⟨4, 0, 1, 1, 2, 0, 0, 0, 0, 0, 12, 10⟩ := by decide
  have hsent : (Counts.ofCalls twoPages fourCalls).sent < 2 ^ 64 := by decide
  have hreceived : (Counts.ofCalls twoPages fourCalls).received < 2 ^ 64 := by decide
  have hreliable : fourLines.Reliable := by
    intro message hmem
    simp [fourLines] at hmem
  have hmeasures : threeAtTwo.MeasuresAll := ⟨by decide, rfl, rfl, rfl, rfl⟩
  have hstandard : ∀ line ∈ LineReader.linesOf fourLines.content,
      LineReader.Fits LineReader.standardLimit line := by decide
  have hgreatest : ∀ line ∈ LineReader.linesOf fourLines.content,
      LineReader.Fits 18446744073709551615 line := by decide
  obtain ⟨first, hfirst, hleads, -⟩ := hruns fourLines LineReader.standardLimit 0 threeAtTwo 1
    Table.empty () (TimeSpan.ofParts 1 0) hreliable rfl hstandard hmeasures rfl hsent hreceived
  obtain ⟨lost, hlost, -, hnever⟩ := hruns fourLines 18446744073709551615 0 threeAtTwo 1 Table.empty
    () (TimeSpan.ofParts 1 0) hreliable rfl hgreatest hmeasures rfl hsent hreceived
  rw [htotals] at hleads
  exact ⟨first, lost, hfirst, hleads rfl, hlost, hnever rfl⟩

end Run

end LoadBench
