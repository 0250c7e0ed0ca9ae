/-
  LoadBench.Proofs.Report.Queries

  The statistics of one query under one label.  They are kept under both names joined by
  a hyphen (`Sample.queryKey`), and names that have hyphens themselves can be joined to
  one key in more than one way (`Sample.queryKey_eq_iff`).  So a report shows under the
  key of a command all commands with that key (`Ledger.Tallies.showsQuery`), and these
  are the commands of its query and label exactly if no other ones have its key
  (`Sample.Alone`), as is the case if no label has a hyphen, or no query.
-/

import LoadBench.Proofs.Report.Composed

namespace LoadBench

/-! ## Keys of queries -/

namespace Sample

/-- Whether another sample is of the same query under the same label. -/
def SameQuery (sample other : Sample) : Prop :=
  other.label = sample.label ∧ other.query = sample.query

instance (sample other : Sample) : Decidable (sample.SameQuery other) :=
  inferInstanceAs (Decidable (_ ∧ _))

/-- Whether the label of another sample is that of a sample with the front part of its query. -/
def Overlaps (sample other : Sample) : Prop :=
  ∃ middle, other.label = sample.label ++ "-" ++ middle ∧
    sample.query = middle ++ "-" ++ other.query

theorem toList_queryKey (sample : Sample) :
    sample.queryKey.toList = sample.label.toList ++ '-' :: sample.query.toList := by
  rw [queryKey, String.toList_append, String.toList_append, List.append_assoc]
  rfl

theorem SameQuery.queryKey_eq {sample other : Sample} (h : sample.SameQuery other) :
    other.queryKey = sample.queryKey := by
  rw [queryKey, queryKey, h.1, h.2]

theorem Overlaps.queryKey_eq {sample other : Sample} (h : sample.Overlaps other) :
    other.queryKey = sample.queryKey := by
  obtain ⟨middle, hlabel, hquery⟩ := h
  rw [queryKey, queryKey, hlabel, hquery]
  simp only [String.append_assoc]

/-- A key that begins with one label and goes on to another one is that of an overlap, unless the
labels are the same. -/
theorem same_or_overlaps {sample other : Sample} {more : List Char}
    (hlabel : other.label.toList = sample.label.toList ++ more)
    (hquery : '-' :: sample.query.toList = more ++ '-' :: other.query.toList) :
    sample.SameQuery other ∨ sample.Overlaps other := by
  cases more with
  | nil =>
    left
    rw [List.append_nil] at hlabel
    rw [List.nil_append] at hquery
    exact ⟨String.toList_inj.mp hlabel, String.toList_inj.mp (List.cons.inj hquery).2.symm⟩
  | cons hyphen middle =>
    -- What the second label has more begins with the hyphen of the first key.
    right
    rw [List.cons_append] at hquery
    obtain ⟨rfl, hmiddle⟩ := List.cons.inj hquery
    refine ⟨String.ofList middle, String.toList_inj.mp ?_, String.toList_inj.mp ?_⟩
    · simp only [hlabel, String.toList_append, String.toList_ofList, List.append_assoc]
      rfl
    · simp only [hmiddle, String.toList_append, String.toList_ofList, List.append_assoc]
      rfl

/-- Two samples have one key exactly if they are of one query and label, or overlap. -/
theorem queryKey_eq_iff (sample other : Sample) :
    other.queryKey = sample.queryKey ↔
      sample.SameQuery other ∨ sample.Overlaps other ∨ other.Overlaps sample := by
  refine ⟨fun hsame => ?_, ?_⟩
  · have hlists := congrArg String.toList hsame
    rw [toList_queryKey, toList_queryKey] at hlists
    -- One of the two labels is a front part of the other.
    rcases List.append_eq_append_iff.mp hlists with ⟨more, hlabel, hquery⟩ | ⟨more, hlabel, hquery⟩
    · rcases same_or_overlaps hlabel hquery with heq | hoverlaps
      · exact Or.inl ⟨heq.1.symm, heq.2.symm⟩
      · exact Or.inr (Or.inr hoverlaps)
    · rcases same_or_overlaps hlabel hquery with heq | hoverlaps
      · exact Or.inl heq
      · exact Or.inr (Or.inl hoverlaps)
  · rintro (heq | hoverlaps | hoverlaps)
    · exact heq.queryKey_eq
    · exact hoverlaps.queryKey_eq
    · exact hoverlaps.queryKey_eq.symm

/-- An overlap takes a label with a hyphen and a query with one. -/
theorem Overlaps.hyphenated {sample other : Sample} (h : sample.Overlaps other) :
    Hyphenated other.label ∧ Hyphenated sample.query := by
  obtain ⟨middle, hlabel, hquery⟩ := h
  have hhyphen : ∀ front : String, Hyphenated (front ++ "-") := by
    intro front
    rw [Hyphenated, String.toList_append]
    exact List.mem_append_right _ (by decide)
  rw [hlabel, hquery]
  exact ⟨(hhyphen _).append _, (hhyphen _).append _⟩

/-! ## Samples with one key -/

/-- Whether all samples with the key of a sample are of its query and label. -/
def Alone (sample : Sample) (samples : List Sample) : Prop :=
  ∀ other ∈ samples, other.queryKey = sample.queryKey → sample.SameQuery other

/-- The samples with the key of a sample. -/
def withKey (sample : Sample) (samples : List Sample) : List Sample :=
  samples.filter fun other => other.queryKey = sample.queryKey

/-- The samples of the query and the label of a sample. -/
def ofQuery (sample : Sample) (samples : List Sample) : List Sample :=
  samples.filter fun other => sample.SameQuery other

variable {sample : Sample} {samples : List Sample}

/-- Those of its query and label are among those with its key. -/
theorem ofQuery_eq_filter (sample : Sample) (samples : List Sample) :
    sample.ofQuery samples = (sample.withKey samples).filter fun other => sample.SameQuery other := by
  rw [ofQuery, withKey, List.filter_filter]
  refine List.filter_congr fun other _ => ?_
  by_cases hsame : sample.SameQuery other
  · rw [decide_eq_true hsame, decide_eq_true hsame.queryKey_eq]
    rfl
  · rw [decide_eq_false hsame]
    rfl

theorem alone_iff (sample : Sample) (samples : List Sample) :
    sample.Alone samples ↔ sample.ofQuery samples = sample.withKey samples := by
  rw [ofQuery_eq_filter, List.filter_eq_self]
  simp only [withKey, List.mem_filter, decide_eq_true_eq, and_imp]
  exact Iff.rfl

/-- If it is not alone, there are more with its key than of its query and label. -/
theorem length_lt_of_not_alone (h : ¬ sample.Alone samples) :
    (sample.ofQuery samples).length < (sample.withKey samples).length := by
  rw [alone_iff] at h
  have hsublist : (sample.ofQuery samples).Sublist (sample.withKey samples) := by
    rw [ofQuery_eq_filter]
    exact List.filter_sublist
  exact Nat.lt_of_le_of_ne hsublist.length_le fun heq => h (hsublist.eq_of_length heq)

/-- If no label has a hyphen, or no query, every sample is alone. -/
theorem alone_of_not_hyphenated
    (h : (∀ other ∈ samples, ¬ Hyphenated other.label) ∨
      (∀ other ∈ samples, ¬ Hyphenated other.query)) (hmem : sample ∈ samples) :
    sample.Alone samples := by
  intro other hother hkey
  rcases (queryKey_eq_iff sample other).mp hkey with hsame | hoverlaps | hoverlaps
  · exact hsame
  · obtain ⟨hlabel, hquery⟩ := hoverlaps.hyphenated
    exact (h.elim (fun hnone => hnone other hother hlabel) fun hnone =>
      hnone sample hmem hquery).elim
  · obtain ⟨hlabel, hquery⟩ := hoverlaps.hyphenated
    exact (h.elim (fun hnone => hnone sample hmem hlabel) fun hnone =>
      hnone other hother hquery).elim

end Sample

/-! ## What a report shows -/

/-- Whether a report shows samples under the key of a query: their quantiles and their rate. -/
structure Report.ShowsQuery (report : Report) (took : TimeSpan) (key : String)
    (samples : List Sample) : Prop where
  quantiles : report.runQuantiles.get? key = some (Histogram.ofSamples samples).quantiles
  rate : report.runRates.rates.get? (key ++ "Rate") =
    some (Rate.perSecond samples.length 0 took)

theorem Ledger.Tallies.showsQuery {ledger : Ledger} {labelled queried dated : List Sample}
    (h : ledger.Tallies labelled queried dated) (facts : RunFacts) {sample : Sample}
    (hmem : sample ∈ queried) :
    (Report.compose ledger facts).ShowsQuery facts.took sample.queryKey
      (sample.withKey queried) := by
  have hapart := Report.keepsApart_compose h facts
  have hkey : sample.queryKey ∈ ledger.details.keys := by
    rw [h.details, mem_keys_tableOf]
    exact ⟨sample, hmem, rfl⟩
  obtain ⟨⟨key, histogram⟩, hentry, rfl : key = sample.queryKey⟩ := List.mem_map.mp hkey
  have hget := h.ordered_details.get?_of_mem hentry
  have hshown : (ledger.details.get? sample.queryKey).getD Histogram.empty =
      Histogram.ofSamples (sample.withKey queried) := by
    rw [h.details]
    exact getD_get?_tableOf queried sample.queryKey
  rw [hget, Option.getD_some] at hshown
  have hrate := hapart.queryRate _ _ hget
  rw [hshown, Histogram.total_ofSamples] at hrate
  exact ⟨hshown ▸ hapart.queryQuantiles _ _ hget, hrate⟩

/-- Where the two numbers of commands have different rates, it does not show those of one query. -/
theorem Ledger.Tallies.not_showsQuery {ledger : Ledger} {labelled queried dated : List Sample}
    (h : ledger.Tallies labelled queried dated) {facts : RunFacts} {sample : Sample}
    (hmem : sample ∈ queried)
    (hrate : Rate.perSecond (sample.ofQuery queried).length 0 facts.took ≠
      Rate.perSecond (sample.withKey queried).length 0 facts.took) :
    ¬ (Report.compose ledger facts).ShowsQuery facts.took sample.queryKey
      (sample.ofQuery queried) := by
  intro hown
  have hjoined := (h.showsQuery facts hmem).rate
  rw [hown.rate] at hjoined
  exact hrate (Option.some.inj hjoined)

/-- What a report shows of queries: under the key of a measured sample all with that key, which are
those of its query and label if it is alone, and more if it is not. -/
structure Report.QueriesOf (report : Report) (took : TimeSpan) (measured : List Sample) : Prop where
  joined : ∀ sample ∈ measured,
    report.ShowsQuery took sample.queryKey (sample.withKey measured)
  own : ∀ sample ∈ measured, sample.Alone measured →
    report.ShowsQuery took sample.queryKey (sample.ofQuery measured)
  mixed : ∀ sample ∈ measured, ¬ sample.Alone measured →
    (sample.ofQuery measured).length < (sample.withKey measured).length
  alone : (∀ sample ∈ measured, ¬ Hyphenated sample.label) ∨
    (∀ sample ∈ measured, ¬ Hyphenated sample.query) → ∀ sample ∈ measured, sample.Alone measured

/-- Whatever is recorded, the report of a run shows under the key of each measured command the
commands with that key.  These are the commands of its query and label, and no others, exactly if
no other ones have its key. -/
theorem queries_of_replay (burnIn : Nat) (events : List Ledger.Event) (facts : RunFacts) :
    (Report.compose ((Ledger.create burnIn).replay events).1 facts).QueriesOf facts.took
      ((events.flatMap Ledger.Event.samples).drop burnIn) := by
  have htallies := ((Ledger.recorded_create burnIn True).replay events).tallies
  rw [List.nil_append] at htallies
  refine ⟨fun sample => htallies.showsQuery facts, fun sample hmem halone => ?_,
    fun _ _ => Sample.length_lt_of_not_alone, fun hnone _ => Sample.alone_of_not_hyphenated hnone⟩
  rw [(Sample.alone_iff sample _).mp halone]
  exact htallies.showsQuery facts hmem

/-- A command of one query, under a label that has a hyphen. -/
def hyphenInLabel : Sample := Sample.plain "a-b" "c" 7 100

/-- A command of another query, which has the hyphen, under another label. -/
def hyphenInQuery : Sample := Sample.plain "a" "b-c" 7 100

def twoHyphens : List Sample := [hyphenInLabel, hyphenInQuery]

/-- The report of a run that has recorded both. -/
def reportOfTwo : Report :=
  Report.compose ((Ledger.create 0).replay [.record ⟨twoHyphens⟩]).1 Report.nestedFacts

/-- It shows the rates of both as one, which is that of neither. -/
theorem not_showsQuery_twoHyphens :
    ¬ reportOfTwo.ShowsQuery Report.nestedFacts.took hyphenInLabel.queryKey
        (hyphenInLabel.ofQuery twoHyphens) ∧
      ¬ reportOfTwo.ShowsQuery Report.nestedFacts.took hyphenInQuery.queryKey
        (hyphenInQuery.ofQuery twoHyphens) := by
  have htallies : ((Ledger.create 0).replay [.record ⟨twoHyphens⟩]).1.Tallies twoHyphens
      twoHyphens twoHyphens := ((Ledger.recorded_create 0 True).replay [.record ⟨twoHyphens⟩]).tallies
  exact ⟨htallies.not_showsQuery (by decide) (by decide +kernel),
    htallies.not_showsQuery (by decide) (by decide +kernel)⟩

end LoadBench
