/-
  LoadBench.Proofs.Report.Composed

  The report of a run is read back as it was written (`readBack_of_follow`).  What
  the ledger has recorded makes no difference: the names of queries have a hyphen,
  which no other key of a report has, so nothing is shown in place of anything else
  (`KeepsApart`), and all its doubles are finite.  What makes a difference are the
  settings: those that nest deeper than a reader follows are written, and the report
  is never read again (`not_readBack_deepSettings`).
-/

import LoadBench.Proofs.Report.RoundTrip

namespace LoadBench

open Json (Value Faithful)

variable {ledger : Ledger} {labelled queried dated : List Sample}

/-! ## Names with and without a hyphen -/

/-- Whether a name has a hyphen in it. -/
def Hyphenated (name : String) : Prop := '-' ∈ name.toList

instance (name : String) : Decidable (Hyphenated name) := inferInstanceAs (Decidable (_ ∈ _))

theorem Hyphenated.append {name : String} (h : Hyphenated name) (suffix : String) :
    Hyphenated (name ++ suffix) := by
  rw [Hyphenated, String.toList_append]
  exact List.mem_append_left _ h

/-- Names without a hyphen are different from names with one. -/
theorem nodup_append_hyphenated {plain others : List String} (hplain : plain.Nodup)
    (hothers : others.Nodup) (hnone : ∀ name ∈ plain, ¬ Hyphenated name)
    (hall : ∀ name ∈ others, Hyphenated name) : (plain ++ others).Nodup :=
  List.nodup_append.mpr ⟨hplain, hothers, fun name hname other hother hsame =>
    hnone name hname (hsame ▸ hall other hother)⟩

namespace Ledger

/-- The name of every query under its label has a hyphen. -/
theorem Tallies.hyphenated (h : ledger.Tallies labelled queried dated) :
    ∀ key ∈ ledger.details.keys, Hyphenated key := by
  intro key hkey
  rw [h.details] at hkey
  obtain ⟨sample, -, rfl⟩ := (mem_keys_tableOf queried key).mp hkey
  rw [Hyphenated, Sample.queryKey, String.append_assoc, String.toList_append,
    String.toList_append]
  exact List.mem_append_right _ (List.mem_append_left _ (by decide))

theorem Tallies.ordered_details (h : ledger.Tallies labelled queried dated) :
    ledger.details.Ordered := by
  rw [h.details]
  exact ordered_tableOf queried

end Ledger

namespace Report

/-! ## Keys -/

/-- The keys of the rates of the groups. -/
def rateKeys : List String := Label.all.map fun label => label.key ++ "Rate"

/-- The keys of the quantiles of the groups and of all commands. -/
def quantileKeys : List String := Label.all.map Label.key ++ [allCommandsKey]

/-- The pairs of which the rates of a run are made. -/
def ratePairs (ledger : Ledger) (took : TimeSpan) : List (String × Binary64) :=
  (Label.all.map fun label =>
    (label.key ++ "Rate", Rate.perSecond (ledger.counts.perLabel.get label) 0 took)) ++
  ledger.details.entries.map fun entry =>
    (entry.1 ++ "Rate", Rate.perSecond entry.2.total 0 took)

/-- The pairs of which the quantiles of a run are made. -/
def quantilePairs (ledger : Ledger) : List (String × Quantiles) :=
  (Label.all.map fun label => (label.key, (ledger.tracks.get label).cumulative.quantiles)) ++
  (allCommandsKey, ledger.total.quantiles) ::
    ledger.details.entries.map fun entry => (entry.1, entry.2.quantiles)

theorem rates_compose (ledger : Ledger) (facts : RunFacts) :
    (compose ledger facts).runRates.rates = Table.ofList (ratePairs ledger facts.took) := by
  simp only [compose, Ledger.runRates, ratePairs]

theorem runQuantiles_compose (ledger : Ledger) (facts : RunFacts) :
    (compose ledger facts).runQuantiles = Table.ofList (quantilePairs ledger) := by
  simp only [compose, Ledger.runQuantiles, quantilePairs]

theorem keys_ratePairs (ledger : Ledger) (took : TimeSpan) :
    (ratePairs ledger took).map Prod.fst = rateKeys ++ ledger.details.keys.map (· ++ "Rate") := by
  simp only [ratePairs, rateKeys, Table.keys, List.map_append, List.map_map]
  rfl

theorem keys_quantilePairs (ledger : Ledger) :
    (quantilePairs ledger).map Prod.fst = quantileKeys ++ ledger.details.keys := by
  simp only [quantilePairs, quantileKeys, Table.keys, List.map_append, List.map_cons, List.map_map,
    List.append_assoc]
  rfl

theorem not_hyphenated_rateKeys : ∀ key ∈ rateKeys, ¬ Hyphenated key := by decide

theorem not_hyphenated_quantileKeys : ∀ key ∈ quantileKeys, ¬ Hyphenated key := by decide

theorem not_hyphenated_fieldNames : ∀ key ∈ RunRates.fieldNames, ¬ Hyphenated key := by decide

section

variable (h : ledger.Tallies labelled queried dated)

include h

theorem nodup_ratePairs (took : TimeSpan) : ((ratePairs ledger took).map Prod.fst).Nodup := by
  rw [keys_ratePairs]
  refine nodup_append_hyphenated (by decide) ?_ not_hyphenated_rateKeys ?_
  · exact h.ordered_details.nodup_keys.map fun one other => (String.append_left_inj "Rate").mp
  · intro name hname
    obtain ⟨key, hkey, rfl⟩ := List.mem_map.mp hname
    exact (h.hyphenated key hkey).append "Rate"

theorem nodup_quantilePairs : ((quantilePairs ledger).map Prod.fst).Nodup := by
  rw [keys_quantilePairs]
  exact nodup_append_hyphenated (by decide) h.ordered_details.nodup_keys
    not_hyphenated_quantileKeys h.hyphenated

/-- No rate of a group or of a query has the name of a field of the overall rates. -/
theorem not_mem_fieldNames (facts : RunFacts) :
    ∀ key ∈ (compose ledger facts).runRates.rates.keys, key ∉ RunRates.fieldNames := by
  intro key hkey hfield
  rw [rates_compose, Table.mem_keys_ofList, keys_ratePairs, List.mem_append] at hkey
  rcases hkey with hgroup | hquery
  · exact (by decide : ∀ key ∈ rateKeys, key ∉ RunRates.fieldNames) key hgroup hfield
  · obtain ⟨query, hmem, rfl⟩ := List.mem_map.mp hquery
    exact not_hyphenated_fieldNames _ hfield ((h.hyphenated query hmem).append "Rate")

end

/-- Whether a report shows all rates and quantiles of a ledger, none in place of another. -/
structure KeepsApart (report : Report) (ledger : Ledger) (took : TimeSpan) : Prop where
  /-- No rate has the name of a field of the overall rates. -/
  fields : ∀ key ∈ report.runRates.rates.keys, key ∉ RunRates.fieldNames
  /-- The rate of a query is not that of a group. -/
  rates : ∀ key ∈ ledger.details.keys, key ++ "Rate" ∉ rateKeys
  /-- The quantiles of a query are not those of a group or of all commands. -/
  quantiles : ∀ key ∈ ledger.details.keys, key ∉ quantileKeys
  labelRate : ∀ label : Label, report.runRates.rates.get? (label.key ++ "Rate") =
    some (Rate.perSecond (ledger.counts.perLabel.get label) 0 took)
  queryRate : ∀ key histogram, ledger.details.get? key = some histogram →
    report.runRates.rates.get? (key ++ "Rate") = some (Rate.perSecond histogram.total 0 took)
  labelQuantiles : ∀ label : Label, report.runQuantiles.get? label.key =
    some (ledger.tracks.get label).cumulative.quantiles
  allQuantiles : report.runQuantiles.get? allCommandsKey = some ledger.total.quantiles
  queryQuantiles : ∀ key histogram, ledger.details.get? key = some histogram →
    report.runQuantiles.get? key = some histogram.quantiles

theorem keepsApart_compose (h : ledger.Tallies labelled queried dated) (facts : RunFacts) :
    (compose ledger facts).KeepsApart ledger facts.took where
  fields := not_mem_fieldNames h facts
  rates := fun key hkey hsame =>
    not_hyphenated_rateKeys _ hsame ((h.hyphenated key hkey).append "Rate")
  quantiles := fun key hkey hsame => not_hyphenated_quantileKeys _ hsame (h.hyphenated key hkey)
  labelRate := by
    intro label
    rw [rates_compose]
    exact Table.get?_ofList (nodup_ratePairs h facts.took)
      (List.mem_append_left _ (List.mem_map_of_mem label.mem_all))
  queryRate := by
    intro key histogram hget
    rw [rates_compose]
    exact Table.get?_ofList (nodup_ratePairs h facts.took)
      (List.mem_append_right _ (List.mem_map_of_mem (Table.mem_of_get? hget)))
  labelQuantiles := by
    intro label
    rw [runQuantiles_compose]
    exact Table.get?_ofList (nodup_quantilePairs h)
      (List.mem_append_left _ (List.mem_map_of_mem label.mem_all))
  allQuantiles := by
    rw [runQuantiles_compose]
    exact Table.get?_ofList (nodup_quantilePairs h) (List.mem_append_right _ List.mem_cons_self)
  queryQuantiles := by
    intro key histogram hget
    rw [runQuantiles_compose]
    exact Table.get?_ofList (nodup_quantilePairs h) (List.mem_append_right _
      (List.mem_cons_of_mem _ (List.mem_map_of_mem (Table.mem_of_get? hget))))

theorem ordered_perSecondPayloads (h : ledger.Tallies labelled queried dated) :
    ledger.perSecondPayloads.Ordered := by
  have hordered : ledger.perSecond.Ordered := by
    rw [h.perSecond]
    exact Ledger.ordered_tableOf dated
  exact hordered.map _

/-- The keys of a report of a ledger are such that its tables can be had back. -/
theorem keyed_compose (h : ledger.Tallies labelled queried dated) (htimed : ledger.Timed)
    (facts : RunFacts) : (compose ledger facts).Keyed where
  rates := by
    rw [rates_compose]
    exact Table.ordered_ofList _
  apart := not_mem_fieldNames h facts
  quantiles := by
    rw [runQuantiles_compose]
    exact Table.ordered_ofList _
  series := htimed.timeSeries.ordered
  seconds := (ordered_perSecondPayloads h).map hexText

/-! ## Doubles -/

/-- All rates of a report are finite, as they are published. -/
theorem isFinite_rates (ledger : Ledger) (facts : RunFacts) :
    ∀ x ∈ (compose ledger facts).runRates.numbers, x.isFinite = true := by
  have htable : ∀ pair ∈ ratePairs ledger facts.took, Binary64.isFinite pair.2 = true := by
    simp only [ratePairs, List.forall_mem_append, List.forall_mem_map, Rate.isFinite_perSecond,
      implies_true, and_true]
  simp only [RunRates.numbers, List.forall_mem_append, rates_compose]
  refine ⟨Table.forall_values_ofList htable, ?_⟩
  simp [compose, Ledger.runRates]

theorem isFinite_ratios (ledger : Ledger) : ∀ x ∈ ledger.ratios.toList, x.isFinite = true := by
  simp [Ratios.toList, Ledger.ratios]

/-- All histograms whose quantiles are shown keep slots that there are. -/
theorem isFinite_quantilePairs (h : ledger.Tallies labelled queried dated) :
    ∀ pair ∈ quantilePairs ledger, ∀ x ∈ pair.2.toList, x.isFinite = true := by
  intro pair hpair x hx
  rcases List.mem_append.mp hpair with hgroup | hother
  · obtain ⟨label, -, rfl⟩ := List.mem_map.mp hgroup
    rw [h.cumulative label] at hx
    exact (Histogram.sparse_ofList _).isFinite_quantiles hx
  · rcases List.mem_cons.mp hother with rfl | hquery
    · rw [h.total] at hx
      exact (Histogram.sparse_ofList _).isFinite_quantiles hx
    · obtain ⟨entry, hentry, rfl⟩ := List.mem_map.mp hquery
      rw [h.details] at hentry
      have hof := (Ledger.tableShows_tableOf queried).isOf entry hentry
      rw [hof.eq_ofSamples] at hx
      exact (Histogram.sparse_ofList _).isFinite_quantiles hx

/-- All doubles of a report are finite. -/
theorem isFinite_doubles (h : ledger.Tallies labelled queried dated) (htimed : ledger.Timed)
    {facts : RunFacts} (hstorable : (Value.object facts.settings.entries).isStorable = true) :
    ∀ x ∈ (compose ledger facts).toValue.doubles, x.isFinite = true := by
  rw [doubles_toValue]
  simp only [numbers, List.forall_mem_append, List.forall_mem_flatMap]
  refine ⟨Value.isFinite_of_isStorable _ hstorable, isFinite_ratios ledger,
    isFinite_rates ledger facts, ?_, ?_⟩
  · rw [runQuantiles_compose]
    exact Table.forall_values_ofList (isFinite_quantilePairs h)
  · exact htimed.timeSeries.finite

/-! ## Reading back -/

/-- The report of a run, however its recordings and its periods came in between each other, is read
back as it was written if its settings do not nest too deep, and it shows all rates and quantiles.
What is taken for granted is only that each finite double in it comes back on its own. -/
theorem readBack_of_follow {burnIn : Nat} {batches : List Measurements} {moves : List Desk.Move}
    {desk : Desk} (hfollow : follow? Desk.step? moves (Desk.start burnIn batches) = some desk)
    {facts : RunFacts} (hstorable : (Value.object facts.settings.entries).isStorable = true)
    (hdepth : 1 + (Value.object facts.settings.entries).tree.depth ≤ Json.depthLimit)
    (hfaithful : ∀ x ∈ (compose desk.ledger facts).toValue.doubles,
      x.isFinite = true → Faithful x) :
    ofJson (compose desk.ledger facts).toJson = .ok (compose desk.ledger facts) ∧
      (compose desk.ledger facts).KeepsApart desk.ledger facts.took := by
  obtain ⟨labelled, queried, dated, htallies, -⟩ := (Desk.kept_follow hfollow).balanced.tallies
  have htimed := (Desk.timed_follow hfollow).ledger
  have hdoubles : ∀ x ∈ (compose desk.ledger facts).toValue.doubles, Faithful x :=
    fun x hx => hfaithful x hx (isFinite_doubles htallies htimed hstorable x hx)
  refine ⟨?_, keepsApart_compose htallies facts⟩
  rw [ofJson_toJson (keyed_compose htallies htimed facts) hstorable hdoubles]
  exact if_pos hdepth

/-- A run with nested settings. -/
def nestedFacts : RunFacts where
  startTime := 1700000000000
  endTime := 1700000002000
  took := TimeSpan.ofMillis 2000
  runId := ⟨0x67e5504410b1426f9247bb680e5fe0c8⟩
  metadata := "a \"quoted\" note"
  limit := 0
  workers := 2
  maxRate := 100
  batchSize := 10
  settings := ⟨[("pool", .object [("idle", .double (Binary64.ofNat 3 / Binary64.ofNat 2)),
    ("sizes", .list [.integer (-1), .integer 8])])]⟩

/-- A read and a command of no group. -/
def readAndOther : List Measurements :=
  [⟨[Sample.plain "READ" "R1" 7 30]⟩, ⟨[Sample.plain "é-" "Rate" 8 50]⟩]

/-- A period ends between the labels of the two commands and is published between their seconds. -/
def periodBetween : List Desk.Move :=
  [.advance 0, .advance 1, .advance 0, .advance 0, .advance 1,
    .endPeriod 1700000001 (TimeSpan.ofMillis 1000) Counts.zero, .advance 1, .advance 0, .publish,
    .advance 0, .advance 1, .advance 0, .advance 1, .advance 0, .advance 1]

theorem readBack_periodBetween :
    ∃ desk, follow? Desk.step? periodBetween (Desk.start 0 readAndOther) = some desk ∧
      ofJson (compose desk.ledger nestedFacts).toJson = .ok (compose desk.ledger nestedFacts) ∧
      (compose desk.ledger nestedFacts).KeepsApart desk.ledger nestedFacts.took := by
  let numbers := [0, 30, 50, 500, 1000, 1500].map fun n => Binary64.ofNat n / Binary64.ofNat 1000
  have hnumbers : ∀ x ∈ numbers, Faithful x := by decide +kernel
  obtain ⟨desk, hfollow, hdoubles⟩ : ∃ desk,
      follow? Desk.step? periodBetween (Desk.start 0 readAndOther) = some desk ∧
        ∀ x ∈ (compose desk.ledger nestedFacts).toValue.doubles, x ∈ numbers :=
    ⟨_, rfl, by decide +kernel⟩
  exact ⟨desk, hfollow, readBack_of_follow hfollow (by decide +kernel) (by decide +kernel)
    fun x hx _ => hnumbers x (hdoubles x hx)⟩

/-! ## Settings that nest too deep -/

/-- Lists around each other. -/
def lists : Nat → Value
  | 0 => .list []
  | depth + 1 => .list [lists depth]

/-- A run with settings that are as deep as a reader follows. -/
def deepFacts : RunFacts := { nestedFacts with settings := ⟨[("pool", lists 125)]⟩ }

/-- In a report such settings lie one level deeper: it is written, and all its doubles come back,
but it is never read again. -/
theorem not_readBack_deepSettings :
    (Value.object deepFacts.settings.entries).tree.depth = Json.depthLimit ∧
      (Value.object deepFacts.settings.entries).isStorable = true ∧
      (∀ x ∈ (compose (Desk.start 0 []).ledger deepFacts).toValue.doubles, Faithful x) ∧
      ofJson (compose (Desk.start 0 []).ledger deepFacts).toJson = .error Json.unreadable := by
  have hstorable : (Value.object deepFacts.settings.entries).isStorable = true := by
    decide +kernel
  have hfaithful :
      ∀ x ∈ (compose (Desk.start 0 []).ledger deepFacts).toValue.doubles, Faithful x := by
    decide +kernel
  have hkeyed : (compose (Desk.start 0 []).ledger deepFacts).Keyed :=
    keyed_compose (Ledger.tallies_create 0) (Ledger.timed_create 0) deepFacts
  have hdepth : ¬1 + (Value.object (compose (Desk.start 0 []).ledger
      deepFacts).settings.entries).tree.depth ≤ Json.depthLimit := by
    decide +kernel
  refine ⟨by decide +kernel, hstorable, hfaithful, ?_⟩
  rw [ofJson_toJson hkeyed hstorable hfaithful, if_neg hdepth]

end Report

end LoadBench
