/-
  LoadBench.Proofs.Report.RoundTrip

  A written report is read back, part by part, if the keys of its tables ascend, no
  rate has the name of a field of the overall rates, and its doubles come back.  One
  thing more is asked of its settings: a reader gives up on documents nested deeper
  than `Json.depthLimit`, so reading succeeds exactly if the settings are not nested
  too deep (`ofJson_toJson`).
-/

import LoadBench.Proofs.Report.Parts
import LoadBench.Proofs.Report.RunId

namespace LoadBench.Report

open Json (Tree Value Faithful)

/-! ## Doubles of a report -/

/-- The doubles of a report. -/
def numbers (report : Report) : List Binary64 :=
  (Value.object report.settings.entries).doubles ++ (report.ratios.toList ++
    (report.runRates.numbers ++ (report.runQuantiles.values.flatMap Quantiles.toList ++
      report.timeSeries.values.flatMap fun points =>
        points.flatMap fun point => point.value.numbers)))

theorem doubles_tableValue {ν : Type} (write : ν → Value) (table : Table String ν) :
    (tableValue write table).doubles = table.values.flatMap fun value => (write value).doubles := by
  show Value.doublesFields _ = _
  rw [Value.doublesFields_eq_flatMap, List.flatMap_map, Table.values, List.flatMap_map]

theorem doubles_points (points : List SeriesPoint) :
    (Value.list (points.map SeriesPoint.toValue)).doubles =
      points.flatMap fun point => point.value.numbers := by
  have hpoint : ∀ point : SeriesPoint, point.toValue.doubles = point.value.numbers := by
    intro point
    show [] ++ (point.value.toValue.doubles ++ []) = _
    rw [List.nil_append, List.append_nil, PointValue.doubles_toValue]
  show Value.doublesItems _ = _
  rw [Value.doublesItems_eq_flatMap, List.flatMap_map]
  simp only [hpoint]

theorem doubles_toValue (report : Report) : report.toValue.doubles = report.numbers := by
  have hseconds : (Value.object (report.perSecond.entries.map fun entry =>
      (String.ofList (Decimal.natural entry.1.toNat), Value.text entry.2))).doubles = [] := by
    show Value.doublesFields _ = _
    rw [Value.doublesFields_eq_flatMap, List.flatMap_map]
    exact List.flatMap_eq_nil_iff.mpr fun _ _ => rfl
  show [] ++ ([] ++ ([] ++ ([] ++ ([] ++ ([] ++ ([] ++ ([] ++ ([] ++ ([] ++
    (Value.doubles _ ++ (Value.doubles _ ++ (Value.doubles _ ++ (Value.doubles _ ++
      (Value.doubles _ ++ (Value.doubles _ ++ (Value.doubles _ ++ [])))))))))))))))) = _
  rw [hseconds, doubles_tableValue, doubles_tableValue, Totals.doubles_toValue,
    Ratios.doubles_toValue, RunRates.doubles_toValue]
  simp only [List.nil_append, List.append_nil, Quantiles.doubles_toFields, doubles_points, numbers]

/-! ## Settings -/

/-- Settings are read if they do not nest too deep. -/
theorem settingsOf?_tree {settings : Table String Value}
    (hstorable : (Value.object settings.entries).isStorable = true)
    (h : ∀ x ∈ (Value.object settings.entries).doubles, Faithful x) :
    settingsOf? (Value.object settings.entries).tree =
      if 1 + (Value.object settings.entries).tree.depth ≤ Json.depthLimit then some settings
      else none := by
  obtain ⟨hordered, hvalues⟩ := Bool.and_eq_true_iff.mp hstorable
  have htable : (tableValue id settings).tree.table? Value.ofTree? = some settings := by
    have hpairwise := of_decide_eq_true hordered
    refine Value.table?_tree hpairwise fun value hvalue => ?_
    obtain ⟨entry, hentry, rfl⟩ := List.mem_map.mp hvalue
    refine Value.ofTree?_tree entry.2 (Value.areStorableFields_iff.mp hvalues entry hentry)
      fun x hx => h x ?_
    show x ∈ Value.doublesFields _
    rw [Value.doublesFields_eq_flatMap]
    exact List.mem_flatMap.mpr ⟨entry, hentry, hx⟩
  have hsame : tableValue id settings = Value.object settings.entries :=
    congrArg Value.object (List.map_id _)
  rw [settingsOf?, ← hsame, htable]

/-! ## Whole reports -/

/-- Whether the keys of the tables of a report, its settings aside, are such that they can be had
back. -/
structure Keyed (report : Report) : Prop where
  rates : report.runRates.rates.Ordered
  apart : ∀ key ∈ report.runRates.rates.keys, key ∉ RunRates.fieldNames
  quantiles : report.runQuantiles.Ordered
  series : report.timeSeries.Ordered
  seconds : report.perSecond.Ordered

/-- The values of the fields of a report. -/
def values (report : Report) : List Value :=
  [.integer report.startTime.toInt, .integer report.endTime.toInt,
    .natural report.durationMillis, .text report.runId.text, .text report.metadata,
    .text report.formatVersion, .natural report.limit, .natural report.workers,
    .natural report.maxRate, .natural report.batchSize, .object report.settings.entries,
    report.totals.toValue, report.ratios.toValue, report.runRates.toValue,
    tableValue (fun quantiles => .object (Quantiles.toFields quantiles)) report.runQuantiles,
    tableValue (fun points => .list (points.map SeriesPoint.toValue)) report.timeSeries,
    .object (report.perSecond.entries.map fun entry =>
      (String.ofList (Decimal.natural entry.1.toNat), .text entry.2))]

theorem toValue_eq (report : Report) : report.toValue = .object (fieldNames.zip report.values) := rfl

theorem quantiles?_tree {table : Table String Quantiles} (hordered : table.Ordered)
    (h : ∀ x ∈ table.values.flatMap Quantiles.toList, Faithful x) :
    (tableValue (fun quantiles => .object (Quantiles.toFields quantiles)) table).tree.table?
      Quantiles.ofTree? = some table :=
  Value.table?_tree hordered fun quantiles hmem => Quantiles.ofTree?_tree fun x hx =>
    h x (List.mem_flatMap.mpr ⟨quantiles, hmem, hx⟩)

theorem points?_tree {points : List SeriesPoint}
    (h : ∀ x ∈ points.flatMap fun point => point.value.numbers, Faithful x) :
    ((Value.list (points.map SeriesPoint.toValue)).tree.items?.bind fun items =>
      items.mapM (SeriesPoint.ofTree? 3)) = some points := by
  have hpoints : ((points.map SeriesPoint.toValue).map Value.tree).mapM (SeriesPoint.ofTree? 3) =
      some (points.map id) := by
    rw [List.map_map]
    refine mapM_map_eq_some fun point hpoint => SeriesPoint.ofTree?_tree (by decide) fun x hx => ?_
    exact h x (List.mem_flatMap.mpr ⟨point, hpoint, hx⟩)
  rw [Value.items?_tree, Option.bind_some, hpoints, List.map_id]

theorem series?_tree {table : Table String (List SeriesPoint)} (hordered : table.Ordered)
    (h : ∀ x ∈ table.values.flatMap fun points =>
      points.flatMap fun point => point.value.numbers, Faithful x) :
    (tableValue (fun points => .list (points.map SeriesPoint.toValue)) table).tree.table?
      (fun points => points.items?.bind fun items => items.mapM (SeriesPoint.ofTree? 3)) =
        some table :=
  Value.table?_tree hordered fun points hmem => points?_tree fun x hx =>
    h x (List.mem_flatMap.mpr ⟨points, hmem, hx⟩)

/-- A report is had back from its document up to its settings, which are read on their own. -/
theorem ofTree?_tree {report : Report} (hkeyed : report.Keyed)
    (h : ∀ x ∈ report.numbers, Faithful x) :
    ofTree? report.toValue.tree =
      (settingsOf? (Value.object report.settings.entries).tree).map fun settings =>
        { report with settings } := by
  simp only [numbers, List.forall_mem_append] at h
  obtain ⟨-, hratios, hrates, hquantiles, hseries⟩ := h
  have hrecord : report.toValue.tree.record? fieldNames = some (report.values.map Value.tree) := by
    rw [toValue_eq]
    exact Value.record?_tree rfl (by decide)
  have hseconds : (Value.object (report.perSecond.entries.map fun entry =>
      (String.ofList (Decimal.natural entry.1.toNat), .text entry.2))).tree.numberedTable?
        Tree.string? = some report.perSecond :=
    Value.numberedTable?_tree hkeyed.seconds fun text _ => Value.string?_tree text
  rw [ofTree?, hrecord]
  simp only [values, List.map_cons, List.map_nil]
  -- Each field in turn.
  rw [Value.int64?_tree, Value.int64?_tree, Value.natural?_tree, Value.string?_tree,
    Value.string?_tree, Value.string?_tree, Value.natural?_tree, Value.natural?_tree,
    Value.natural?_tree, Value.natural?_tree, Totals.ofTree?_tree, Ratios.ofTree?_tree hratios,
    RunRates.ofTree?_tree hkeyed.rates hkeyed.apart hrates,
    quantiles?_tree hkeyed.quantiles hquantiles, series?_tree hkeyed.series hseries, hseconds,
    Option.bind_some, RunId.ofText?_text]
  cases settingsOf? (Value.object report.settings.entries).tree <;> rfl

/-- A written report is read back, unless its settings nest too deep: then it is not read. -/
theorem ofJson_toJson {report : Report} (hkeyed : report.Keyed)
    (hstorable : (Value.object report.settings.entries).isStorable = true)
    (h : ∀ x ∈ report.toValue.doubles, Faithful x) :
    ofJson report.toJson =
      if 1 + (Value.object report.settings.entries).tree.depth ≤ Json.depthLimit then .ok report
      else .error Json.unreadable := by
  have hdoubles := h
  rw [doubles_toValue] at hdoubles
  have hsettings : ∀ x ∈ (Value.object report.settings.entries).doubles, Faithful x :=
    fun x hx => hdoubles x (List.mem_append_left _ hx)
  rw [ofJson, Json.read, toJson, String.toList_ofList, Value.ofText?_pretty _ h, Option.bind_some,
    ofTree?_tree hkeyed hdoubles, settingsOf?_tree hstorable hsettings]
  by_cases hdepth : 1 + (Value.object report.settings.entries).tree.depth ≤ Json.depthLimit
  · rw [if_pos hdepth, if_pos hdepth]
    rfl
  · rw [if_neg hdepth, if_neg hdepth]
    rfl

end LoadBench.Report
