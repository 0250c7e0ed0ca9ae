/-
  LoadBench.Proofs.Report.Parts

  The parts of a report are read back from their documents, each if its own doubles
  come back: quantiles, totals, the mix of the traffic, points of both kinds, and
  the overall rates, whose own fields are told from the rates they take in by their
  names (`RunRates.ofTree?_tree`).
-/

import LoadBench.Proofs.Json.Reader
import LoadBench.Proofs.Ledger.Series

namespace LoadBench

open Json (Tree Value Faithful)

/-! ## Records of numbers -/

namespace Json.Value

variable {names : List String}

theorem doubles?_tree (xs : List Binary64) (h : ∀ x ∈ xs, Faithful x) :
    ((xs.map double).map tree).mapM Tree.double? = some xs := by
  rw [List.map_map]
  refine (mapM_map_eq_some fun x hx => double?_tree (h x hx)).trans ?_
  exact congrArg some (List.map_id _)

/-- Doubles are read from a record of doubles. -/
theorem doubles?_record {xs : List Binary64} (hlength : names.length = xs.length)
    (hnodup : names.Nodup) (h : ∀ x ∈ xs, Faithful x) :
    ((object (names.zip (xs.map double))).tree.record? names).bind
      (fun fields => fields.mapM Tree.double?) = some xs := by
  have hvalues : names.length = (xs.map double).length := by rw [List.length_map, hlength]
  rw [record?_tree hvalues hnodup, Option.bind_some, doubles?_tree xs h]

/-- Natural numbers are read from a record of natural numbers. -/
theorem naturals?_record {ns : List UInt64} (hlength : names.length = ns.length)
    (hnodup : names.Nodup) :
    ((object (names.zip (ns.map natural))).tree.record? names).bind
      (fun fields => fields.mapM Tree.natural?) = some ns := by
  have hvalues : names.length = (ns.map natural).length := by rw [List.length_map, hlength]
  rw [record?_tree hvalues hnodup, Option.bind_some, List.map_map]
  refine (mapM_map_eq_some fun n _ => natural?_tree n).trans ?_
  exact congrArg some (List.map_id _)

end Json.Value

theorem Quantiles.doubles_toFields (quantiles : Quantiles) :
    (Value.object quantiles.toFields).doubles = quantiles.toList := rfl

theorem Quantiles.toFields_eq_zip (quantiles : Quantiles) :
    quantiles.toFields = fieldNames.zip (quantiles.toList.map Value.double) := rfl

theorem Quantiles.ofTree?_tree {quantiles : Quantiles} (h : ∀ x ∈ quantiles.toList, Faithful x) :
    ofTree? (Value.object quantiles.toFields).tree = some quantiles := by
  rw [ofTree?, toFields_eq_zip, Value.doubles?_record rfl (by decide) h]
  rfl

theorem Totals.doubles_toValue (totals : Totals) : totals.toValue.doubles = [] := rfl

theorem Totals.ofTree?_tree (totals : Totals) : ofTree? totals.toValue.tree = some totals := by
  rw [ofTree?, toValue, Value.naturals?_record rfl (by decide)]
  rfl

theorem Ratios.doubles_toValue (ratios : Ratios) : ratios.toValue.doubles = ratios.toList := rfl

theorem Ratios.ofTree?_tree {ratios : Ratios} (h : ∀ x ∈ ratios.toList, Faithful x) :
    ofTree? ratios.toValue.tree = some ratios := by
  rw [ofTree?, toValue, Value.doubles?_record rfl (by decide) h]
  rfl

/-! ## Points -/

namespace PointValue

theorem doubles_toValue (value : PointValue) : value.toValue.doubles = value.numbers := by
  cases value <;> rfl

theorem depth_toValue_le (value : PointValue) : value.toValue.tree.depth ≤ 1 := by
  cases value
  · exact Nat.zero_le 1
  · exact Nat.le_refl 1

/-- The fields of the quantiles and the rate of a period. -/
theorem toValue_period (quantiles : Quantiles) (rate : Binary64) :
    toValue (.period quantiles rate) =
      .object ([] ++ (Quantiles.fieldNames ++ ["rate"]).zip
        ((quantiles.toList ++ [rate]).map Value.double)) := rfl

/-- A written point is sound as a whole. -/
theorem isSome_ofTree? {value : PointValue} (h : ∀ x ∈ value.numbers, Faithful x) :
    (Value.ofTree? value.toValue.tree).isSome = true := by
  cases value with
  | scalar value =>
    exact Option.isSome_of_eq_some
      (Value.ofNumber?_ofDouble (h value (List.mem_singleton.mpr rfl)))
  | period quantiles rate =>
    have hstorable : Value.areStorableFields ((Quantiles.fieldNames ++ ["rate"]).zip
        ((quantiles.toList ++ [rate]).map Value.double)) = true := by
      refine Value.areStorableFields_iff.mpr fun field hfield => ?_
      obtain ⟨x, hx, hvalue⟩ := List.mem_map.mp (List.of_mem_zip hfield).2
      rw [← hvalue]
      exact (h x hx).isFinite
    rw [toValue_period, List.nil_append, Value.tree, Value.ofTree?,
      Value.ofFields?_treeFields _ hstorable h]
    rfl

/-- A point is read back as one of its own kind. -/
theorem ofTree?_tree {level : Nat} (hlevel : level < Json.depthLimit) {value : PointValue}
    (h : ∀ x ∈ value.numbers, Faithful x) :
    ofTree? level value.toValue.tree = some value := by
  have hdepth := depth_toValue_le value
  rw [ofTree?, if_pos ⟨by omega, isSome_ofTree? h⟩]
  cases value with
  | scalar value =>
    have hdouble : (toValue (.scalar value)).tree.double? = some value :=
      Value.double?_tree (h value (List.mem_singleton.mpr rfl))
    rw [hdouble]
  | period quantiles rate =>
    have hnone : (toValue (.period quantiles rate)).tree.double? = none := rfl
    rw [hnone]
    show periodOf? _ = _
    have hopen : (toValue (.period quantiles rate)).tree.openRecord?
        (Quantiles.fieldNames ++ ["rate"]) =
          some (((quantiles.toList ++ [rate]).map Value.double).map Value.tree, []) := by
      rw [toValue_period]
      exact Value.openRecord?_tree rfl (by decide) List.nodup_nil nofun
    unfold periodOf?
    rw [hopen]
    dsimp only
    rw [Value.doubles?_tree (quantiles.toList ++ [rate]) h]
    rfl

end PointValue

theorem SeriesPoint.ofTree?_tree {level : Nat} (hlevel : level + 1 < Json.depthLimit)
    {point : SeriesPoint} (h : ∀ x ∈ point.value.numbers, Faithful x) :
    ofTree? level point.toValue.tree = some point := by
  have hfields : point.toValue = .object
      (["Timestamp", "Value"].zip [Value.natural point.timestamp, point.value.toValue]) := rfl
  have hrecord : point.toValue.tree.record? ["Timestamp", "Value"] =
      some ([Value.natural point.timestamp, point.value.toValue].map Value.tree) := by
    rw [hfields]
    exact Value.record?_tree rfl (by decide)
  rw [ofTree?, hrecord]
  simp only [List.map_cons, List.map_nil]
  rw [Value.natural?_tree, PointValue.ofTree?_tree hlevel h]
  rfl

/-! ## Overall rates -/

namespace RunRates

/-- The fields that overall rates take in. -/
def taken (rates : RunRates) : List (String × Value) :=
  rates.rates.entries.map fun entry => (entry.1, .double entry.2)

/-- The values of the own fields of overall rates. -/
def ownValues (rates : RunRates) : List Value :=
  [.double rates.operations, .double rates.sent, .double rates.received, .text rates.sentText,
    .text rates.receivedText]

theorem toValue_eq (rates : RunRates) :
    rates.toValue = .object (rates.taken ++ fieldNames.zip rates.ownValues) := rfl

theorem keys_taken (rates : RunRates) : rates.taken.map Prod.fst = rates.rates.keys := List.map_map

/-- The doubles of overall rates. -/
def numbers (rates : RunRates) : List Binary64 :=
  rates.rates.values ++ [rates.operations, rates.sent, rates.received]

theorem doubles_toValue (rates : RunRates) : rates.toValue.doubles = rates.numbers := by
  show Value.doublesFields (rates.taken ++ fieldNames.zip rates.ownValues) = _
  rw [Value.doublesFields_eq_flatMap, List.flatMap_append, taken, List.flatMap_map, numbers]
  refine congrArg₂ _ ?_ rfl
  exact List.map_eq_flatMap.symm

/-- Overall rates are read back if no rate they take in has the name of one of their own fields. -/
theorem ofTree?_tree {rates : RunRates} (hordered : rates.rates.Ordered)
    (hapart : ∀ key ∈ rates.rates.keys, key ∉ fieldNames) (h : ∀ x ∈ rates.numbers, Faithful x) :
    ofTree? rates.toValue.tree = some rates := by
  have hopen : rates.toValue.tree.openRecord? fieldNames =
      some (rates.ownValues.map Value.tree, Value.treesOf rates.taken) := by
    rw [toValue_eq]
    refine Value.openRecord?_tree rfl (by decide) ?_ fun other hother => ?_
    · rw [keys_taken]
      exact hordered.nodup_keys
    · refine hapart other.1 ?_
      rw [← keys_taken]
      exact List.mem_map_of_mem hother
  have hrates : (Value.treesOf rates.taken).mapM (fun field =>
      field.2.double?.map fun rate => (field.1, rate)) = some (rates.rates.entries.map id) := by
    rw [Value.treesOf, taken, List.map_map]
    refine mapM_map_eq_some fun entry hentry => ?_
    have hrate : (Value.double entry.2).tree.double? = some entry.2 :=
      Value.double?_tree (h _ (List.mem_append_left _ (List.mem_map_of_mem hentry)))
    show (Value.double entry.2).tree.double?.map _ = _
    rw [hrate]
    rfl
  have hown : ∀ x ∈ [rates.operations, rates.sent, rates.received],
      (Value.double x).tree.double? = some x :=
    fun x hx => Value.double?_tree (h x (List.mem_append_right _ hx))
  rw [List.map_id] at hrates
  rw [ofTree?, hopen]
  simp only [ownValues, List.map_cons, List.map_nil]
  rw [hrates, hown rates.operations (by simp), hown rates.sent (by simp),
    hown rates.received (by simp), Value.string?_tree, Value.string?_tree]
  show some (RunRates.mk (Table.ofList rates.rates.entries) _ _ _ _ _) = _
  rw [hordered.ofList_entries]

end RunRates

end LoadBench
