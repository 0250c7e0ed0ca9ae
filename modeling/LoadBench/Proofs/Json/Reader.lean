/-
  LoadBench.Proofs.Json.Reader

  The documents of written values are read as those values: numbers and texts, the
  fields of records by their names (`record?_tree`, `openRecord?_tree`), tables
  whose keys ascend (`table?_tree`, `numberedTable?_tree`), and values of any shape
  that can be stored at all (`ofTree?_tree`).
-/

import LoadBench.Proofs.Json.Written
import LoadBench.Proofs.Lists
import LoadBench.Proofs.Table
import LoadBench.Report.Written

namespace LoadBench.Json

/-- A field is found by its name if no other field has it. -/
theorem Tree.field?_of_mem {fields : List (String × Tree)} (h : (fields.map Prod.fst).Nodup)
    {name : String} {tree : Tree} (hmem : (name, tree) ∈ fields) :
    field? fields name = some tree := by
  have hfilter : fields.filter (fun field => field.1 == name) = [(name, tree)] := by
    induction fields with
    | nil => cases hmem
    | cons field rest ih =>
      rw [List.map_cons, List.nodup_cons] at h
      rcases List.mem_cons.mp hmem with rfl | hrest
      · have hnone : rest.filter (fun field => field.1 == name) = [] := by
          refine List.filter_eq_nil_iff.mpr fun other hother hsame => ?_
          exact h.1 (List.mem_map.mpr ⟨other, hother, eq_of_beq hsame⟩)
        rw [List.filter_cons, if_pos (beq_self_eq_true name), hnone]
      · have hother : ¬(field.1 == name) = true := by
          intro hsame
          exact h.1 (List.mem_map.mpr ⟨_, hrest, (eq_of_beq hsame).symm⟩)
        rw [List.filter_cons, if_neg hother, ih h.2 hrest]
  rw [field?, hfilter]

namespace Value

/-! ## Single values -/

@[simp] theorem natural?_tree (n : UInt64) : (natural n).tree.natural? = some n :=
  Number.natural?_ofInteger n

@[simp] theorem int64?_tree (n : Int64) : (integer n.toInt).tree.int64? = some n :=
  Number.int64?_ofInteger n

theorem double?_tree {x : Binary64} (h : Faithful x) : (double x).tree.double? = some x :=
  h.double?_eq

@[simp] theorem string?_tree (text : String) : (Value.text text).tree.string? = some text :=
  Text.string?_escape text

@[simp] theorem items?_tree (items : List Value) :
    (list items).tree.items? = some (items.map tree) :=
  congrArg some (treeItems_eq_map items)

/-! ## Records -/

/-- The fields of an object by name, with their documents. -/
def treesOf (fields : List (String × Value)) : List (String × Tree) :=
  fields.map fun field => (field.1, field.2.tree)

@[simp] theorem keys_treesOf (fields : List (String × Value)) :
    (treesOf fields).map Prod.fst = fields.map Prod.fst := List.map_map

theorem fields?_tree (fields : List (String × Value)) :
    (object fields).tree.fields? = some (treesOf fields) := by
  show (treeFields fields).mapM _ = _
  rw [treeFields_eq_map]
  refine mapM_map_eq_some fun field _ => ?_
  rw [Text.string?_escape, Option.map_some]

variable {names : List String} {values : List Value} {others : List (String × Value)}

/-- Fields are found by their names, among others with other names. -/
theorem mapM_field? (hlength : names.length = values.length)
    (hnodup : ((others ++ names.zip values).map Prod.fst).Nodup) :
    names.mapM (Tree.field? (treesOf (others ++ names.zip values))) = some (values.map tree) := by
  have hfound : ((names.zip values).map Prod.fst).mapM
      (Tree.field? (treesOf (others ++ names.zip values))) =
        some ((names.zip values).map fun field => field.2.tree) := by
    refine mapM_map_eq_some fun field hfield => Tree.field?_of_mem ?_ ?_
    · rwa [keys_treesOf]
    · exact List.mem_map.mpr ⟨field, List.mem_append_right _ hfield, rfl⟩
  have hvalues : (names.zip values).map (fun field => field.2.tree) = values.map tree := by
    have hsnd : (names.zip values).map Prod.snd = values := List.map_snd_zip hlength.ge
    rw [← hsnd, List.map_map, hsnd]
    rfl
  rwa [List.map_fst_zip hlength.le, hvalues] at hfound

/-- The fields of a record are read in the order of their names. -/
theorem record?_tree (hlength : names.length = values.length) (hnodup : names.Nodup) :
    (object (names.zip values)).tree.record? names = some (values.map tree) := by
  have hfound : names.mapM (Tree.field? (treesOf ([] ++ names.zip values))) = _ :=
    mapM_field? hlength (by rwa [List.nil_append, List.map_fst_zip hlength.le])
  rw [tree, Tree.record?, ← tree, fields?_tree]
  · exact hfound
  · intro items hcontra
    cases hcontra

/-- The fields of a record are told from those it has taken in. -/
theorem openRecord?_tree (hlength : names.length = values.length) (hnodup : names.Nodup)
    (hothers : (others.map Prod.fst).Nodup) (hapart : ∀ other ∈ others, other.1 ∉ names) :
    (object (others ++ names.zip values)).tree.openRecord? names =
      some (values.map tree, treesOf others) := by
  have hkeys : ((others ++ names.zip values).map Prod.fst).Nodup := by
    rw [List.map_append, List.map_fst_zip hlength.le]
    refine List.nodup_append.mpr ⟨hothers, hnodup, ?_⟩
    rintro key hkey name hname rfl
    obtain ⟨other, hother, rfl⟩ := List.mem_map.mp hkey
    exact hapart other hother hname
  have hfilter : (treesOf (others ++ names.zip values)).filter
      (fun field => !names.contains field.1) = treesOf others := by
    have hnone : (treesOf (names.zip values)).filter (fun field => !names.contains field.1) = [] := by
      refine List.filter_eq_nil_iff.mpr fun field hfield => ?_
      have hmem := List.mem_map_of_mem (f := Prod.fst) hfield
      rw [keys_treesOf, List.map_fst_zip hlength.le] at hmem
      rw [List.contains_iff_mem.mpr hmem]
      exact Bool.false_ne_true
    have hall : (treesOf others).filter (fun field => !names.contains field.1) = treesOf others := by
      refine List.filter_eq_self.mpr fun field hfield => ?_
      obtain ⟨other, hother, rfl⟩ := List.mem_map.mp hfield
      rw [Bool.not_eq_true', ← Bool.not_eq_true, List.contains_iff_mem]
      exact hapart other hother
    rw [treesOf, List.map_append, List.filter_append]
    exact (congrArg₂ _ hall hnone).trans (List.append_nil _)
  rw [Tree.openRecord?, fields?_tree]
  show (names.mapM (Tree.field? (treesOf (others ++ names.zip values)))).map _ = _
  rw [mapM_field? hlength hkeys, hfilter]
  rfl

/-! ## Tables -/

section

variable {ν : Type} {read : Tree → Option ν} {write : ν → Value}

theorem table?_tree {table : Table String ν} (hordered : table.Ordered)
    (hread : ∀ value ∈ table.values, read (write value).tree = some value) :
    (Report.tableValue write table).tree.table? read = some table := by
  have hentries : (treesOf (table.entries.map fun entry => (entry.1, write entry.2))).mapM
      (fun field => (read field.2).map fun value => (field.1, value)) = some table.entries := by
    have hall : ((treesOf (table.entries.map fun entry => (entry.1, write entry.2))).mapM
        fun field => (read field.2).map fun value => (field.1, value)) =
          some (table.entries.map id) := by
      rw [treesOf, List.map_map]
      refine mapM_map_eq_some fun entry hentry => ?_
      show (read (write entry.2).tree).map _ = _
      rw [hread entry.2 (List.mem_map_of_mem hentry)]
      rfl
    rwa [List.map_id] at hall
  rw [Report.tableValue, Tree.table?, fields?_tree]
  dsimp only
  rw [hentries, Option.map_some, hordered.ofList_entries]

/-- A number is read from the name it is written as. -/
theorem key?_natural (n : UInt64) :
    Tree.key? (Text.escape (String.ofList (Decimal.natural n.toNat)).toList) = some n := by
  have hwritten : writeInteger n.toNat = Decimal.natural n.toNat := by
    rw [writeInteger, if_neg (Int.not_lt.mpr (Int.natCast_nonneg _)), List.nil_append,
      Int.natAbs_natCast]
  have hscan := Number.scan?_writeInteger n.toNat
  rw [hwritten] at hscan
  rw [String.toList_ofList, Text.escape_digits fun c hc => Decimal.isDigit_of_mem_natural hc,
    Tree.key?, hscan]
  exact Number.natural?_ofInteger n

theorem numberedTable?_tree {table : Table UInt64 ν} (hordered : table.Ordered)
    (hread : ∀ value ∈ table.values, read (write value).tree = some value) :
    (object (table.entries.map fun entry =>
      (String.ofList (Decimal.natural entry.1.toNat), write entry.2))).tree.numberedTable? read =
        some table := by
  rw [tree, treeFields_eq_map, List.map_map, Tree.numberedTable?]
  rw [@mapM_map_eq_some _ _ _ _ _ id _ fun entry hentry => ?_]
  · rw [List.map_id, Option.map_some, hordered.ofList_entries]
  · simp only [Function.comp_apply, key?_natural, hread entry.2 (List.mem_map_of_mem hentry)]
    rfl

end

/-! ## Values of any shape -/

mutual

/-- Whether a value is one that a document can stand for: its whole numbers lie in 64 bits, its
doubles are finite, and the fields of its objects are in the order of their keys. -/
def isStorable : Value → Bool
  | .integer value => decide (-2 ^ 63 ≤ value) && decide (value < 2 ^ 64)
  | .double value => value.isFinite
  | .list items => areStorable items
  | .object fields =>
    decide (fields.Pairwise fun one other => one.1 < other.1) && areStorableFields fields
  | _ => true

/-- Whether all items of a list are values that a document can stand for. -/
def areStorable : List Value → Bool
  | [] => true
  | item :: rest => isStorable item && areStorable rest

/-- Whether the values of all fields are ones that a document can stand for. -/
def areStorableFields : List (String × Value) → Bool
  | [] => true
  | (_, value) :: rest => isStorable value && areStorableFields rest

end

theorem areStorableFields_iff {fields : List (String × Value)} :
    areStorableFields fields = true ↔ ∀ field ∈ fields, field.2.isStorable = true := by
  induction fields with
  | nil => exact iff_of_true rfl nofun
  | cons field rest ih => rw [areStorableFields, Bool.and_eq_true_iff, ih, List.forall_mem_cons]

mutual

/-- All doubles of a value that can be stored are finite. -/
theorem isFinite_of_isStorable (value : Value) (h : value.isStorable = true) :
    ∀ x ∈ value.doubles, x.isFinite = true := by
  cases value with
  | null => exact nofun
  | bool value => exact nofun
  | integer value => exact nofun
  | double value => exact List.forall_mem_singleton.mpr h
  | text value => exact nofun
  | list items => exact isFinite_of_areStorable items h
  | object fields => exact isFinite_of_areStorableFields fields (Bool.and_eq_true_iff.mp h).2

theorem isFinite_of_areStorable (items : List Value) (h : areStorable items = true) :
    ∀ x ∈ doublesItems items, x.isFinite = true := by
  cases items with
  | nil => exact nofun
  | cons item rest =>
    obtain ⟨hitem, hrest⟩ := Bool.and_eq_true_iff.mp h
    exact List.forall_mem_append.mpr
      ⟨isFinite_of_isStorable item hitem, isFinite_of_areStorable rest hrest⟩

theorem isFinite_of_areStorableFields (fields : List (String × Value))
    (h : areStorableFields fields = true) : ∀ x ∈ doublesFields fields, x.isFinite = true := by
  match fields with
  | [] => exact nofun
  | (key, value) :: rest =>
    obtain ⟨hvalue, hrest⟩ := Bool.and_eq_true_iff.mp h
    exact List.forall_mem_append.mpr
      ⟨isFinite_of_isStorable value hvalue, isFinite_of_areStorableFields rest hrest⟩

end

theorem ofNumber?_ofDouble {x : Binary64} (h : Faithful x) :
    ofNumber? (Number.ofDouble x) = some (.double x) := by
  rw [ofNumber?, h.integer?_eq]
  dsimp only
  rw [h.double?_eq]
  rfl

mutual

/-- A value is what its document means. -/
theorem ofTree?_tree (value : Value) (h : value.isStorable = true)
    (hdoubles : ∀ x ∈ value.doubles, Faithful x) : ofTree? value.tree = some value := by
  cases value with
  | null => rfl
  | bool value => rfl
  | integer value =>
    obtain ⟨hlow, hhigh⟩ := Bool.and_eq_true_iff.mp h
    rw [tree, ofTree?, ofNumber?,
      Number.integer?_ofInteger (of_decide_eq_true hlow) (of_decide_eq_true hhigh)]
  | double value => exact ofNumber?_ofDouble (hdoubles value (List.mem_singleton.mpr rfl))
  | text value =>
    rw [tree, ofTree?, Text.string?_escape]
    rfl
  | list items =>
    rw [tree, ofTree?, ofTrees?_treeItems items h hdoubles]
    rfl
  | object fields =>
    obtain ⟨hordered, hfields⟩ := Bool.and_eq_true_iff.mp h
    have hpairwise := of_decide_eq_true hordered
    have htable : (Table.mk fields).Ordered := hpairwise
    have hentries := congrArg Table.entries htable.ofList_entries
    rw [tree, ofTree?, ofFields?_treeFields fields hfields hdoubles, Option.map_some]
    exact congrArg (fun fields => some (Value.object fields)) hentries

/-- Items are what their documents mean. -/
theorem ofTrees?_treeItems (items : List Value) (h : areStorable items = true)
    (hdoubles : ∀ x ∈ doublesItems items, Faithful x) :
    ofTrees? (treeItems items) = some items := by
  cases items with
  | nil => rfl
  | cons item rest =>
    obtain ⟨hitem, hrest⟩ := Bool.and_eq_true_iff.mp h
    rw [treeItems, ofTrees?,
      ofTree?_tree item hitem fun x hx => hdoubles x (List.mem_append_left _ hx),
      ofTrees?_treeItems rest hrest fun x hx => hdoubles x (List.mem_append_right _ hx)]

/-- Fields are what their documents mean. -/
theorem ofFields?_treeFields (fields : List (String × Value))
    (h : areStorableFields fields = true) (hdoubles : ∀ x ∈ doublesFields fields, Faithful x) :
    ofFields? (treeFields fields) = some fields := by
  match fields with
  | [] => rfl
  | (key, value) :: rest =>
    obtain ⟨hvalue, hrest⟩ := Bool.and_eq_true_iff.mp h
    rw [treeFields, ofFields?, Text.string?_escape,
      ofTree?_tree value hvalue fun x hx => hdoubles x (List.mem_append_left _ hx),
      ofFields?_treeFields rest hrest fun x hx => hdoubles x (List.mem_append_right _ hx)]

end

end Value

end LoadBench.Json
