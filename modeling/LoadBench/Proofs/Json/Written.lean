/-
  LoadBench.Proofs.Json.Written

  A written value is a document of its own shape (`ofText?_pretty`): the scan of a
  document meets each list, object, text and number where it was written, and goes
  on behind it.  The induction is on the value; its invariant is that the scan has
  two steps left for every character of what it is about to read.
-/

import LoadBench.Proofs.Json.Double
import LoadBench.Proofs.Json.Text

namespace LoadBench.Json

namespace Value

/-! ## Documents and doubles of a value -/

mutual

/-- The document a value is written as. -/
def tree : Value → Tree
  | .null => .null
  | .bool value => .bool value
  | .integer value => .number (Number.ofInteger value)
  | .double value => .number (Number.ofDouble value)
  | .text value => .text (Text.escape value.toList)
  | .list items => .list (treeItems items)
  | .object fields => .object (treeFields fields)

/-- The documents of the items of a list. -/
def treeItems : List Value → List Tree
  | [] => []
  | item :: rest => tree item :: treeItems rest

/-- The documents of the fields of an object. -/
def treeFields : List (String × Value) → List (List Char × Tree)
  | [] => []
  | (key, value) :: rest => (Text.escape key.toList, tree value) :: treeFields rest

end

mutual

/-- The doubles in a value. -/
def doubles : Value → List Binary64
  | .double value => [value]
  | .list items => doublesItems items
  | .object fields => doublesFields fields
  | _ => []

/-- The doubles in the items of a list. -/
def doublesItems : List Value → List Binary64
  | [] => []
  | item :: rest => doubles item ++ doublesItems rest

/-- The doubles in the fields of an object. -/
def doublesFields : List (String × Value) → List Binary64
  | [] => []
  | (_, value) :: rest => doubles value ++ doublesFields rest

end

theorem treeItems_eq_map (items : List Value) : treeItems items = items.map tree := by
  induction items with
  | nil => rfl
  | cons item rest ih => rw [treeItems, ih, List.map_cons]

theorem treeFields_eq_map (fields : List (String × Value)) :
    treeFields fields = fields.map fun field => (Text.escape field.1.toList, field.2.tree) := by
  induction fields with
  | nil => rfl
  | cons field rest ih => rw [treeFields, ih, List.map_cons]

theorem doublesItems_eq_flatMap (items : List Value) :
    doublesItems items = items.flatMap doubles := by
  induction items with
  | nil => rfl
  | cons item rest ih => rw [doublesItems, ih, List.flatMap_cons]

theorem doublesFields_eq_flatMap (fields : List (String × Value)) :
    doublesFields fields = fields.flatMap fun field => field.2.doubles := by
  induction fields with
  | nil => rfl
  | cons field rest ih => rw [doublesFields, ih, List.flatMap_cons]

end Value

/-! ## Separators -/

namespace Tree

theorem skip_cons {c : Char} (h : isSpace c = false) (rest : List Char) :
    skip (c :: rest) = c :: rest := by
  rw [skip, List.dropWhile_cons, h]
  rfl

theorem skip_space {c : Char} (h : isSpace c = true) (rest : List Char) :
    skip (c :: rest) = skip rest := by
  rw [skip, List.dropWhile_cons, h]
  rfl

theorem skip_skip (source : List Char) : skip (skip source) = skip source := by
  induction source with
  | nil => rfl
  | cons c rest ih =>
    cases h : isSpace c with
    | true => rw [skip_space h, ih]
    | false => rw [skip_cons h, skip_cons h]

theorem skip_newLine (level : Nat) (rest : List Char) :
    skip (Value.newLine level ++ rest) = skip rest := by
  have hblanks : ∀ n, skip (List.replicate n ' ' ++ rest) = skip rest := by
    intro n
    induction n with
    | zero => rfl
    | succ n ih => rw [List.replicate_succ, List.cons_append, skip_space rfl, ih]
  rw [Value.newLine, List.cons_append, skip_space rfl, hblanks]

/-- What stands before a value, a list of items or of fields does not matter to the scan. -/
theorem scan?_of_skip {source other : List Char} (h : skip source = skip other) (fuel : Nat) :
    scan? fuel source = scan? fuel other := by
  cases fuel with
  | zero => rw [scan?, scan?]
  | succ fuel => rw [scan?, scan?, h]

theorem scanItems?_of_skip {source other : List Char} (h : skip source = skip other)
    (fuel : Nat) : scanItems? fuel source = scanItems? fuel other := by
  cases fuel with
  | zero => rw [scanItems?, scanItems?]
  | succ fuel => rw [scanItems?, scanItems?, scan?_of_skip h]

theorem scanFields?_of_skip {source other : List Char} (h : skip source = skip other)
    (fuel : Nat) : scanFields? fuel source = scanFields? fuel other := by
  cases fuel with
  | zero => rw [scanFields?, scanFields?]
  | succ fuel => rw [scanFields?, scanFields?, h]

/-- No number begins with a separator. -/
theorem isSpace_of_ne {c : Char} (h : ∀ d : Char, d ≠ '-' → d.isDigit = false → c ≠ d) :
    isSpace c = false := by
  unfold isSpace
  rw [decide_eq_false (h _ (by decide) (by decide)), decide_eq_false (h _ (by decide) (by decide)),
    decide_eq_false (h _ (by decide) (by decide)), decide_eq_false (h _ (by decide) (by decide))]
  rfl

/-! ## Steps of the scan -/

section

variable {fuel : Nat} {source rest : List Char}

theorem scan?_number {number : Number} {text : List Char}
    (h : Number.scan? text = some (number, [])) (hrest : Follows rest) :
    scan? (fuel + 1) (text ++ rest) = some (.number number, rest) := by
  have hscan : Number.scan? (text ++ rest) = some (number, rest) := by
    rw [Number.scan?_append hrest, h]
    rfl
  obtain ⟨c, others, rfl, hother⟩ := Number.head_of_scan? h
  unfold scan?
  rw [List.cons_append] at hscan ⊢
  rw [skip_cons (isSpace_of_ne hother)]
  -- Nothing but a number begins like one.
  split
  case h_7 =>
    rw [hscan]
    rfl
  all_goals next hsame =>
    exact absurd (List.cons.inj hsame).1 (hother _ (by decide) (by decide))

theorem scan?_text (text : List Char) :
    scan? (fuel + 1) ('"' :: (Text.escape text ++ '"' :: rest)) =
      some (.text (Text.escape text), rest) := by
  unfold scan?
  rw [skip_cons rfl]
  show (Text.scan? (Text.escape text ++ '"' :: rest)).map _ = _
  rw [Text.scan?_escape]
  rfl

theorem scan?_list (h : ∀ others, skip source ≠ ']' :: others) :
    scan? (fuel + 1) ('[' :: source) =
      (scanItems? fuel source).map fun found => (.list found.1, found.2) := by
  rw [← scanItems?_of_skip (skip_skip source)]
  unfold scan?
  have hskip : skip ('[' :: source) = '[' :: source := skip_cons rfl source
  -- What follows the opening is not the closing, so only the last alternative is left.
  simp only [hskip]

theorem scan?_object (h : ∀ others, skip source ≠ '\x7d' :: others) :
    scan? (fuel + 1) ('\x7b' :: source) =
      (scanFields? fuel source).map fun found => (.object found.1, found.2) := by
  rw [← scanFields?_of_skip (skip_skip source)]
  unfold scan?
  have hskip : skip ('\x7b' :: source) = '\x7b' :: source := skip_cons rfl source
  -- What follows the opening is not the closing, so only the last alternative is left.
  simp only [hskip]

theorem scanItems?_last {item : Tree} {found : List Char}
    (h : scan? fuel source = some (item, found)) (hclosed : skip found = ']' :: rest) :
    scanItems? (fuel + 1) source = some ([item], rest) := by
  rw [scanItems?, h]
  dsimp only
  rw [hclosed]
  rfl

theorem scanItems?_more {item : Tree} {found : List Char}
    (h : scan? fuel source = some (item, found)) (hmore : skip found = ',' :: rest) :
    scanItems? (fuel + 1) source =
      (scanItems? fuel rest).map fun others => (item :: others.1, others.2) := by
  rw [scanItems?, h]
  dsimp only
  rw [hmore]
  rfl

theorem scanFields?_last {key found : List Char} {value : Tree}
    (h : scan? fuel source = some (value, found)) (hclosed : skip found = '\x7d' :: rest) :
    scanFields? (fuel + 1) ('"' :: (Text.escape key ++ '"' :: ':' :: source)) =
      some ([(Text.escape key, value)], rest) := by
  rw [scanFields?, skip_cons rfl]
  simp only [Text.scan?_escape, skip_cons (c := ':') rfl, h, hclosed]

theorem scanFields?_more {key found : List Char} {value : Tree}
    (h : scan? fuel source = some (value, found)) (hmore : skip found = ',' :: rest) :
    scanFields? (fuel + 1) ('"' :: (Text.escape key ++ '"' :: ':' :: source)) =
      (scanFields? fuel rest).map fun others =>
        ((Text.escape key, value) :: others.1, others.2) := by
  rw [scanFields?, skip_cons rfl]
  simp only [Text.scan?_escape, skip_cons (c := ':') rfl, h, hmore]

end

end Tree

namespace Value

/-! ## Whole documents -/

/-- A written value begins with no separator and no closing bracket. -/
theorem head_pretty (value : Value) (h : ∀ x ∈ value.doubles, Faithful x) (level : Nat) :
    ∃ c others, value.pretty level = c :: others ∧ Tree.isSpace c = false ∧ c ≠ ']' := by
  cases value with
  | null => exact ⟨'n', _, rfl, rfl, by decide⟩
  | bool value => cases value <;> exact ⟨_, _, rfl, rfl, by decide⟩
  | integer value =>
    obtain ⟨c, others, hwritten, hother⟩ := Number.head_of_scan? (Number.scan?_writeInteger value)
    exact ⟨c, others, hwritten, Tree.isSpace_of_ne hother, hother _ (by decide) (by decide)⟩
  | double value =>
    have hvalue := h value (List.mem_singleton.mpr rfl)
    obtain ⟨c, others, hwritten, hother⟩ := Number.head_of_scan? hvalue.scan?_eq
    exact ⟨c, others, hwritten, Tree.isSpace_of_ne hother, hother _ (by decide) (by decide)⟩
  | text value => exact ⟨'"', _, rfl, rfl, by decide⟩
  | list items => cases items <;> exact ⟨'[', _, rfl, rfl, by decide⟩
  | object fields => cases fields <;> exact ⟨'\x7b', _, rfl, rfl, by decide⟩

theorem pretty_list (level : Nat) (item : Value) (others : List Value) :
    (Value.list (item :: others)).pretty level =
      '[' :: (prettyItems (level + 1) (item :: others) ++ (newLine level ++ [']'])) := by
  simp only [pretty, List.isEmpty_cons, Bool.false_eq_true, if_false, List.cons_append,
    List.append_assoc]

theorem pretty_object (level : Nat) (field : String × Value) (others : List (String × Value)) :
    (Value.object (field :: others)).pretty level =
      '\x7b' :: (prettyFields (level + 1) (field :: others) ++ (newLine level ++ ['\x7d'])) := by
  simp only [pretty, List.isEmpty_cons, Bool.false_eq_true, if_false, List.cons_append,
    List.append_assoc]

theorem prettyItems_last (level : Nat) (item : Value) :
    prettyItems level [item] = newLine level ++ item.pretty level := by
  simp only [prettyItems, List.isEmpty_nil, if_true, List.append_nil]

theorem prettyItems_more (level : Nat) (item next : Value) (more : List Value) :
    prettyItems level (item :: next :: more) =
      newLine level ++ (item.pretty level ++ ',' :: prettyItems level (next :: more)) := by
  rw [prettyItems]
  simp only [List.isEmpty_cons, Bool.false_eq_true, if_false, List.append_assoc,
    List.cons_append, List.nil_append]

/-- A field up to its value. -/
def prettyKey (level : Nat) (key : String) : List Char :=
  newLine level ++ '"' :: (Text.escape key.toList ++ ['"', ':', ' '])

theorem prettyFields_last (level : Nat) (key : String) (value : Value) :
    prettyFields level [(key, value)] = prettyKey level key ++ value.pretty level := by
  simp only [prettyFields, Text.write, prettyKey, List.isEmpty_nil, if_true, List.append_nil,
    List.append_assoc, List.cons_append, List.nil_append]

theorem prettyFields_more (level : Nat) (key : String) (value : Value) (next : String × Value)
    (more : List (String × Value)) :
    prettyFields level ((key, value) :: next :: more) =
      prettyKey level key ++ (value.pretty level ++ ',' :: prettyFields level (next :: more)) := by
  rw [prettyFields]
  simp only [Text.write, prettyKey, List.isEmpty_cons, Bool.false_eq_true, if_false,
    List.append_assoc, List.cons_append, List.nil_append]

/-- The first item stands behind a separator, and is not the closing bracket. -/
theorem skip_prettyItems (item : Value) (others : List Value)
    (h : ∀ x ∈ doublesItems (item :: others), Faithful x) (level : Nat) (rest tail : List Char) :
    Tree.skip (prettyItems level (item :: others) ++ rest) ≠ ']' :: tail := by
  obtain ⟨c, text, hwritten, hspace, hclosed⟩ :=
    head_pretty item (fun x hx => h x (List.mem_append_left _ hx)) level
  rw [prettyItems, List.append_assoc, List.append_assoc, List.append_assoc, Tree.skip_newLine,
    hwritten, List.cons_append, Tree.skip_cons hspace]
  exact fun hsame => hclosed (List.cons.inj hsame).1

/-- The first field stands behind a separator, and is not the closing brace. -/
theorem skip_prettyFields (field : String × Value) (others : List (String × Value)) (level : Nat)
    (rest tail : List Char) :
    Tree.skip (prettyFields level (field :: others) ++ rest) ≠ '\x7d' :: tail := by
  obtain ⟨key, value⟩ := field
  simp only [prettyFields, List.append_assoc, Tree.skip_newLine, Text.write, List.cons_append]
  rw [Tree.skip_cons rfl]
  exact fun hsame => absurd (List.cons.inj hsame).1 (by decide)

theorem skip_prettyKey (level : Nat) (key : String) (rest : List Char) :
    Tree.skip (prettyKey level key ++ rest) =
      '"' :: (Text.escape key.toList ++ '"' :: ':' :: ' ' :: rest) := by
  rw [prettyKey, List.append_assoc, Tree.skip_newLine, List.cons_append, Tree.skip_cons rfl,
    List.append_assoc]
  rfl

theorem skip_closing (closing : Nat) {c : Char} (h : Tree.isSpace c = false) (rest : List Char) :
    Tree.skip (newLine closing ++ c :: rest) = c :: rest := by
  rw [Tree.skip_newLine, Tree.skip_cons h]

mutual

/-- A written value is met where it was written. -/
theorem scan?_pretty (value : Value) (h : ∀ x ∈ value.doubles, Faithful x) (level : Nat)
    {fuel : Nat} {rest : List Char} (hfuel : 2 * (value.pretty level).length ≤ fuel)
    (hrest : Follows rest) :
    Tree.scan? fuel (value.pretty level ++ rest) = some (value.tree, rest) := by
  obtain ⟨c, others, hwritten, -, -⟩ := head_pretty value h level
  obtain ⟨fuel, rfl⟩ : ∃ more, fuel = more + 1 := by
    rw [hwritten, List.length_cons] at hfuel
    exact ⟨fuel - 1, by omega⟩
  cases value with
  | null => rfl
  | bool value => cases value <;> rfl
  | integer value => exact Tree.scan?_number (Number.scan?_writeInteger value) hrest
  | double value => exact Tree.scan?_number (h value (List.mem_singleton.mpr rfl)).scan?_eq hrest
  | text value =>
    show Tree.scan? (fuel + 1) ('"' :: ((Text.escape value.toList ++ ['"']) ++ rest)) = _
    rw [List.append_assoc]
    exact Tree.scan?_text value.toList
  | list items =>
    cases items with
    | nil => rfl
    | cons item others =>
      rw [pretty_list, List.length_cons, List.length_append] at hfuel
      rw [pretty_list, List.cons_append, List.append_assoc, List.append_assoc,
        List.singleton_append, Tree.scan?_list (skip_prettyItems item others h _ _),
        scanItems?_pretty (item :: others) (List.cons_ne_nil _ _) h _ _ _ (by omega)]
      rfl
  | object fields =>
    cases fields with
    | nil => rfl
    | cons field others =>
      rw [pretty_object, List.length_cons, List.length_append] at hfuel
      rw [pretty_object, List.cons_append, List.append_assoc, List.append_assoc,
        List.singleton_append, Tree.scan?_object (skip_prettyFields field others _ _),
        scanFields?_pretty (field :: others) (List.cons_ne_nil _ _) h _ _ _ (by omega)]
      rfl

/-- Written items are met up to the closing bracket. -/
theorem scanItems?_pretty (items : List Value) (hne : items ≠ [])
    (h : ∀ x ∈ doublesItems items, Faithful x) (level closing : Nat) {fuel : Nat}
    (rest : List Char) (hfuel : 2 * (prettyItems level items).length ≤ fuel) :
    Tree.scanItems? fuel (prettyItems level items ++ (newLine closing ++ ']' :: rest)) =
      some (treeItems items, rest) := by
  match items, hne with
  | item :: others, _ =>
    obtain ⟨fuel, rfl⟩ : ∃ more, fuel = more + 1 := by
      rw [prettyItems, newLine] at hfuel
      simp only [List.length_append, List.length_cons] at hfuel
      exact ⟨fuel - 1, by omega⟩
    simp only [prettyItems, List.length_append, newLine, List.length_cons] at hfuel
    have hitem : ∀ found, Follows found → Tree.scan? fuel (newLine level ++
        (item.pretty level ++ found)) = some (item.tree, found) := by
      intro found hfound
      rw [Tree.scan?_of_skip (Tree.skip_newLine level _)]
      exact scan?_pretty item (fun x hx => h x (List.mem_append_left _ hx)) level (by omega) hfound
    cases others with
    | nil =>
      rw [prettyItems_last, List.append_assoc]
      exact Tree.scanItems?_last (hitem _ (follows_newLine closing _)) (skip_closing closing rfl rest)
    | cons next more =>
      rw [prettyItems_more, List.append_assoc, List.append_assoc, List.cons_append,
        Tree.scanItems?_more (hitem _ (follows_comma _)) (Tree.skip_cons rfl _),
        scanItems?_pretty (next :: more) (List.cons_ne_nil _ _)
          (fun x hx => h x (List.mem_append_right _ hx)) level closing rest
          (show 2 * (prettyItems level (next :: more)).length ≤ fuel by omega)]
      rfl

/-- Written fields are met up to the closing brace. -/
theorem scanFields?_pretty (fields : List (String × Value)) (hne : fields ≠ [])
    (h : ∀ x ∈ doublesFields fields, Faithful x) (level closing : Nat) {fuel : Nat}
    (rest : List Char) (hfuel : 2 * (prettyFields level fields).length ≤ fuel) :
    Tree.scanFields? fuel (prettyFields level fields ++ (newLine closing ++ '\x7d' :: rest)) =
      some (treeFields fields, rest) := by
  match fields, hne with
  | (key, value) :: others, _ =>
    obtain ⟨fuel, rfl⟩ : ∃ more, fuel = more + 1 := by
      rw [prettyFields, newLine] at hfuel
      simp only [List.length_append, List.length_cons] at hfuel
      exact ⟨fuel - 1, by omega⟩
    simp only [prettyFields, List.length_append, newLine, List.length_cons] at hfuel
    have hvalue : ∀ found, Follows found → Tree.scan? fuel (' ' ::
        (value.pretty level ++ found)) = some (value.tree, found) := by
      intro found hfound
      rw [Tree.scan?_of_skip (Tree.skip_space rfl _)]
      exact scan?_pretty value (fun x hx => h x (List.mem_append_left _ hx)) level (by omega)
        hfound
    cases others with
    | nil =>
      rw [prettyFields_last, List.append_assoc, ← Tree.scanFields?_of_skip (Tree.skip_skip _),
        skip_prettyKey]
      exact Tree.scanFields?_last (hvalue _ (follows_newLine closing _))
        (skip_closing closing rfl rest)
    | cons next more =>
      rw [prettyFields_more, List.append_assoc, List.append_assoc, List.cons_append,
        ← Tree.scanFields?_of_skip (Tree.skip_skip _), skip_prettyKey,
        Tree.scanFields?_more (hvalue _ (follows_comma _)) (Tree.skip_cons rfl _),
        scanFields?_pretty (next :: more) (List.cons_ne_nil _ _)
          (fun x hx => h x (List.mem_append_right _ hx)) level closing rest
          (show 2 * (prettyFields level (next :: more)).length ≤ fuel by omega)]
      rfl

end

/-- A written value is a document of its own shape. -/
theorem ofText?_pretty (value : Value) (h : ∀ x ∈ value.doubles, Faithful x) :
    Tree.ofText? (value.pretty 0) = some value.tree := by
  have hscan : Tree.scan? (2 * (value.pretty 0).length + 2) (value.pretty 0 ++ []) = _ :=
    scan?_pretty value h 0 (by omega) follows_nil
  rw [List.append_nil] at hscan
  rw [Tree.ofText?, hscan]
  rfl

end Value

end LoadBench.Json
