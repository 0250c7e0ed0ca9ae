/-
  LoadBench.Table

  Tables ordered by key.  A table is the list of its entries, and every
  operation keeps the keys strictly ascending (`Table.Ordered`), so a table is
  published as it stands.
-/

namespace LoadBench

/-- Entries in ascending order of their keys. -/
structure Table (κ ν : Type) where
  entries : List (κ × ν)
  deriving DecidableEq, Repr

namespace Table

variable {κ ν μ : Type}

/-- The table without entries. -/
def empty : Table κ ν := ⟨[]⟩

instance : Inhabited (Table κ ν) := ⟨empty⟩

/-- Whether there are no entries. -/
def isEmpty (table : Table κ ν) : Bool := table.entries.isEmpty

/-- How many entries there are. -/
def size (table : Table κ ν) : Nat := table.entries.length

/-- The keys, ascending. -/
def keys (table : Table κ ν) : List κ := table.entries.map Prod.fst

/-- The values, in the order of their keys. -/
def values (table : Table κ ν) : List ν := table.entries.map Prod.snd

/-- The same keys with values made from each entry. -/
def mapEntries (f : κ → ν → μ) (table : Table κ ν) : Table κ μ :=
  ⟨table.entries.map fun entry => (entry.1, f entry.1 entry.2)⟩

/-- The same keys with values made from each value. -/
def map (f : ν → μ) (table : Table κ ν) : Table κ μ := table.mapEntries fun _ value => f value

section

variable [LT κ] [DecidableLT κ]

/-- The keys ascend strictly. -/
def Ordered (table : Table κ ν) : Prop := table.entries.Pairwise fun one other => one.1 < other.1

/-- The value under a key in a list of entries. -/
def lookup (key : κ) : List (κ × ν) → Option ν
  | [] => none
  | (k, value) :: rest =>
    if key < k then none else if k < key then lookup key rest else some value

/-- The value under a key. -/
def get? (table : Table κ ν) (key : κ) : Option ν := lookup key table.entries

/-- A list of entries in which the value under a key is made from the one before. -/
def alterEntries (key : κ) (f : Option ν → ν) : List (κ × ν) → List (κ × ν)
  | [] => [(key, f none)]
  | (k, value) :: rest =>
    if key < k then (key, f none) :: (k, value) :: rest
    else if k < key then (k, value) :: alterEntries key f rest
    else (k, f (some value)) :: rest

/-- The table in which the value under a key is made from the one before, if there was one. -/
def alter (table : Table κ ν) (key : κ) (f : Option ν → ν) : Table κ ν :=
  ⟨alterEntries key f table.entries⟩

/-- The table with a value under a key; an earlier value under that key is lost. -/
def insert (table : Table κ ν) (key : κ) (value : ν) : Table κ ν :=
  table.alter key fun _ => value

/-- The table of a list of pairs; of two values under one key the later one stays. -/
def ofList (pairs : List (κ × ν)) : Table κ ν :=
  pairs.foldl (fun table pair => table.insert pair.1 pair.2) empty

end

end Table

end LoadBench
