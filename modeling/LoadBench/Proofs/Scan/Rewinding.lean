/-
  LoadBench.Proofs.Scan.Rewinding

  Inputs that are read again and again.  A reel is an input as its passes: the
  items of each of them, and what comes of asking for the input again behind it.
  The reading stops in the first pass that is empty, that is the last one there is,
  or in which the limit is reached (`Reel.IsLast`); with a limit there is such a
  pass, also if the input can be read again for ever (`exists_isLast`).

  `Reel.Plays` says of a log that all its turns answer as a reel does, and that
  nobody stops the scan.  `Reel.Rolls` is the invariant that relates such a log to
  the bookmark of the scan, and `rolls_turn` is its step: one lemma for each thing
  that can come of a request to the input.
-/

import LoadBench.Proofs.Scan.Bookmark

namespace LoadBench

variable {α : Type}

/-! ## Reels -/

/-- An input that may be read again and again. -/
structure Reel (α : Type) where
  /-- The items of each pass, counted from zero. -/
  pass : Nat → List α
  /-- Whether the input can be read again behind a pass; it may also fail to say. -/
  again : Nat → Except Fault Bool

namespace Reel

variable (reel : Reel α)

/-- The items of the first passes. -/
def items (count : Nat) : List α := (List.range count).flatMap reel.pass

/-- Whether the reading cannot go on behind a pass. -/
def Stops (limit pass : Nat) : Prop :=
  reel.pass pass = [] ∨ reel.again pass ≠ .ok true ∨ limit ≤ (reel.items (pass + 1)).length

/-- Whether a pass is the last one that is read. -/
structure IsLast (limit pass : Nat) : Prop where
  stops : reel.Stops limit pass
  earlier : ∀ other < pass, ¬reel.Stops limit other

/-- The fault that ends the reading behind a pass. Behind an empty pass, and once the limit is
reached, the input is not asked for again. -/
def fault? (limit pass : Nat) : Option Fault :=
  if reel.pass pass ≠ [] ∧ (reel.items (pass + 1)).length < limit then
    match reel.again pass with
    | .error fault => some fault
    | .ok _ => none
  else none

variable {reel}

theorem items_succ (count : Nat) :
    reel.items (count + 1) = reel.items count ++ reel.pass count := by
  rw [items, List.range_succ, List.flatMap_append, List.flatMap_singleton]
  rfl

/-- The items of fewer passes are the first ones of more passes. -/
theorem items_mono {count more : Nat} (h : count ≤ more) :
    reel.items count <+: reel.items more := by
  induction more, h using Nat.le_induction with
  | base => exact List.prefix_refl _
  | succ more _ ih =>
    rw [items_succ]
    exact ih.trans (List.prefix_append _ _)

/-- Passes that are not empty have at least one item each. -/
theorem le_length_items {count : Nat} (h : ∀ pass < count, reel.pass pass ≠ []) :
    count ≤ (reel.items count).length := by
  induction count with
  | zero => exact Nat.zero_le _
  | succ count ih =>
    have hbefore := ih fun pass hpass => h pass (Nat.lt_succ_of_lt hpass)
    have hpos := List.length_pos_iff.mpr (h count (Nat.lt_succ_self count))
    rw [items_succ, List.length_append]
    omega

section

variable {limit count : Nat}

/-- If the reading goes on behind some passes, there are fewer of them than the limit. -/
theorem lt_limit (hlimit : 0 < limit) (h : ∀ pass < count, ¬reel.Stops limit pass) :
    count < limit := by
  cases count with
  | zero => exact hlimit
  | succ count =>
    have hitems := le_length_items fun pass hpass => (not_or.mp (h pass hpass)).1
    obtain ⟨-, -, hbelow⟩ : _ ∧ _ ∧ _ := by
      have hstays := h count (Nat.lt_succ_self count)
      rw [Stops, not_or, not_or] at hstays
      exact hstays
    omega

/-- The reading stops in some pass, also if the input can be read again for ever. -/
theorem exists_isLast (reel : Reel α) (hlimit : 0 < limit) : ∃ last, reel.IsLast limit last := by
  classical
  have hstops : ∃ pass, reel.Stops limit pass := by
    by_contra hnever
    exact Nat.lt_irrefl limit (lt_limit hlimit fun pass _ hpass => hnever ⟨pass, hpass⟩)
  exact ⟨Nat.find hstops, Nat.find_spec hstops, fun pass hpass => Nat.find_min hstops hpass⟩

theorem IsLast.unique {last other : Nat} (h : reel.IsLast limit last)
    (hother : reel.IsLast limit other) : last = other := by
  rcases Nat.lt_trichotomy last other with hlt | heq | hgt
  · exact absurd h.stops (hother.earlier last hlt)
  · exact heq
  · exact absurd hother.stops (h.earlier other hgt)

theorem fault?_of_empty (h : reel.pass count = []) : reel.fault? limit count = none :=
  if_neg fun hasks => hasks.1 h

theorem fault?_of_below (hpass : reel.pass count ≠ [])
    (hbelow : (reel.items (count + 1)).length < limit) :
    reel.fault? limit count =
      match reel.again count with
      | .error fault => some fault
      | .ok _ => none :=
  if_pos ⟨hpass, hbelow⟩

theorem fault?_of_reached (h : limit ≤ (reel.items (count + 1)).length) :
    reel.fault? limit count = none :=
  if_neg fun hasks => Nat.not_lt.mpr h hasks.2

end

end Reel

/-! ## Logs of reels -/

/-- Where an input stands: in a pass, with items left of it. -/
structure Spot (α : Type) where
  pass : Nat
  left : List α

namespace Reel

variable (reel : Reel α)

/-- Where an input stands behind a turn. -/
def behind (spot : Spot α) : Turn α → Spot α
  | ⟨.item, .item (some _)⟩ => { spot with left := spot.left.tail }
  | ⟨.rewind, .rewound true⟩ => ⟨spot.pass + 1, reel.pass (spot.pass + 1)⟩
  | _ => spot

/-- Where an input stands behind all turns of a log. -/
def spotOf (log : List (Turn α)) : Spot α := log.foldl reel.behind ⟨0, reel.pass 0⟩

/-- What a scan is told that asks for the input from its start, behind a pass. -/
def rewound (pass : Nat) : Reply α :=
  match reel.again pass with
  | .ok again => .rewound again
  | .error fault => .unreadable fault

/-- Whether a turn answers as the input does, and does not stop the scan. -/
def Gives (spot : Spot α) (turn : Turn α) : Prop :=
  match turn.request with
  | .item => turn.reply = .item spot.left.head?
  | .rewind => turn.reply = reel.rewound spot.pass
  | .stop => turn.reply = .stop false
  | _ => True

/-- Whether all turns of a log answer as an input does that stands somewhere. -/
def PlaysFrom : Spot α → List (Turn α) → Prop
  | _, [] => True
  | spot, turn :: rest => reel.Gives spot turn ∧ PlaysFrom (reel.behind spot turn) rest

/-- Whether all turns of a log answer as the input does. -/
def Plays (log : List (Turn α)) : Prop := reel.PlaysFrom ⟨0, reel.pass 0⟩ log

/-- Whether a turn asks for the input from its start only at the end of a pass that had items, and
with fewer items read than the limit. -/
def Due (limit : Nat) (before : List (Turn α)) (turn : Turn α) : Prop :=
  turn.request = .rewind →
    (reel.spotOf before).left = [] ∧ reel.pass (reel.spotOf before).pass ≠ [] ∧
      (itemsOf before).length < limit

variable {reel}

theorem spotOf_append (log : List (Turn α)) (turn : Turn α) :
    reel.spotOf (log ++ [turn]) = reel.behind (reel.spotOf log) turn :=
  List.foldl_concat _ _ _ _

theorem playsFrom_append {spot : Spot α} {log more : List (Turn α)} :
    reel.PlaysFrom spot (log ++ more) ↔
      reel.PlaysFrom spot log ∧ reel.PlaysFrom (log.foldl reel.behind spot) more := by
  induction log generalizing spot with
  | nil => exact (iff_of_eq (true_and _)).symm
  | cons turn rest ih => exact (and_congr_right fun _ => ih).trans and_assoc.symm

theorem plays_append {log : List (Turn α)} {turn : Turn α} :
    reel.Plays (log ++ [turn]) ↔ reel.Plays log ∧ reel.Gives (reel.spotOf log) turn :=
  playsFrom_append.trans (and_congr_right fun _ => iff_of_eq (and_true _))

/-- A turn that asks nothing of the input has any answer. -/
theorem gives_of_ne {spot : Spot α} {turn : Turn α}
    (h : turn.request ≠ .stop ∧ turn.request ≠ .item ∧ turn.request ≠ .rewind) :
    reel.Gives spot turn := by
  obtain ⟨hstop, hitem, hrewind⟩ := h
  unfold Gives
  split
  · next hrequest => exact absurd hrequest hitem
  · next hrequest => exact absurd hrequest hrewind
  · next hrequest => exact absurd hrequest hstop
  · trivial

end Reel

/-- What is said of each turn and those before it is said of the last one and all others. -/
theorem forall_prefix_concat {P : List (Turn α) → Turn α → Prop} {log : List (Turn α)}
    {turn : Turn α} :
    (∀ before last, before ++ [last] <+: log ++ [turn] → P before last) ↔
      (∀ before last, before ++ [last] <+: log → P before last) ∧ P log turn := by
  constructor
  · intro h
    exact ⟨fun before last hmore => h before last (hmore.trans (List.prefix_append _ _)),
      h log turn (List.prefix_refl _)⟩
  · rintro ⟨hbefore, hlast⟩ before last hmore
    rcases List.prefix_concat_iff.mp hmore with heq | hless
    · obtain ⟨rfl, hsame⟩ := List.append_inj' heq rfl
      obtain rfl := List.singleton_inj.mp hsame
      exact hlast
    · exact hbefore before last hless

/-- Whether a turn asks for an item. -/
def Turn.isFetch : Turn α → Bool
  | ⟨.item, _⟩ => true
  | _ => false

/-- How often a scan asked for an item. -/
def fetchesOf (log : List (Turn α)) : Nat := log.countP Turn.isFetch

/-- Whether a turn starts the input anew. -/
def Turn.isRewind : Turn α → Bool
  | ⟨.rewind, .rewound again⟩ => again
  | _ => false

/-- How often the input was started anew. -/
def rewindsOf (log : List (Turn α)) : Nat := log.countP Turn.isRewind

theorem fetchesOf_append (log : List (Turn α)) (turn : Turn α) :
    fetchesOf (log ++ [turn]) = fetchesOf log + if turn.isFetch then 1 else 0 := by
  rw [fetchesOf, fetchesOf, List.countP_append, List.countP_singleton]

theorem rewindsOf_append (log : List (Turn α)) (turn : Turn α) :
    rewindsOf (log ++ [turn]) = rewindsOf log + if turn.isRewind then 1 else 0 := by
  rw [rewindsOf, rewindsOf, List.countP_append, List.countP_singleton]

/-! ## The invariant -/

namespace Reel

variable {reel : Reel α} {limit : Nat} {bookmark : Bookmark} {log : List (Turn α)}

/-- Whether a bookmark and a log agree with each other and with a reel. -/
structure Tracks (reel : Reel α) (limit : Nat) (bookmark : Bookmark) (log : List (Turn α)) :
    Prop where
  read : bookmark.itemsRead = (itemsOf log).length
  within : bookmark.itemsRead ≤ limit
  joined : itemsOf log ++ (reel.spotOf log).left = reel.items ((reel.spotOf log).pass + 1)
  passed : bookmark.passItems + (reel.spotOf log).left.length =
    (reel.pass (reel.spotOf log).pass).length
  rewinds : bookmark.rewinds = (reel.spotOf log).pass
  rewound : rewindsOf log = (reel.spotOf log).pass
  earlier : ∀ pass < (reel.spotOf log).pass, ¬reel.Stops limit pass

/-- What holds at each stage of a reading. As long as it goes on, each fetch gave an item or ended a
pass. -/
def Stands (reel : Reel α) (limit : Nat) (bookmark : Bookmark) (log : List (Turn α)) : Prop :=
  match bookmark.stage with
  | .reading => bookmark.readFault = none ∧
    fetchesOf log = (itemsOf log).length + (reel.spotOf log).pass
  | .rewinding => bookmark.readFault = none ∧
    fetchesOf log = (itemsOf log).length + (reel.spotOf log).pass + 1 ∧
    (reel.spotOf log).left = [] ∧ 0 < bookmark.passItems ∧ bookmark.itemsRead < limit
  | .ended => bookmark.readFault = reel.fault? limit (reel.spotOf log).pass ∧
    fetchesOf log < 2 * limit ∧ reel.Stops limit (reel.spotOf log).pass ∧
    itemsOf log = (reel.items ((reel.spotOf log).pass + 1)).take limit

/-- The invariant of the reading of a reel. -/
structure Rolls (reel : Reel α) (limit : Nat) (bookmark : Bookmark) (log : List (Turn α)) :
    Prop where
  tracks : reel.Tracks limit bookmark log
  stands : reel.Stands limit bookmark log

theorem rolls_start (reel : Reel α) (limit : Nat) :
    reel.Rolls limit ⟨0, 0, 0, none, .reading⟩ [] where
  tracks :=
    { read := rfl
      within := Nat.zero_le _
      joined := (items_succ 0).symm
      passed := Nat.zero_add _
      rewinds := rfl
      rewound := rfl
      earlier := fun _ hpass => absurd hpass (Nat.not_lt_zero _) }
  stands := ⟨rfl, rfl⟩

/-- There are always fewer fetches than twice the limit. -/
theorem Rolls.fetches_lt (h : reel.Rolls limit bookmark log) (hlimit : 0 < limit) :
    fetchesOf log < 2 * limit := by
  have hread := h.tracks.read
  have hwithin := h.tracks.within
  have hpass := lt_limit hlimit h.tracks.earlier
  have hstands := h.stands
  unfold Stands at hstands
  split at hstands
  · obtain ⟨-, hfetches⟩ := hstands
    omega
  · obtain ⟨-, hfetches, -, -, hbelow⟩ := hstands
    omega
  · exact hstands.2.1

/-- What has been read is the beginning of what there is to be read. -/
theorem Tracks.begins {last : Nat} (h : reel.Tracks limit bookmark log)
    (hlast : reel.IsLast limit last) : itemsOf log <+: (reel.items (last + 1)).take limit := by
  have hpass : (reel.spotOf log).pass ≤ last :=
    Nat.le_of_not_lt fun hbeyond => h.earlier last hbeyond hlast.stops
  have hread : itemsOf log <+: reel.items ((reel.spotOf log).pass + 1) := by
    rw [← h.joined]
    exact List.prefix_append _ _
  refine List.prefix_take_iff.mpr ⟨hread.trans (items_mono (Nat.succ_le_succ hpass)), ?_⟩
  rw [← h.read]
  exact h.within

/-! ## Turns -/

/-- A turn that gives no item and starts no pass moves nothing. -/
theorem Tracks.turn (h : reel.Tracks limit bookmark log) {turn : Turn α}
    (hspot : ∀ spot, reel.behind spot turn = spot) (hitem : turn.item? = none)
    (hrewind : turn.isRewind = false) (readFault : Option Fault) (stage : Stage) :
    reel.Tracks limit { bookmark with readFault, stage } (log ++ [turn]) := by
  have hspotOf : reel.spotOf (log ++ [turn]) = reel.spotOf log := by rw [spotOf_append, hspot]
  have hitems : itemsOf (log ++ [turn]) = itemsOf log := itemsOf_append_of_none log hitem
  have hrewinds : rewindsOf (log ++ [turn]) = rewindsOf log := by
    rw [rewindsOf_append, hrewind]
    rfl
  exact
    { read := by rw [hitems]; exact h.read
      within := h.within
      joined := by rw [hitems, hspotOf]; exact h.joined
      passed := by rw [hspotOf]; exact h.passed
      rewinds := by rw [hspotOf]; exact h.rewinds
      rewound := by rw [hrewinds, hspotOf]; exact h.rewound
      earlier := by rw [hspotOf]; exact h.earlier }

/-- A turn that asks nothing of the input changes nothing. -/
theorem Rolls.silent (h : reel.Rolls limit bookmark log) {turn : Turn α}
    (hspot : ∀ spot, reel.behind spot turn = spot) (hitem : turn.item? = none)
    (hrewind : turn.isRewind = false) (hfetch : turn.isFetch = false) :
    reel.Rolls limit bookmark (log ++ [turn]) := by
  refine ⟨h.tracks.turn hspot hitem hrewind bookmark.readFault bookmark.stage, ?_⟩
  have hstands := h.stands
  unfold Stands at hstands ⊢
  rw [spotOf_append, hspot, itemsOf_append_of_none log hitem, fetchesOf_append, hfetch]
  exact hstands

/-- A scan that is not stopped ends the reading if its limit is reached. -/
theorem Rolls.checked (h : reel.Rolls limit bookmark log) (hlimit : 0 < limit)
    (hstage : bookmark.stage = .reading) :
    reel.Rolls limit { bookmark with stage := .unless (bookmark.itemsRead = limit) }
      (log ++ [⟨.stop, .stop false⟩]) := by
  have hfetches := h.fetches_lt hlimit
  obtain ⟨htracks, hstands⟩ := h
  refine ⟨htracks.turn (fun _ => rfl) rfl rfl bookmark.readFault _, ?_⟩
  rw [Stands, hstage] at hstands
  rw [Stands, spotOf_append, itemsOf_append_of_none log rfl, fetchesOf_append]
  by_cases hreached : bookmark.itemsRead = limit
  · have hread : (itemsOf log).length = limit := htracks.read.symm.trans hreached
    rw [decide_eq_true hreached]
    show _ = reel.fault? limit (reel.spotOf log).pass ∧ _ < _ ∧
      reel.Stops limit (reel.spotOf log).pass ∧
      _ = (reel.items ((reel.spotOf log).pass + 1)).take limit
    have hreach : limit ≤ (reel.items ((reel.spotOf log).pass + 1)).length := by
      rw [← htracks.joined, List.length_append]
      omega
    refine ⟨hstands.1.trans (fault?_of_reached hreach).symm, hfetches, Or.inr (Or.inr hreach), ?_⟩
    rw [← htracks.joined, ← hread, List.take_left]
  · rw [decide_eq_false hreached]
    exact hstands

/-- At the end of a pass all there is so far has been read. -/
theorem Tracks.itemsOf_eq (h : reel.Tracks limit bookmark log)
    (hleft : (reel.spotOf log).left = []) :
    itemsOf log = reel.items ((reel.spotOf log).pass + 1) := by
  rw [← h.joined, hleft, List.append_nil]

theorem Tracks.itemsOf_eq_take (h : reel.Tracks limit bookmark log)
    (hleft : (reel.spotOf log).left = []) :
    itemsOf log = (reel.items ((reel.spotOf log).pass + 1)).take limit := by
  rw [← h.itemsOf_eq hleft, List.take_of_length_le]
  rw [← h.read]
  exact h.within

/-- A scan that has read an item is one item further. -/
theorem Rolls.item (h : reel.Rolls limit bookmark log) (hstage : bookmark.stage = .reading)
    (hbelow : bookmark.itemsRead < limit) {item : α} {rest : List α}
    (hleft : (reel.spotOf log).left = item :: rest) :
    reel.Rolls limit (bookmark.behind limit (Turn.mk .item (.item (some item))))
      (log ++ [⟨.item, .item (some item)⟩]) := by
  obtain ⟨htracks, hstands⟩ := h
  rw [Stands, hstage] at hstands
  have hspot : reel.spotOf (log ++ [⟨.item, .item (some item)⟩]) =
      ⟨(reel.spotOf log).pass, rest⟩ := by
    rw [spotOf_append, behind, hleft]
    rfl
  have hitems : itemsOf (log ++ [⟨.item, .item (some item)⟩]) = itemsOf log ++ [item] :=
    itemsOf_append log _
  have hlength : (itemsOf log ++ [item]).length = (itemsOf log).length + 1 := List.length_append
  have hpassed := htracks.passed
  rw [hleft, List.length_cons] at hpassed
  constructor
  · exact
      { read := by rw [hitems, hlength, ← htracks.read]; rfl
        within := hbelow
        joined := by
          rw [hspot, hitems, List.append_assoc]
          have hjoined := htracks.joined
          rw [hleft] at hjoined
          exact hjoined
        passed := by
          rw [hspot]
          show bookmark.passItems + 1 + rest.length = (reel.pass (reel.spotOf log).pass).length
          omega
        rewinds := by rw [hspot]; exact htracks.rewinds
        rewound := by rw [hspot, rewindsOf_append]; exact htracks.rewound
        earlier := by rw [hspot]; exact htracks.earlier }
  · show bookmark.readFault = none ∧ _
    refine ⟨hstands.1, ?_⟩
    rw [hspot, hitems, hlength, fetchesOf_append, hstands.2]
    exact Nat.add_right_comm _ _ 1

/-- At the end of a pass a scan asks for the input from its start if the pass had items. -/
theorem Rolls.passEnded (h : reel.Rolls limit bookmark log) (hlimit : 0 < limit)
    (hstage : bookmark.stage = .reading) (hbelow : bookmark.itemsRead < limit)
    (hleft : (reel.spotOf log).left = []) :
    reel.Rolls limit (bookmark.behind limit (Turn.mk .item (.item (none : Option α))))
      (log ++ [⟨.item, .item none⟩]) := by
  obtain ⟨htracks, hstands⟩ := h
  refine ⟨htracks.turn (fun _ => rfl) rfl rfl bookmark.readFault _, ?_⟩
  rw [Stands, hstage] at hstands
  obtain ⟨hfault, hfetches⟩ := hstands
  have hread := htracks.read
  have hpassed := htracks.passed
  have hpass := lt_limit hlimit htracks.earlier
  rw [hleft, List.length_nil, Nat.add_zero] at hpassed
  rw [Stands, spotOf_append, itemsOf_append_of_none log rfl, fetchesOf_append, Bookmark.behind]
  dsimp only
  by_cases hitems : 0 < bookmark.passItems
  · rw [if_pos hitems]
    exact ⟨hfault, congrArg Nat.succ hfetches, hleft, hitems, hbelow⟩
  · have hempty : reel.pass (reel.spotOf log).pass = [] := List.length_eq_zero_iff.mp (by omega)
    rw [if_neg hitems]
    refine ⟨hfault.trans (fault?_of_empty hempty).symm, ?_, Or.inl hempty, ?_⟩
    · show fetchesOf log + 1 < 2 * limit
      omega
    · exact htracks.itemsOf_eq_take hleft

/-- A pass that is asked for behind its end had items, and there are more to be read. -/
theorem Rolls.due (h : reel.Rolls limit bookmark log) (hstage : bookmark.stage = .rewinding) :
    (reel.spotOf log).left = [] ∧ reel.pass (reel.spotOf log).pass ≠ [] ∧
      (itemsOf log).length < limit := by
  obtain ⟨htracks, hstands⟩ := h
  rw [Stands, hstage] at hstands
  obtain ⟨-, -, hleft, hitems, hbelow⟩ := hstands
  have hpassed := htracks.passed
  rw [hleft, List.length_nil, Nat.add_zero] at hpassed
  refine ⟨hleft, List.length_pos_iff.mp (hpassed ▸ hitems), ?_⟩
  rw [← htracks.read]
  exact hbelow

/-- A scan that starts a pass has the items of that pass before it. -/
theorem Rolls.rewound (h : reel.Rolls limit bookmark log) (hstage : bookmark.stage = .rewinding)
    (hagain : reel.again (reel.spotOf log).pass = .ok true) :
    reel.Rolls limit (bookmark.behind limit (Turn.mk .rewind (.rewound true : Reply α)))
      (log ++ [⟨.rewind, .rewound true⟩]) := by
  obtain ⟨hleft, hpass, hbelow⟩ := h.due hstage
  obtain ⟨htracks, hstands⟩ := h
  rw [Stands, hstage] at hstands
  have hspot : reel.spotOf (log ++ [⟨.rewind, .rewound true⟩]) =
      ⟨(reel.spotOf log).pass + 1, reel.pass ((reel.spotOf log).pass + 1)⟩ :=
    spotOf_append log _
  have hitems : itemsOf (log ++ [⟨.rewind, .rewound true⟩]) = itemsOf log :=
    itemsOf_append_of_none log rfl
  have hall := htracks.itemsOf_eq hleft
  constructor
  · exact
      { read := by rw [hitems]; exact htracks.read
        within := htracks.within
        joined := by rw [hspot, hitems, hall, items_succ (_ + 1)]
        passed := by rw [hspot]; exact Nat.zero_add _
        rewinds := by rw [hspot]; exact congrArg Nat.succ htracks.rewinds
        rewound := by rw [hspot, rewindsOf_append]; exact congrArg Nat.succ htracks.rewound
        earlier := by
          rw [hspot]
          intro pass hlt
          rcases Nat.lt_succ_iff_lt_or_eq.mp hlt with hearlier | rfl
          · exact htracks.earlier pass hearlier
          · -- The pass that has ended had items, and the limit is not reached with them.
            rw [Stops, not_or, not_or, not_not, ← hall, Nat.not_le]
            exact ⟨hpass, hagain, hbelow⟩ }
  · show bookmark.readFault = none ∧ _
    rw [hspot, hitems, fetchesOf_append]
    exact ⟨hstands.1, hstands.2.1⟩

/-- A scan whose input is not read again has read all there is. -/
theorem Rolls.unrewound (h : reel.Rolls limit bookmark log) (hlimit : 0 < limit)
    (hstage : bookmark.stage = .rewinding) (hagain : reel.again (reel.spotOf log).pass ≠ .ok true)
    {reply : Reply α} (hspot : ∀ spot, reel.behind spot ⟨.rewind, reply⟩ = spot)
    (hrewind : (Turn.mk .rewind reply).isRewind = false) {readFault : Option Fault}
    (hfault : readFault = reel.fault? limit (reel.spotOf log).pass) :
    reel.Rolls limit { bookmark with readFault, stage := .ended } (log ++ [⟨.rewind, reply⟩]) := by
  have hfetches := h.fetches_lt hlimit
  obtain ⟨hleft, -, -⟩ := h.due hstage
  refine ⟨h.tracks.turn hspot rfl hrewind _ _, ?_⟩
  rw [Stands, spotOf_append, hspot, itemsOf_append_of_none log rfl, fetchesOf_append]
  exact ⟨hfault, hfetches, Or.inr (Or.inl hagain), h.tracks.itemsOf_eq_take hleft⟩

/-- The step of the invariant: a turn that answers as the reel does. -/
theorem rolls_turn (h : reel.Rolls limit bookmark log) (hlimit : 0 < limit) {turn : Turn α}
    (hasks : bookmark.Asks limit turn.request) (hgives : reel.Gives (reel.spotOf log) turn) :
    reel.Rolls limit (bookmark.behind limit turn) (log ++ [turn]) := by
  obtain ⟨request, reply⟩ := turn
  cases request with
  | stop =>
    obtain rfl : reply = .stop false := hgives
    exact h.checked hlimit hasks
  | item =>
    obtain ⟨hstage, hbelow⟩ := hasks
    obtain rfl : reply = .item (reel.spotOf log).left.head? := hgives
    cases hleft : (reel.spotOf log).left with
    | nil => exact h.passEnded hlimit hstage hbelow hleft
    | cons item rest => exact h.item hstage hbelow hleft
  | rewind =>
    obtain rfl : reply = reel.rewound (reel.spotOf log).pass := hgives
    obtain ⟨hleft, hpass, hbelow⟩ := h.due hasks
    rw [h.tracks.itemsOf_eq hleft] at hbelow
    have hfault := fault?_of_below hpass hbelow
    unfold rewound
    cases hagain : reel.again (reel.spotOf log).pass with
    | error fault =>
      rw [hagain] at hfault
      exact h.unrewound hlimit hasks (by rw [hagain]; nofun) (fun _ => rfl) rfl hfault.symm
    | ok again =>
      rw [hagain] at hfault
      cases again with
      | true => exact h.rewound hasks hagain
      | false =>
        have hnone : bookmark.readFault = none := by
          have hstands := h.stands
          rw [Stands, hasks] at hstands
          exact hstands.1
        exact h.unrewound hlimit hasks (by rw [hagain]; nofun) (fun _ => rfl) rfl
          (hnone.trans hfault.symm)
  | emptyBatch | acknowledgment | send =>
    exact h.silent (fun _ => rfl) rfl rfl rfl

end Reel

end LoadBench
