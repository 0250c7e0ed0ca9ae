/-
  LoadBench.Proofs.Trace

  Machines that are told what to do.  A machine makes a step for an act, or
  refuses the act; `follow?` makes the steps of a list of acts, in order.  What
  every step preserves is preserved by all of them (`follow?_preserves`).

  A step may leave a note, and `noted` collects the notes of a list of acts.  An
  invariant may speak of the notes so far (`follow?_noted`).
-/

namespace LoadBench

variable {σ β : Type}

/-- Makes the steps of a list of acts; nothing if one of them is refused. -/
def follow? (step? : β → σ → Option σ) : List β → σ → Option σ
  | [], state => some state
  | act :: rest, state => (step? act state).bind (follow? step? rest)

variable {step? : β → σ → Option σ}

@[simp] theorem follow?_nil (state : σ) : follow? step? [] state = some state := rfl

theorem follow?_cons (act : β) (rest : List β) (state : σ) :
    follow? step? (act :: rest) state = (step? act state).bind (follow? step? rest) := rfl

theorem follow?_append (acts more : List β) (state : σ) :
    follow? step? (acts ++ more) state = (follow? step? acts state).bind (follow? step? more) := by
  induction acts generalizing state with
  | nil => rfl
  | cons act rest ih =>
    rw [List.cons_append, follow?_cons, follow?_cons]
    cases step? act state with
    | none => rfl
    | some next => exact ih next

theorem follow?_concat (acts : List β) (act : β) (state : σ) :
    follow? step? (acts ++ [act]) state = (follow? step? acts state).bind (step? act) := by
  rw [follow?_append]
  congr 1
  funext mid
  rw [follow?_cons]
  cases step? act mid <;> rfl

theorem follow?_map {γ : Type} (act : γ → β) (acts : List γ) (state : σ) :
    follow? step? (acts.map act) state = follow? (fun name => step? (act name)) acts state := by
  induction acts generalizing state with
  | nil => rfl
  | cons name rest ih =>
    rw [List.map_cons, follow?_cons, follow?_cons]
    exact congrArg (Option.bind _) (funext ih)

/-- What every step preserves is preserved by a list of them. -/
theorem follow?_preserves {P : σ → Prop}
    (hstep : ∀ act state next, P state → step? act state = some next → P next) {acts : List β}
    {state final : σ} (h : P state) (hacts : follow? step? acts state = some final) : P final := by
  induction acts generalizing state with
  | nil =>
    obtain rfl : state = final := Option.some.inj hacts
    exact h
  | cons act rest ih =>
    rw [follow?_cons, Option.bind_eq_some_iff] at hacts
    obtain ⟨next, hnext, hrest⟩ := hacts
    exact ih (hstep act state next h hnext) hrest

/-! ## Notes -/

variable {ν : Type}

/-- The notes of the steps of a list of acts, in order. -/
def noted (step? : β → σ → Option σ) (note? : β → σ → Option ν) : List β → σ → List ν
  | [], _ => []
  | act :: rest, state =>
    match step? act state with
    | none => []
    | some next => (note? act state).toList ++ noted step? note? rest next

variable {note? : β → σ → Option ν}

theorem noted_cons {act : β} {state next : σ} (h : step? act state = some next) (rest : List β) :
    noted step? note? (act :: rest) state =
      (note? act state).toList ++ noted step? note? rest next := by
  rw [noted, h]

theorem noted_append {acts : List β} {state mid : σ} (h : follow? step? acts state = some mid)
    (more : List β) :
    noted step? note? (acts ++ more) state =
      noted step? note? acts state ++ noted step? note? more mid := by
  induction acts generalizing state with
  | nil =>
    obtain rfl : state = mid := Option.some.inj h
    rfl
  | cons act rest ih =>
    rw [follow?_cons, Option.bind_eq_some_iff] at h
    obtain ⟨next, hnext, hrest⟩ := h
    rw [List.cons_append, noted_cons hnext, noted_cons hnext, ih hrest, List.append_assoc]

/-- What every step preserves, together with its note, is preserved by a list of them. -/
theorem follow?_noted {P : List ν → σ → Prop}
    (hstep : ∀ notes act state next, P notes state → step? act state = some next →
      P (notes ++ (note? act state).toList) next)
    {acts : List β} {notes : List ν} {state final : σ} (h : P notes state)
    (hacts : follow? step? acts state = some final) :
    P (notes ++ noted step? note? acts state) final := by
  induction acts generalizing notes state with
  | nil =>
    obtain rfl : state = final := Option.some.inj hacts
    rw [noted, List.append_nil]
    exact h
  | cons act rest ih =>
    rw [follow?_cons, Option.bind_eq_some_iff] at hacts
    obtain ⟨next, hnext, hrest⟩ := hacts
    rw [noted_cons hnext, ← List.append_assoc]
    exact ih (hstep notes act state next h hnext) hrest

end LoadBench
