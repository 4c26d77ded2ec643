/-!
# Runs of computations that may fail

Reading and checking are both computations that keep a state when they fail. A run of one is taken
apart along its binds, so that no later proof opens the state.
-/

set_option autoImplicit false

namespace TypedScheme

variable {ε σ α β : Type}

@[simp] theorem run_pure (a : α) (s : σ) :
    (pure a : ExceptT ε (StateM σ) α).run s = (.ok a, s) := rfl

/-- A bind runs its first part, and its second part after a result. -/
theorem run_bind (c : ExceptT ε (StateM σ) α) (f : α → ExceptT ε (StateM σ) β) (s : σ) :
    (c >>= f).run s = match c.run s with
      | (.ok a, s') => (f a).run s'
      | (.error e, s') => (.error e, s') := by
  change (match c.run s with
    | (r, s') => (ExceptT.bindCont f r : StateM σ _) s') = _
  rcases c.run s with ⟨_ | a, s'⟩ <;> rfl

/-- A step that succeeds hands its result and its state on. -/
theorem run_bind_ok {c : ExceptT ε (StateM σ) α} {f : α → ExceptT ε (StateM σ) β} {s s' : σ} {a : α}
    (h : c.run s = (.ok a, s')) : (c >>= f).run s = (f a).run s' := by
  rw [run_bind, h]

/-- A step that fails ends the run, in the state it has reached. -/
theorem run_bind_error {c : ExceptT ε (StateM σ) α} {f : α → ExceptT ε (StateM σ) β} {s s' : σ}
    {e : ε} (h : c.run s = (.error e, s')) : (c >>= f).run s = (.error e, s') := by
  rw [run_bind, h]

/-- A bind has a result when its first part has one, and its second part after it. -/
theorem run_bind_eq_ok_iff {c : ExceptT ε (StateM σ) α} {f : α → ExceptT ε (StateM σ) β} {s s' : σ}
    {b : β} : (c >>= f).run s = (.ok b, s') ↔
      ∃ a s₁, c.run s = (.ok a, s₁) ∧ (f a).run s₁ = (.ok b, s') := by
  rcases hc : c.run s with ⟨_ | a, s₁⟩
  · rw [run_bind_error hc]
    constructor
    · intro h
      cases h
    · rintro ⟨a, s₁, h, -⟩
      cases h
  · rw [run_bind_ok hc]
    constructor
    · exact fun h => ⟨a, s₁, rfl, h⟩
    · rintro ⟨a, s₁, h, hf⟩
      cases h
      exact hf

/-- A bind without a state gives what its second part gives after the first. -/
theorem bind_eq_ok_iff {x : Except ε α} {f : α → Except ε β} {b : β} :
    (x >>= f) = .ok b ↔ ∃ a, x = .ok a ∧ f a = .ok b := by
  cases x with
  | error e => simp [bind, Except.bind]
  | ok a => simp [bind, Except.bind]

theorem toOption_eq_some_iff {x : Except ε α} {a : α} : x.toOption = some a ↔ x = .ok a := by
  cases x with
  | error e => simp [Except.toOption]
  | ok a => simp [Except.toOption]

/-- A computation whose errors are renamed gives the same results. -/
theorem mapError_eq_ok_iff {δ : Type} {x : Except ε α} {f : ε → δ} {a : α} :
    x.mapError f = .ok a ↔ x = .ok a := by
  cases x with
  | error e => constructor <;> (intro h; cases h)
  | ok b => constructor <;> (intro h; cases h; rfl)

/-- The error of a computation that fails. -/
def error? : Except ε α → Option ε
  | .ok _ => none
  | .error e => some e

theorem error?_eq_some_iff {x : Except ε α} {e : ε} : error? x = some e ↔ x = .error e := by
  cases x with
  | error e' => simp [error?]
  | ok a => simp [error?]

/-- A run from whose result something is computed has a result. -/
theorem exists_of_toOption_bind {run : Except ε α × σ} {f : α → Option β} {b : β}
    (h : run.1.toOption.bind f = some b) : ∃ a s, run = (.ok a, s) ∧ f a = some b := by
  obtain ⟨a, ha, hf⟩ := Option.bind_eq_some_iff.1 h
  exact ⟨a, run.2, Prod.ext (toOption_eq_some_iff.1 ha) rfl, hf⟩

end TypedScheme
