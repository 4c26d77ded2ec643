import TypedScheme.Proofs.Run
import TypedScheme.Typing.Checker

/-!
# Runs of a check

A check runs from a state, and ends in a state with a result or an error. What is to be said about runs
is said by one of three judgments about checks, each with rules that follow the steps of a check.

## What this module delivers

- The run of each primitive step of a check (`Check.run_note` and its companions).
- `Check.Ensures c P`: from every state, a result of `c` satisfies `P`.
- `Check.Decides c P`: from every state, the results of `c` are exactly the values that satisfy `P`.
  It is the form of a check whose success does not depend on the numbers given out before.
- `Check.Related St Err R c₁ c₂`: from states related by `St`, the two checks end in states related by
  `St`, and either both have results related by `R` or both have errors related by `Err`. It is the
  form of every comparison of two runs.

Each comes with a rule for every primitive step it is used with.
-/

set_option autoImplicit false

namespace TypedScheme.Check

variable {α β γ δ : Type}

/-! ## Single runs -/

/-- A fault leaves numbers and notes as they are. -/
@[simp] theorem run_fault (f : TypeFault) (span : Span) (σ : CheckState) :
    (fault f span : Check α).run σ = (.error ⟨f, span⟩, σ) := rfl

@[simp] theorem run_numbered (make : Nat → α × Nat) (σ : CheckState) :
    (numbered make).run σ = (.ok (make σ.last).1, { σ with last := (make σ.last).2 }) := rfl

/-- A note changes nothing but the notes. -/
theorem run_note (depth : Nat) (e : Expr) (σ : CheckState) :
    ∃ notes, (note depth e).run σ = (.ok (), { σ with notes }) := by
  obtain ⟨last, tracing, notes⟩ := σ
  cases tracing with
  | false => exact ⟨notes, rfl⟩
  | true => exact ⟨notes ++ [⟨depth, e⟩], rfl⟩

/-- A requirement passes if the types agree, and is a mismatch else; it changes nothing. -/
theorem run_require (expected found : Ty) (inside : Expr) (σ : CheckState) :
    (require expected found inside).run σ =
      if expected.agrees found then (.ok (), σ)
      else (.error ⟨.mismatch expected found inside, inside.span⟩, σ) := by
  unfold require
  split <;> rfl

/-! ## What all results satisfy -/

/-- From every state, a result of the check satisfies `P`. -/
def Ensures (c : Check α) (P : α → Prop) : Prop := ∀ σ a, (c.run σ).1 = .ok a → P a

namespace Ensures

variable {c : Check α} {P : α → Prop}

/-- A check ensures nothing by itself. -/
theorem any (c : Check α) : Ensures c fun _ => True := fun _ _ _ => trivial

theorem pure {a : α} (h : P a) : Ensures (Pure.pure a) P := by
  rintro σ b hb
  rw [run_pure, Except.ok.injEq] at hb
  exact hb ▸ h

/-- A failing check ensures everything, since it has no result. -/
theorem fault (f : TypeFault) (span : Span) : Ensures (fault f span) P := by
  intro σ a h
  simp at h

/-- A result of a bind is one of its second part after a result of its first part. -/
theorem bind {f : α → Check β} {Q : β → Prop} (hc : Ensures c P)
    (hf : ∀ a, P a → Ensures (f a) Q) : Ensures (c >>= f) Q := by
  intro σ b h
  rcases hr : c.run σ with ⟨_ | a, σ'⟩
  · rw [run_bind_error hr] at h
    simp at h
  · rw [run_bind_ok hr] at h
    exact hf a (hc σ a (by rw [hr])) σ' b h

end Ensures

/-! ## Checks whose success does not depend on the state -/

/-- From every state, the results of a check are exactly the values that satisfy `P`. -/
def Decides (c : Check α) (P : α → Prop) : Prop := ∀ σ a, (c.run σ).1 = .ok a ↔ P a

namespace Decides

variable {c : Check α} {P Q : α → Prop}

/-- What a check decides can be said in other words. -/
theorem congr (h : Decides c P) (hPQ : ∀ a, P a ↔ Q a) : Decides c Q :=
  fun σ a => (h σ a).trans (hPQ a)

theorem pure (a : α) : Decides (Pure.pure a) fun b => b = a := by
  intro σ b
  rw [run_pure, Except.ok.injEq, eq_comm]

/-- A failing check decides what has no instance. -/
theorem fault {f : TypeFault} {span : Span} (h : ∀ a, ¬P a) : Decides (fault f span) P := by
  intro σ a
  simp [h a]

theorem fault_bind {f : TypeFault} {span : Span} {k : α → Check β} {Q : β → Prop}
    (h : ∀ b, ¬Q b) : Decides (Check.fault f span >>= k) Q := by
  intro σ b
  rw [run_bind_error (run_fault f span σ)]
  simp [h b]

theorem note (depth : Nat) (e : Expr) : Decides (note depth e) fun _ => True := by
  intro σ b
  obtain ⟨notes, h⟩ := run_note depth e σ
  simp [h]

/-- A requirement decides whether the types agree. -/
theorem require (expected found : Ty) (inside : Expr) :
    Decides (require expected found inside) fun _ => expected.agrees found = true := by
  intro σ b
  rw [run_require]
  split
  · simp [*]
  · simp [*]

/-- The results of a bind are those of its second part after a result of its first part. -/
theorem bind {f : α → Check β} {R : α → β → Prop} (hc : Decides c P)
    (hf : ∀ a, P a → Decides (f a) (R a)) : Decides (c >>= f) fun b => ∃ a, P a ∧ R a b := by
  intro σ b
  rcases hr : c.run σ with ⟨_ | a, σ'⟩
  · rw [run_bind_error hr]
    constructor
    · intro h
      simp at h
    · rintro ⟨a, ha, -⟩
      have := (hc σ a).2 ha
      rw [hr] at this
      simp at this
  · rw [run_bind_ok hr]
    have ha : P a := (hc σ a).1 (by rw [hr])
    rw [hf a ha σ' b]
    constructor
    · exact fun h => ⟨a, ha, h⟩
    · rintro ⟨a', ha', h⟩
      -- The first part has one result from a given state, so the two values are the same.
      have := (hc σ a').2 ha'
      rw [hr] at this
      injection this with this
      exact this ▸ h

/-- A check that is preceded by a note decides the same. -/
theorem after_note {depth : Nat} {e : Expr} (hc : Decides c P) :
    Decides (do Check.note depth e; c) P :=
  ((note depth e).bind fun _ _ => hc).congr fun a => by simp

/-- A check after a requirement decides the same, and that the requirement holds. -/
theorem after_require {expected found : Ty} {inside : Expr}
    (hc : expected.agrees found = true → Decides c P) :
    Decides (do Check.require expected found inside; c)
      fun a => expected.agrees found = true ∧ P a :=
  ((require expected found inside).bind fun _ h => hc h).congr fun a => by simp

/-- A check that gets new variables decides `P` if it does so whatever their numbers are. -/
theorem numbered_bind {make : Nat → γ × Nat} {f : γ → Check α}
    (h : ∀ n, Decides (f (make n).1) P) : Decides (numbered make >>= f) P := by
  intro σ a
  rw [run_bind_ok (run_numbered make σ)]
  exact h σ.last _ a

end Decides

/-! ## Two runs side by side -/

/-- Two results are related by `R`, or two errors by `Err`. -/
inductive Alike (Err : TypeError → TypeError → Prop) (R : α → β → Prop) :
    Except TypeError α → Except TypeError β → Prop
  | ok {a : α} {b : β} : R a b → Alike Err R (.ok a) (.ok b)
  | error {e₁ e₂ : TypeError} : Err e₁ e₂ → Alike Err R (.error e₁) (.error e₂)

/-- Results that are alike are so in a weaker sense. -/
theorem Alike.mono {Err : TypeError → TypeError → Prop} {R S : α → β → Prop}
    {r₁ : Except TypeError α} {r₂ : Except TypeError β} (h : Alike Err R r₁ r₂)
    (hRS : ∀ a b, R a b → S a b) : Alike Err S r₁ r₂ := by
  cases h with
  | ok hab => exact .ok (hRS _ _ hab)
  | error he => exact .error he

/-- If one of two results that are alike is a success, so is the other. -/
theorem Alike.exists_of_ok {Err : TypeError → TypeError → Prop} {R : α → β → Prop}
    {r₁ : Except TypeError α} {r₂ : Except TypeError β} (h : Alike Err R r₁ r₂) {a : α}
    (hr : r₁ = .ok a) : ∃ b, r₂ = .ok b ∧ R a b := by
  cases h with
  | ok hab =>
    cases hr
    exact ⟨_, rfl, hab⟩
  | error he => cases hr

/-- If one of two results that are alike is an error, so is the other. -/
theorem Alike.exists_of_error {Err : TypeError → TypeError → Prop} {R : α → β → Prop}
    {r₁ : Except TypeError α} {r₂ : Except TypeError β} (h : Alike Err R r₁ r₂) {e₁ : TypeError}
    (hr : r₁ = .error e₁) : ∃ e₂, r₂ = .error e₂ ∧ Err e₁ e₂ := by
  cases h with
  | ok hab => cases hr
  | error he =>
    cases hr
    exact ⟨_, rfl, he⟩

/-- From related states, two checks end in related states with related results or errors. -/
def Related (St : CheckState → CheckState → Prop) (Err : TypeError → TypeError → Prop)
    (R : α → β → Prop) (c₁ : Check α) (c₂ : Check β) : Prop :=
  ∀ σ₁ σ₂, St σ₁ σ₂ →
    St (c₁.run σ₁).2 (c₂.run σ₂).2 ∧ Alike Err R (c₁.run σ₁).1 (c₂.run σ₂).1

namespace Related

variable {St : CheckState → CheckState → Prop} {Err : TypeError → TypeError → Prop}
  {R : α → β → Prop} {S : γ → δ → Prop}

/-- Checks that are related are so in a weaker sense. -/
theorem mono {R' : α → β → Prop} {c₁ : Check α} {c₂ : Check β} (h : Related St Err R c₁ c₂)
    (hR : ∀ a b, R a b → R' a b) : Related St Err R' c₁ c₂ :=
  fun σ₁ σ₂ hσ => ⟨(h σ₁ σ₂ hσ).1, (h σ₁ σ₂ hσ).2.mono hR⟩

theorem pure {a : α} {b : β} (h : R a b) : Related St Err R (Pure.pure a) (Pure.pure b) :=
  fun _ _ hσ => ⟨hσ, .ok h⟩

theorem fault {f₁ f₂ : TypeFault} {span₁ span₂ : Span} (h : Err ⟨f₁, span₁⟩ ⟨f₂, span₂⟩) :
    Related St Err R (Check.fault f₁ span₁) (Check.fault f₂ span₂) :=
  fun _ _ hσ => ⟨hσ, .error h⟩

/-- Two binds are related if their first parts are, and their second parts after related results. -/
theorem bind {c₁ : Check α} {c₂ : Check β} {f : α → Check γ} {g : β → Check δ}
    (hc : Related St Err R c₁ c₂) (hfg : ∀ a b, R a b → Related St Err S (f a) (g b)) :
    Related St Err S (c₁ >>= f) (c₂ >>= g) := by
  intro σ₁ σ₂ hσ
  obtain ⟨hσ', halike⟩ := hc σ₁ σ₂ hσ
  rw [run_bind, run_bind]
  rcases h₁ : c₁.run σ₁ with ⟨r₁, σ₁'⟩
  rcases h₂ : c₂.run σ₂ with ⟨r₂, σ₂'⟩
  rw [h₁, h₂] at hσ' halike
  cases halike with
  | ok hab => exact hfg _ _ hab σ₁' σ₂' hσ'
  | error he => exact ⟨hσ', .error he⟩

/-- The parts after a note are related if the relation of states does not look at notes. -/
theorem after_note {c₁ : Check α} {c₂ : Check β}
    (hSt : ∀ σ₁ σ₂ n₁ n₂, St σ₁ σ₂ → St { σ₁ with notes := n₁ } { σ₂ with notes := n₂ })
    {d₁ d₂ : Nat} {e₁ e₂ : Expr} (hc : Related St Err R c₁ c₂) :
    Related St Err R (do note d₁ e₁; c₁) (do note d₂ e₂; c₂) := by
  intro σ₁ σ₂ hσ
  obtain ⟨n₁, h₁⟩ := run_note d₁ e₁ σ₁
  obtain ⟨n₂, h₂⟩ := run_note d₂ e₂ σ₂
  rw [run_bind_ok h₁, run_bind_ok h₂]
  exact hc _ _ (hSt σ₁ σ₂ n₁ n₂ hσ)

/-- Requirements are related if their types agree or disagree alike. -/
theorem require {a₁ a₂ b₁ b₂ : Ty} {e₁ e₂ : Expr} (hagree : a₁.agrees b₁ = a₂.agrees b₂)
    (h : Err ⟨.mismatch a₁ b₁ e₁, e₁.span⟩ ⟨.mismatch a₂ b₂ e₂, e₂.span⟩) :
    Related St Err (fun _ _ => True) (Check.require a₁ b₁ e₁) (Check.require a₂ b₂ e₂) := by
  unfold Check.require
  rw [hagree]
  split
  · exact pure trivial
  · exact fault h

end Related

end TypedScheme.Check
