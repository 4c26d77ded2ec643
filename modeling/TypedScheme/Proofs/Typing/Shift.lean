import TypedScheme.Proofs.Expr.Numbering
import TypedScheme.Proofs.Typing.Renaming

/-!
# Typing after other numbers

An expression whose type variables are all numbered up to `k` is checked twice in one scope: after the
numbers up to `k₁`, and after the numbers up to `k₂`, both at least `k`. The variables from before stay
as they are and the new ones are moved by the difference.

## What this module delivers

- `Ty.Shifted k k₁ k₂`: two types that are equal up to that move, where the first has no variables between
  `k` and `k₁`.
- `Expr.shifted_typeOf`, `Expr.shifted_typeOfBody`: the types of two such checks.
- `Ty.Shifted.agrees_eq`: a type from before agrees with both or with neither.
-/

set_option autoImplicit false

namespace TypedScheme

open Check TypedScheme.Expr

variable {k k₁ k₂ : Nat}

/-! ## The move -/

/-- The first type has variables up to `k` and new ones after `k₁`, and the second is the first with
the new ones moved after `k₂`. -/
def Ty.Shifted (k k₁ k₂ : Nat) (t₁ t₂ : Ty) : Prop :=
  Ty.Renamed (renameAfter id k₁ k₂) {x | x ∈ {x | x ≤ k} ∨ k₁ < x} t₁ t₂

/-- All types in a scope are numbered up to `k`. -/
def Scope.Numbered (k : Nat) (Γ : Scope) : Prop := ∀ t ∈ Γ.types, t.Numbered k

/-- Bindings with numbered types keep a scope numbered. -/
theorem Scope.Numbered.extend {Γ : Scope} {βs : List (String × Ty)} (hΓ : Γ.Numbered k)
    (hβs : ∀ β ∈ βs, β.2.Numbered k) : (Γ.extend βs).Numbered k := by
  intro t ht
  rcases Scope.mem_types_extend.1 ht with ⟨β, hβ, rfl⟩ | ht
  · exact hβs β hβ
  · exact hΓ t ht

theorem Scope.numbered_iff {Γ : Scope} : Γ.Numbered k ↔ ∀ x ∈ Γ.typeVars, x ≤ k := by
  constructor
  · intro h x hx
    obtain ⟨t, ht, hx⟩ := Scope.mem_typeVars.1 hx
    exact h t ht x hx
  · exact fun h t ht x hx => h x (Scope.mem_typeVars.2 ⟨t, ht, hx⟩)

theorem Expr.carries_numbered_iff {e : Expr} :
    e.Carries (Ty.Numbered k) ↔ ∀ x ∈ e.typeVars, x ≤ k := by
  constructor
  · intro h x hx
    obtain ⟨t, ht, hx⟩ := mem_typeVars.1 hx
    exact h t ht x hx
  · exact fun h t ht x hx => h x (mem_typeVars.2 ⟨t, ht, hx⟩)

/-- Moving the variables after `k₁` to those after `k₂` keeps the earlier ones and couples the counts.
-/
theorem coupled_shift (h₁ : k ≤ k₁) (h₂ : k ≤ k₂) :
    Coupled (renameAfter id k₁ k₂) {x | x ∈ {x | x ≤ k} ∨ k₁ < x} k₁ k₂ :=
  coupled_renameAfter (Set.injOn_id _) (fun _ hx => Nat.le_trans hx h₁)
    fun _ hx => Nat.le_trans hx h₂

/-- The move leaves a type from before as it is. -/
theorem Ty.Numbered.rename_shift {t : Ty} (ht : t.Numbered k) (h₁ : k ≤ k₁) :
    t.rename (renameAfter id k₁ k₂) = t := by
  conv_rhs => rw [← Ty.rename_id t]
  exact Ty.rename_congr fun x hx => if_pos (Nat.le_trans (ht x hx) h₁)

/-- A type without later variables is equal to itself, wherever later variables move. -/
theorem Ty.Numbered.shifted {t : Ty} (ht : t.Numbered k) (h₁ : k ≤ k₁) : Ty.Shifted k k₁ k₂ t t :=
  ⟨fun x hx => .inl (ht x hx), (ht.rename_shift h₁).symm⟩

/-- A type from before agrees with both of two shifted types or with neither. -/
theorem Ty.Shifted.agrees_eq {t₁ t₂ a : Ty} (h : Ty.Shifted k k₁ k₂ t₁ t₂) (ha : a.Numbered k)
    (h₁ : k ≤ k₁) (h₂ : k ≤ k₂) : a.agrees t₁ = a.agrees t₂ := by
  obtain ⟨hover, rfl⟩ := h
  have ha' : Ty.Shifted k k₁ k₂ a a := ha.shifted h₁
  calc a.agrees t₁
      = (a.rename (renameAfter id k₁ k₂)).agrees (t₁.rename (renameAfter id k₁ k₂)) :=
        (Substitution.agrees_rename (coupled_shift h₁ h₂).injOn ha'.1 hover).symm
    _ = a.agrees (t₁.rename (renameAfter id k₁ k₂)) := by rw [ha.rename_shift h₁]

/-! ## Checks -/

/-- A scope without later variables stays as it is when later variables move. -/
theorem Scope.Numbered.renamed {Γ : Scope} (hΓ : Γ.Numbered k) (h₁ : k ≤ k₁) :
    Scope.Renamed (renameAfter id k₁ k₂) {x | x ∈ {x | x ≤ k} ∨ k₁ < x} Γ Γ :=
  ⟨Scope.shows_of_forall_mem_types fun t ht x hx => .inl (hΓ t ht x hx),
    (Scope.rename_eq_self fun t ht x hx => if_pos (Nat.le_trans (hΓ t ht x hx) h₁)).symm⟩

namespace Expr

variable {Γ : Scope}

theorem renameAll_shift {es : List Expr} (hes : NumberedAll k es) (h₁ : k ≤ k₁) :
    renameAll (renameAfter id k₁ k₂) es = es :=
  renameAll_eq_self fun t ht x hx => if_pos (Nat.le_trans (hes t ht x hx) h₁)

/-- An expression without later variables stays as it is when later variables move. -/
theorem rename_shift {e : Expr} (he : e.Carries (Ty.Numbered k)) (h₁ : k ≤ k₁) :
    e.rename (renameAfter id k₁ k₂) = e := by
  conv_rhs => rw [← rename_id e]
  exact rename_congr e fun t ht => ((he t ht).rename_shift h₁).trans (Ty.rename_id t).symm

/-- Two checks of an expression after different numbers have shifted types, or the same fault. -/
theorem shifted_typeOf (h₁ : k ≤ k₁) (h₂ : k ≤ k₂) (hΓ : Γ.Numbered k) (d₁ d₂ : Nat) {e : Expr}
    (he : e.Carries (Ty.Numbered k)) :
    Parallel k₁ k₂ (Ty.Shifted k k₁ k₂) (typeOf Γ d₁ e) (typeOf Γ d₂ e) := by
  have hparallel := renamed_typeOf (coupled_shift h₁ h₂) (hΓ.renamed h₁) d₁ d₂ e
    fun t ht x hx => .inl (he t ht x hx)
  rwa [rename_shift he h₁] at hparallel

theorem shifted_typeOfBody (h₁ : k ≤ k₁) (h₂ : k ≤ k₂) (hΓ : Γ.Numbered k) (d₁ d₂ : Nat)
    {owner : Expr} (howner : owner.Carries (Ty.Numbered k)) {es : List Expr}
    (hes : NumberedAll k es) :
    Parallel k₁ k₂ (Ty.Shifted k k₁ k₂) (typeOfBody Γ d₁ owner es) (typeOfBody Γ d₂ owner es) := by
  have hparallel := renamed_typeOfBody (coupled_shift h₁ h₂) (hΓ.renamed h₁) d₁ d₂ owner es
    fun t ht x hx => .inl (hes t ht x hx)
  rwa [rename_shift howner h₁, renameAll_shift hes h₁] at hparallel

end Expr

end TypedScheme
