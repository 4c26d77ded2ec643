import TypedScheme.Proofs.Typing.Run

/-!
# Programs form by form

A program is typed one form at a time, each in the scope that the forms before it leave.

## What this module delivers

- `Expr.typeOfForm`, the rule for one form, and the two equations that make `Expr.typeOfForms` a chain
  of it (`typeOfForms_singleton`, `typeOfForms_cons_cons`).
- `Expr.typeOfForms_append`: the forms of one program after those of another are typed in the scope
  that the first program leaves.
- `Expr.scope_of_typeOfForms`: the scope after well-typed forms has one new frame for every
  definition among them and does not depend on anything else.
-/

set_option autoImplicit false

namespace TypedScheme.Expr

open Check

/-- The type of one form of a program, and the scope after it. -/
def typeOfForm (scope : Scope) (depth : Nat) : Expr → Check (Ty × Scope)
  | define span decl value => do
    Check.note depth (.define span decl value)
    let valueType ← typeOf scope (depth + 1) value
    Check.require decl.boundType valueType value
    pure (.base .void, scope.extend [(decl.name, decl.boundType)])
  | e => do
    let t ← typeOf scope depth e
    pure (t, scope)

variable {Γ : Scope} {d : Nat}

theorem typeOfForm_of_ne_define {e : Expr} (h : ∀ span decl value, e ≠ define span decl value) :
    typeOfForm Γ d e = typeOf Γ d e >>= fun t => pure (t, Γ) := by
  cases e with
  | define span decl value => exact absurd rfl (h span decl value)
  | missing | number | boolean | string | quoted | primitive | var | cond | lambda | app | letin
  | letrec | program => rfl

theorem typeOfForms_singleton (e : Expr) : typeOfForms Γ d [e] = typeOfForm Γ d e := by
  cases e <;> rfl

/-- The forms after the first are typed in the scope that the first leaves. -/
theorem typeOfForms_cons_cons (e f : Expr) (rest : List Expr) :
    typeOfForms Γ d (e :: f :: rest) =
      typeOfForm Γ d e >>= fun r => typeOfForms r.2 d (f :: rest) := by
  cases e with
  | define span decl value =>
    simp only [typeOfForm, bind_assoc, pure_bind]
    rfl
  | missing | number | boolean | string | quoted | primitive | var | cond | lambda | app | letin
  | letrec | program =>
    simp only [typeOfForm, bind_assoc, pure_bind]
    rfl

/-- The forms of a second program are typed in the scope that the first program leaves. -/
theorem typeOfForms_append {fs gs : List Expr} (hfs : fs ≠ []) (hgs : gs ≠ []) :
    typeOfForms Γ d (fs ++ gs) = typeOfForms Γ d fs >>= fun r => typeOfForms r.2 d gs := by
  obtain ⟨g, gs, rfl⟩ := List.exists_cons_of_ne_nil hgs
  induction fs generalizing Γ with
  | nil => exact absurd rfl hfs
  | cons f fs ih =>
    cases fs with
    | nil => rw [List.singleton_append, typeOfForms_cons_cons, typeOfForms_singleton]
    | cons f' fs =>
      simp only [List.cons_append] at ih ⊢
      simp only [typeOfForms_cons_cons f, bind_assoc]
      exact bind_congr fun r => ih (List.cons_ne_nil f' fs)

/-! ## The scope after a program -/

/-- The scope after a form. -/
def scopeAfter (Γ : Scope) : Expr → Scope
  | define _ decl _ => Γ.extend [(decl.name, decl.boundType)]
  | _ => Γ

theorem scope_of_typeOfForm (e : Expr) :
    (typeOfForm Γ d e).Ensures fun r => r.2 = scopeAfter Γ e := by
  cases e with
  | define span decl value =>
    exact (Ensures.any _).bind fun _ _ => (Ensures.any _).bind fun _ _ =>
      (Ensures.any _).bind fun _ _ => .pure rfl
  | missing | number | boolean | string | quoted | primitive | var | cond | lambda | app | letin
  | letrec | program => exact (Ensures.any _).bind fun _ _ => .pure rfl

/-- The scope after well-typed forms is extended by one frame for every definition, in order. -/
theorem scope_of_typeOfForms (forms : List Expr) :
    (typeOfForms Γ d forms).Ensures fun r => r.2 = forms.foldl scopeAfter Γ := by
  induction forms generalizing Γ with
  | nil => exact .fault _ _
  | cons e rest ih =>
    cases rest with
    | nil =>
      rw [typeOfForms_singleton]
      exact scope_of_typeOfForm e
    | cons f rest =>
      rw [typeOfForms_cons_cons]
      refine (scope_of_typeOfForm e).bind fun r hr => ?_
      rw [List.foldl_cons, ← hr]
      exact ih

end TypedScheme.Expr
