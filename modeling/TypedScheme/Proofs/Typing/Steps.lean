import TypedScheme.Proofs.Typing.Forms

/-!
# The steps of a check

A check is made of a few steps: results, faults, notes, new variables, and one step after another. What
every step does to the state is done by every check.

## What this module delivers

- `Check.Built`: the checks that are made of these steps.
- `Expr.built_typeOf` and its companions: the check of every expression and of every program is.
- `Check.Built.notes_runFrom`: a check that is not traced notes nothing, whether it fails or not.
- `Check.Built.run_congr`: results, errors and the numbers given out do not depend on tracing.
-/

set_option autoImplicit false

namespace TypedScheme

namespace Check

/-- A check that is made of results, faults, notes and new variables, one after another. -/
inductive Built : {α : Type} → Check α → Prop
  | pure {α : Type} (a : α) : Built (Pure.pure a)
  | fault {α : Type} (f : TypeFault) (span : Span) : Built (Check.fault f span : Check α)
  | note (depth : Nat) (e : Expr) : Built (Check.note depth e)
  | numbered {α : Type} (make : Nat → α × Nat) : Built (Check.numbered make)
  | bind {α β : Type} {c : Check α} {f : α → Check β} :
      Built c → (∀ a, Built (f a)) → Built (c >>= f)

namespace Built

theorem require (expected found : Ty) (inside : Expr) :
    Built (Check.require expected found inside) := by
  unfold Check.require
  split
  · exact .pure ()
  · exact .fault _ _

theorem lookup (Γ : Scope) (name : String) (span : Span) : Built (Check.lookup Γ name span) := by
  unfold Check.lookup
  cases Γ.lookup name with
  | some t => exact .pure t
  | none => exact .fault _ _

/-- Whether a check is traced does not change while it runs. -/
theorem tracing_run {α : Type} {c : Check α} (h : Built c) (σ : CheckState) :
    (c.run σ).2.tracing = σ.tracing := by
  induction h generalizing σ with
  | pure a => rfl
  | fault f span => rfl
  | numbered make => rfl
  | note depth e =>
    obtain ⟨notes, hrun⟩ := run_note depth e σ
    rw [hrun]
  | @bind α β c f _ _ ihc ihf =>
    have htracing := ihc σ
    rcases hrun : c.run σ with ⟨_ | a, σ'⟩
    · rw [hrun] at htracing
      rw [run_bind_error hrun]
      exact htracing
    · rw [hrun] at htracing
      rw [run_bind_ok hrun]
      exact (ihf a σ').trans htracing

/-- A check that is not traced leaves the notes as they are. -/
theorem notes_run {α : Type} {c : Check α} (h : Built c) {σ : CheckState} (hσ : σ.tracing = false) :
    (c.run σ).2.notes = σ.notes := by
  induction h generalizing σ with
  | pure a => rfl
  | fault f span => rfl
  | numbered make => rfl
  | note depth e =>
    obtain ⟨last, tracing, notes⟩ := σ
    obtain rfl : tracing = false := hσ
    rfl
  | @bind α β c f hc _ ihc ihf =>
    have htracing := (hc.tracing_run σ).trans hσ
    have hnotes := ihc hσ
    rcases hrun : c.run σ with ⟨_ | a, σ'⟩
    · rw [hrun] at hnotes
      rw [run_bind_error hrun]
      exact hnotes
    · rw [hrun] at htracing hnotes
      rw [run_bind_ok hrun]
      -- The second part starts untraced, with the notes that the first part left as they were.
      exact (ihf a htracing).trans hnotes

/-- A check that is not traced makes no notes. -/
theorem notes_runFrom {α : Type} {c : Check α} (h : Built c) (last : Nat) :
    (c.runFrom last false).notes = [] :=
  h.notes_run rfl

/-- From states with the same last number, traced or not and after any notes, a check has the same
result or error and gives out the same numbers. -/
theorem run_congr {α : Type} {c : Check α} (h : Built c) (σ₁ σ₂ : CheckState)
    (hlast : σ₁.last = σ₂.last) :
    (c.run σ₁).1 = (c.run σ₂).1 ∧ (c.run σ₁).2.last = (c.run σ₂).2.last := by
  induction h generalizing σ₁ σ₂ with
  | pure a => exact ⟨rfl, hlast⟩
  | fault f span => exact ⟨rfl, hlast⟩
  | numbered make =>
    rw [run_numbered, run_numbered, hlast]
    exact ⟨rfl, rfl⟩
  | note depth e =>
    -- The states may differ in whether they take the note, and in nothing else.
    obtain ⟨notes₁, h₁⟩ := run_note depth e σ₁
    obtain ⟨notes₂, h₂⟩ := run_note depth e σ₂
    rw [h₁, h₂]
    exact ⟨rfl, hlast⟩
  | @bind α β c f _ _ ihc ihf =>
    -- The first part ends alike from both states, so the second starts from states that agree again.
    obtain ⟨hresult, hlast'⟩ := ihc σ₁ σ₂ hlast
    rcases h₁ : c.run σ₁ with ⟨r₁, σ₁'⟩
    rcases h₂ : c.run σ₂ with ⟨r₂, σ₂'⟩
    rw [h₁, h₂] at hresult hlast'
    obtain rfl : r₁ = r₂ := hresult
    cases r₁ with
    | error e =>
      rw [run_bind_error h₁, run_bind_error h₂]
      exact ⟨rfl, hlast'⟩
    | ok a =>
      rw [run_bind_ok h₁, run_bind_ok h₂]
      exact ihf a σ₁' σ₂' hlast'

end Built

end Check

namespace Expr

open Check

theorem built_recursiveBinding (b : Decl × Expr) : Built (recursiveBinding b) := by
  obtain ⟨decl, value⟩ := b
  cases value with
  | lambda span params result body =>
    simp only [recursiveBinding]
    cases decl.ty? with
    | none => exact .pure _
    | some declared => exact .bind (.require _ _ _) fun _ => .pure _
  | missing | number | boolean | string | quoted | primitive | var | cond | app | letin | letrec
  | define | program => exact .fault _ _

/-- The declarations of recursive bindings are checked in steps. -/
theorem built_recursiveBindings (bs : List (Decl × Expr)) : Built (recursiveBindings bs) := by
  induction bs with
  | nil => exact .pure []
  | cons b bs ih => exact .bind (built_recursiveBinding b) fun _ => .bind ih fun _ => .pure _

mutual

/-- The checker is built from steps, and so is every check inside of it. -/
theorem built_typeOf (Γ : Scope) (d : Nat) (e : Expr) : Built (typeOf Γ d e) := by
  rw [typeOf.eq_def]
  refine .bind (.note d e) fun _ => ?_
  cases e with
  | missing => exact .fault _ _
  | number | boolean | string => exact .pure _
  | quoted mark v span =>
    dsimp only
    cases v.typeOf true with
    | ok t => exact .pure t
    | error f => exact .fault f span
  | primitive token =>
    dsimp only
    cases Primitive.signature? token.text with
    | some signature => exact .numbered _
    | none => exact .fault _ _
  | var token => exact .lookup _ _ _
  | cond span test consequent alternative =>
    refine .bind (built_typeOf Γ _ test) fun _ => .bind (.require _ _ _) fun _ => ?_
    refine .bind (built_typeOf Γ _ consequent) fun _ => ?_
    refine .bind (built_typeOf Γ _ alternative) fun _ => ?_
    exact .bind (.require _ _ _) fun _ => .pure _
  | lambda span params result body =>
    refine .bind (built_typeOfBody _ _ _ body) fun _ => ?_
    exact .bind (.require _ _ _) fun _ => .pure _
  | app span operator operands =>
    refine .bind (built_typeOf Γ _ operator) fun t => ?_
    cases t with
    | absent | base | var | pair => exact .fault _ _
    | proc params result =>
      dsimp only
      split
      · refine .bind (.numbered _) fun fresh => ?_
        exact .bind (built_matchOperands Γ _ [] _ operands) fun _ => .pure _
      · exact .fault _ _
  | letin span bindings body =>
    exact .bind (built_typeOfBindings Γ _ bindings) fun _ => built_typeOfBody _ _ _ body
  | letrec span bindings body =>
    refine .bind (built_recursiveBindings bindings) fun _ => ?_
    exact .bind (built_checkProcedures _ _ bindings) fun _ => built_typeOfBody _ _ _ body
  | define span decl value => exact .fault _ _
  | program forms => exact .bind (built_typeOfForms Γ _ forms) fun _ => .pure _

theorem built_typeOfBody (Γ : Scope) (d : Nat) (owner : Expr) (es : List Expr) :
    Built (typeOfBody Γ d owner es) := by
  match es with
  | [] => exact .fault _ _
  | [e] => exact built_typeOf Γ d e
  | e :: f :: es => exact .bind (built_typeOf Γ d e) fun _ => built_typeOfBody Γ d owner (f :: es)

/-- Operands are matched in steps. -/
theorem built_matchOperands (Γ : Scope) (d : Nat) (s : Substitution) (params : List Ty)
    (es : List Expr) : Built (matchOperands Γ d s params es) := by
  match params, es with
  | [], [] | [], _ :: _ | _ :: _, [] => exact .pure s
  | p :: params, e :: es =>
    refine .bind (built_typeOf Γ d e) fun t => ?_
    rcases s.unify p t with ⟨ok, s'⟩
    cases ok with
    | true => exact built_matchOperands Γ d s' params es
    | false => exact .fault _ _

theorem built_typeOfBindings (Γ : Scope) (d : Nat) (bs : List (Decl × Expr)) :
    Built (typeOfBindings Γ d bs) := by
  match bs with
  | [] => exact .pure []
  | (decl, value) :: rest =>
    refine .bind (built_typeOf Γ d value) fun _ => .bind (.require _ _ _) fun _ => ?_
    exact .bind (built_typeOfBindings Γ d rest) fun _ => .pure _

theorem built_checkProcedures (Γ : Scope) (d : Nat) (bs : List (Decl × Expr)) :
    Built (checkProcedures Γ d bs) := by
  match bs with
  | [] => exact .pure ()
  | (decl, value) :: rest =>
    have ih := built_checkProcedures Γ d rest
    cases value with
    | lambda span params result body =>
      refine .bind (built_typeOfBody _ _ _ body) fun _ => ?_
      exact .bind (.require _ _ _) fun _ => ih
    | missing | number | boolean | string | quoted | primitive | var | cond | app | letin | letrec
    | define | program => exact ih

/-- Forms are checked in steps. -/
theorem built_typeOfForms (Γ : Scope) (d : Nat) (forms : List Expr) :
    Built (typeOfForms Γ d forms) := by
  match forms with
  | [] => exact .fault _ _
  | e :: rest =>
    have hform : Built (typeOfForm Γ d e) := by
      cases e with
      | define span decl value =>
        refine .bind (.note _ _) fun _ => .bind (built_typeOf Γ _ value) fun _ => ?_
        exact .bind (.require _ _ _) fun _ => .pure _
      | missing | number | boolean | string | quoted | primitive | var | cond | lambda | app
      | letin | letrec | program => exact .bind (built_typeOf Γ d _) fun _ => .pure _
    match rest with
    | [] =>
      rw [typeOfForms_singleton]
      exact hform
    | f :: rest =>
      rw [typeOfForms_cons_cons]
      exact .bind hform fun r => built_typeOfForms r.2 d (f :: rest)

end

end Expr

/-- The check of a program is built from steps. -/
theorem Program.built_check (Γ : Scope) (p : Program) : Check.Built (p.check Γ) :=
  Expr.built_typeOfForms Γ 0 p.forms

end TypedScheme
