import Mathlib.Data.Set.Function
import TypedScheme.Proofs.Expr.Annotations
import TypedScheme.Proofs.Scope
import TypedScheme.Proofs.Typing.Constants
import TypedScheme.Proofs.Typing.Forms

/-!
# Typing up to the names of type variables

Two checks run side by side: one of an expression in a scope after the numbers up to `k₁`, one of the
renamed expression in the renamed scope after the numbers up to `k₂`. The renaming `ρ` is injective on
a set `D` that holds all variables in play and takes the numbers after `k₁` to the numbers after `k₂`.
Then the two checks stay in step: they give out the same number of new variables, and they have types
that are equal up to `ρ` or errors of one kind at one place.

## What this module delivers

- `Check.InStep`, `Check.SameFault`: the relations of states and of errors of two such runs.
- `Expr.renamed_typeOf` and its companions for bodies, operands, bindings and forms: the comparison,
  one rule of typing at a time.
- `Expr.typeOf_rename`: the comparison of two whole checks for any injective renaming of the
  variables of an expression and its scope.
-/

set_option autoImplicit false

namespace TypedScheme

namespace Check

/-! ## Runs in step -/

/-- The two runs have given out the same number of new variables, after `k₁` and after `k₂`. -/
def InStep (k₁ k₂ : Nat) (σ₁ σ₂ : CheckState) : Prop :=
  ∃ m, σ₁.last = k₁ + m ∧ σ₂.last = k₂ + m

/-- The two errors are of one kind and at one place. -/
def SameFault (e₁ e₂ : TypeError) : Prop := e₁.kind = e₂.kind ∧ e₁.span = e₂.span

/-- Two checks stay in step, with results related by `R` or with the same fault. -/
abbrev Parallel {α β : Type} (k₁ k₂ : Nat) (R : α → β → Prop) (c₁ : Check α) (c₂ : Check β) : Prop :=
  Related (InStep k₁ k₂) SameFault R c₁ c₂

variable {k₁ k₂ : Nat}

/-- Two checks in step give out the same number of new variables in whole runs. -/
theorem Parallel.runFrom {α β : Type} {R : α → β → Prop} {c₁ : Check α} {c₂ : Check β}
    (h : Parallel k₁ k₂ R c₁ c₂) (tracing₁ tracing₂ : Bool) :
    ∃ m, (c₁.runFrom k₁ tracing₁).last = k₁ + m ∧ (c₂.runFrom k₂ tracing₂).last = k₂ + m ∧
      Alike SameFault R (c₁.runFrom k₁ tracing₁).result (c₂.runFrom k₂ tracing₂).result := by
  obtain ⟨⟨m, h₁, h₂⟩, halike⟩ := h ⟨k₁, tracing₁, []⟩ ⟨k₂, tracing₂, []⟩ ⟨0, rfl, rfl⟩
  exact ⟨m, h₁, h₂, halike⟩

/-- What is made with new variables is related, if it is whatever the number of variables given out
before. -/
theorem parallel_numbered {α β : Type} {R : α → β → Prop} {make₁ : Nat → α × Nat}
    {make₂ : Nat → β × Nat} (hR : ∀ m, R (make₁ (k₁ + m)).1 (make₂ (k₂ + m)).1)
    (hlast : ∀ m, ∃ j, (make₁ (k₁ + m)).2 = k₁ + m + j ∧ (make₂ (k₂ + m)).2 = k₂ + m + j) :
    Parallel k₁ k₂ R (numbered make₁) (numbered make₂) := by
  rintro σ₁ σ₂ ⟨m, h₁, h₂⟩
  obtain ⟨j, hj₁, hj₂⟩ := hlast m
  rw [run_numbered, run_numbered, h₁, h₂]
  exact ⟨⟨m + j, by rw [hj₁, Nat.add_assoc], by rw [hj₂, Nat.add_assoc]⟩, .ok (hR m)⟩

end Check

/-! ## One rule of typing at a time -/

open Check

variable {ρ : Nat → Nat} {D : Set Nat} {k₁ k₂ : Nat}

/-- What two runs side by side need of a renaming: it keeps the variables in `D` apart and takes the
numbers after `k₁`, which are in `D`, to the numbers after `k₂`. -/
structure Coupled (ρ : Nat → Nat) (D : Set Nat) (k₁ k₂ : Nat) : Prop where
  injOn : Set.InjOn ρ D
  aligned : Ty.Aligned ρ D k₁ k₂

/-- The numbers that both runs give out after `m` variables are aligned as those before. -/
theorem Coupled.aligned_add (hc : Coupled ρ D k₁ k₂) (m : Nat) :
    Ty.Aligned ρ D (k₁ + m) (k₂ + m) := by
  intro j
  have hnext := hc.aligned (m + j)
  rwa [show k₁ + m + 1 + j = k₁ + 1 + (m + j) by omega,
    show k₂ + m + 1 + j = k₂ + 1 + (m + j) by omega]

/-- The second type is the first one renamed. -/
def Ty.Renamed (ρ : Nat → Nat) (D : Set Nat) (t₁ t₂ : Ty) : Prop := t₁.Over D ∧ t₂ = t₁.rename ρ

/-- The second bindings are the first ones renamed. -/
def Frame.Renamed (ρ : Nat → Nat) (D : Set Nat) (b₁ b₂ : List (String × Ty)) : Prop :=
  (∀ p ∈ b₁, p.2.Over D) ∧ b₂ = Frame.rename ρ b₁

/-- The second scope is the first one renamed. -/
def Scope.Renamed (ρ : Nat → Nat) (D : Set Nat) (Γ₁ Γ₂ : Scope) : Prop :=
  Γ₁.Shows (Ty.Over D) ∧ Γ₂ = Γ₁.rename ρ

/-- The second substitution is the first one renamed. -/
def Substitution.Renamed (ρ : Nat → Nat) (D : Set Nat) (s₁ s₂ : Substitution) : Prop :=
  s₁.Triangular ∧ s₁.Over D ∧ s₂ = s₁.rename ρ

/-- Scopes that are renamed stay so under bindings that are renamed. -/
theorem Scope.Renamed.extend {Γ₁ Γ₂ : Scope} {b₁ b₂ : List (String × Ty)}
    (hΓ : Scope.Renamed ρ D Γ₁ Γ₂) (hb : Frame.Renamed ρ D b₁ b₂) :
    Scope.Renamed ρ D (Γ₁.extend b₁) (Γ₂.extend b₂) := by
  obtain ⟨hshows, rfl⟩ := hΓ
  obtain ⟨hover, rfl⟩ := hb
  exact ⟨hshows.extend hover, (Scope.rename_extend b₁).symm⟩

theorem Param.renamed_bindings {params : List Param} (h : ∀ p ∈ params, p.ty.Over D) :
    Frame.Renamed ρ D (Param.bindings params) (Param.bindings (params.map (Param.rename ρ))) := by
  refine ⟨?_, ?_⟩
  · intro p hp
    obtain ⟨q, hq, rfl⟩ := List.mem_map.1 hp
    exact h q hq
  · rw [Param.bindings, Param.bindings, Frame.rename, List.map_map, List.map_map]
    rfl

namespace Check

/-- A name is found in both scopes or in none, and the second type is the first renamed. -/
theorem parallel_lookup {Γ₁ Γ₂ : Scope} (hΓ : Scope.Renamed ρ D Γ₁ Γ₂) (name : String)
    (span : Span) :
    Parallel k₁ k₂ (Ty.Renamed ρ D) (lookup Γ₁ name span) (lookup Γ₂ name span) := by
  obtain ⟨hshows, rfl⟩ := hΓ
  unfold lookup
  rw [Scope.lookup_rename]
  cases h : Γ₁.lookup name with
  | none => exact .fault ⟨rfl, rfl⟩
  | some t => exact .pure ⟨hshows name t h, rfl⟩

/-- New copies of a signature are renamings of each other. -/
theorem parallel_instantiate (hc : Coupled ρ D k₁ k₂) {name : String} {signature : Ty}
    (h : Primitive.signature? name = some signature) :
    Parallel k₁ k₂ (Ty.Renamed ρ D) (numbered fun last => Primitive.instantiate last signature)
      (numbered fun last => Primitive.instantiate last signature) := by
  refine parallel_numbered (fun m => ?_) fun m => ⟨signature.distinctVars.length, rfl, rfl⟩
  obtain ⟨hover, heq⟩ := Primitive.instantiate_rename (hc.aligned_add m) h
  exact ⟨hover, heq.symm⟩

/-- Types agree exactly if their renamings do. -/
theorem parallel_require (hc : Coupled ρ D k₁ k₂) {a₁ a₂ b₁ b₂ : Ty} {e₁ e₂ : Expr}
    (ha : Ty.Renamed ρ D a₁ a₂) (hb : Ty.Renamed ρ D b₁ b₂) (hspan : e₁.span = e₂.span) :
    Parallel k₁ k₂ (fun _ _ => True) (require a₁ b₁ e₁) (require a₂ b₂ e₂) := by
  obtain ⟨ha, rfl⟩ := ha
  obtain ⟨hb, rfl⟩ := hb
  exact .require (Substitution.agrees_rename hc.injOn ha hb).symm ⟨rfl, hspan⟩

/-- New variables for a type and for its renaming are given out in step. -/
theorem parallel_freshVars (hc : Coupled ρ D k₁ k₂) {t : Ty} (ht : t.Over D) :
    Parallel k₁ k₂
      (fun f₁ f₂ => ∀ x ∈ t.vars, (f₁ x).Over D ∧ (f₁ x).rename ρ = f₂ (ρ x))
      (numbered fun last => t.freshVars last) (numbered fun last => (t.rename ρ).freshVars last) := by
  refine parallel_numbered
    (fun m x hx => Ty.freshVars_rename hc.injOn (hc.aligned_add m) ht hx) fun m => ?_
  refine ⟨t.distinctVars.length, rfl, ?_⟩
  rw [Ty.freshVars, Ty.distinctVars_rename hc.injOn ht, List.length_map]

end Check

namespace Expr

theorem renamed_procType {params : List Param} {result : Ty} (hparams : ∀ p ∈ params, p.ty.Over D)
    (hresult : result.Over D) :
    Ty.Renamed ρ D (procType params result)
      (procType (params.map (Param.rename ρ)) (result.rename ρ)) := by
  refine ⟨Ty.over_proc.2 ⟨fun p hp => ?_, hresult⟩, procType_rename params result⟩
  obtain ⟨q, hq, rfl⟩ := List.mem_map.1 hp
  exact hparams q hq

theorem renamed_recursiveBinding (hc : Coupled ρ D k₁ k₂) {decl : Decl} {value : Expr}
    (hdecl : ∀ t, decl.ty? = some t → t.Over D) (hvalue : value.Carries (Ty.Over D)) :
    Parallel k₁ k₂ (fun b₁ b₂ => b₁.2.Over D ∧ b₂ = (b₁.1, b₁.2.rename ρ))
      (recursiveBinding (decl, value)) (recursiveBinding (decl.rename ρ, value.rename ρ)) := by
  cases value with
  | lambda s params result body =>
    obtain ⟨hparams, hresult, -⟩ := carries_lambda.1 hvalue
    obtain ⟨hproc, heq⟩ := renamed_procType (ρ := ρ) hparams hresult
    cases hd : decl.ty? with
    | none =>
      simp only [recursiveBinding, rename, Decl.rename, hd]
      exact .pure ⟨hproc, by rw [heq]; rfl⟩
    | some t =>
      simp only [recursiveBinding, rename, Decl.rename, hd, Option.map_some]
      refine .bind (parallel_require hc ⟨hdecl t hd, rfl⟩ ⟨hproc, heq⟩ rfl) fun _ _ _ => ?_
      exact .pure ⟨hproc, by rw [heq]; rfl⟩
  | missing | number | boolean | string | quoted | primitive | var | cond | app | letin | letrec
  | define | program => exact .fault ⟨rfl, (span_rename (ρ := ρ) _).symm⟩

/-- Recursive bindings declare types that are renamed with them. -/
theorem renamed_recursiveBindings (hc : Coupled ρ D k₁ k₂) {bs : List (Decl × Expr)}
    (hbs : CarriesBound (Ty.Over D) bs) :
    Parallel k₁ k₂ (Frame.Renamed ρ D) (recursiveBindings bs)
      (recursiveBindings (renameBound ρ bs)) := by
  induction bs with
  | nil => exact .pure ⟨by simp, rfl⟩
  | cons b bs ih =>
    obtain ⟨decl, value⟩ := b
    obtain ⟨hdecl, hvalue, hbs⟩ := carriesBound_cons.1 hbs
    refine .bind (renamed_recursiveBinding hc hdecl hvalue) fun b₁ b₂ hb => ?_
    refine .bind (ih hbs) fun rest₁ rest₂ hrest => ?_
    obtain ⟨hb, rfl⟩ := hb
    obtain ⟨hrest, rfl⟩ := hrest
    exact .pure ⟨List.forall_mem_cons.2 ⟨hb, hrest⟩, rfl⟩

/-- A copy of a renamed procedure type with new variables is the renamed copy, and so is what the
match of its parameters with the operands makes of its result. -/
theorem renamed_application (hc : Coupled ρ D k₁ k₂) {params : List Ty} {result : Ty}
    (ht : (Ty.proc params result).Over D) {Γ₁ Γ₂ : Scope} {d₁ d₂ : Nat} {operands : List Expr}
    (hmatch : ∀ ps, (∀ p ∈ ps, p.Over D) →
      Parallel k₁ k₂ (Substitution.Renamed ρ D) (matchOperands Γ₁ d₁ [] ps operands)
        (matchOperands Γ₂ d₂ [] (ps.map (Ty.rename ρ)) (renameAll ρ operands))) :
    Parallel k₁ k₂ (Ty.Renamed ρ D)
      (do
        let fresh ← numbered fun last => (Ty.proc params result).freshVars last
        let s ← matchOperands Γ₁ d₁ [] (Ty.bindAll fresh params) operands
        pure (s.apply (result.bind fresh)))
      (do
        let fresh ← numbered fun last =>
          (Ty.proc (params.map (Ty.rename ρ)) (result.rename ρ)).freshVars last
        let s ← matchOperands Γ₂ d₂ [] (Ty.bindAll fresh (params.map (Ty.rename ρ)))
          (renameAll ρ operands)
        pure (s.apply ((result.rename ρ).bind fresh))) := by
  rw [← Ty.rename_proc]
  refine .bind (parallel_freshVars hc ht) fun f₁ f₂ hf => ?_
  -- The parameters and the result share the variables of the copy.
  have hfparams : ∀ p ∈ params, ∀ x ∈ p.vars, (f₁ x).Over D ∧ (f₁ x).rename ρ = f₂ (ρ x) :=
    fun p hp x hx => hf x (Ty.mem_vars_proc.2 (.inl ⟨p, hp, hx⟩))
  have hfresult : ∀ x ∈ result.vars, (f₁ x).Over D ∧ (f₁ x).rename ρ = f₂ (ρ x) :=
    fun x hx => hf x (Ty.mem_vars_proc.2 (.inr hx))
  have hover : ∀ q ∈ Ty.bindAll f₁ params, q.Over D := by
    intro q hq
    rw [Ty.bindAll_eq_map] at hq
    obtain ⟨p, hp, rfl⟩ := List.mem_map.1 hq
    exact Ty.over_bind fun x hx => (hfparams p hp x hx).1
  rw [Ty.bindAll_rename fun p hp x hx => (hfparams p hp x hx).2]
  refine .bind (hmatch _ hover) fun s₁ s₂ hs => ?_
  obtain ⟨-, hs, rfl⟩ := hs
  have hcopy : (result.bind f₁).Over D := Ty.over_bind fun x hx => (hfresult x hx).1
  refine .pure ⟨hs.apply hcopy, ?_⟩
  rw [← Ty.rename_bind fun x hx => (hfresult x hx).2,
    Substitution.apply_rename hc.injOn hs hcopy]

/-- The results of two forms side by side: the second type and the second scope are the first ones
renamed. -/
def FormRenamed (ρ : Nat → Nat) (D : Set Nat) (r₁ r₂ : Ty × Scope) : Prop :=
  Ty.Renamed ρ D r₁.1 r₂.1 ∧ Scope.Renamed ρ D r₁.2 r₂.2

theorem renamed_define (hc : Coupled ρ D k₁ k₂) {Γ₁ Γ₂ : Scope} (hΓ : Scope.Renamed ρ D Γ₁ Γ₂)
    {d₁ d₂ : Nat} {span : Span} {decl : Decl} {value : Expr}
    (hdecl : ∀ t, decl.ty? = some t → t.Over D)
    (hvalue : Parallel k₁ k₂ (Ty.Renamed ρ D) (typeOf Γ₁ (d₁ + 1) value)
      (typeOf Γ₂ (d₂ + 1) (value.rename ρ))) :
    Parallel k₁ k₂ (FormRenamed ρ D) (typeOfForm Γ₁ d₁ (define span decl value))
      (typeOfForm Γ₂ d₂ (define span (decl.rename ρ) (value.rename ρ))) := by
  have hbound : decl.boundType.Over D := boundType_of_forall hdecl Ty.over_absent
  refine .after_note (fun _ _ _ _ hσ => hσ) ?_
  refine .bind hvalue fun t₁ t₂ ht => ?_
  refine .bind (parallel_require hc ⟨hbound, decl.boundType_rename ρ⟩ ht (span_rename value).symm)
    fun _ _ _ => ?_
  refine .pure ⟨⟨Ty.over_base _, rfl⟩, hΓ.extend ⟨by simpa using hbound, ?_⟩⟩
  rw [Decl.boundType_rename]
  rfl

mutual

/-- The type of a renamed expression is the renamed type. -/
theorem renamed_typeOf (hc : Coupled ρ D k₁ k₂) {Γ₁ Γ₂ : Scope}
    (hΓ : Scope.Renamed ρ D Γ₁ Γ₂) (d₁ d₂ : Nat) (e : Expr)
    (he : e.Carries (Ty.Over D)) :
    Parallel k₁ k₂ (Ty.Renamed ρ D) (typeOf Γ₁ d₁ e) (typeOf Γ₂ d₂ (e.rename ρ)) := by
  rw [typeOf.eq_def, typeOf.eq_def Γ₂]
  refine .after_note (fun _ _ _ _ hσ => hσ) ?_
  cases e with
  | missing => exact .fault ⟨rfl, rfl⟩
  | number t v => exact .pure ⟨Ty.over_base _, rfl⟩
  | boolean t v => exact .pure ⟨Ty.over_base _, rfl⟩
  | string t v => exact .pure ⟨Ty.over_base _, rfl⟩
  | quoted t v span =>
    simp only [rename]
    cases h : v.typeOf true with
    | error f => exact .fault ⟨rfl, rfl⟩
    | ok u =>
      -- The type of a quoted value has no variables that a renaming could change.
      have hvars : u.vars = [] := (Value.isGround_of_typeOf h).vars_eq_nil
      exact .pure ⟨Ty.over_of_vars_eq_nil hvars, (Ty.rename_of_vars_eq_nil hvars).symm⟩
  | primitive t =>
    simp only [rename]
    cases h : Primitive.signature? t.text with
    | none => exact .fault ⟨rfl, rfl⟩
    | some signature => exact parallel_instantiate hc h
  | var t => exact parallel_lookup hΓ t.text t.span
  | cond s test consequent alternative =>
    obtain ⟨htest, hconsequent, halternative⟩ := carries_cond.1 he
    refine .bind (renamed_typeOf hc hΓ _ _ test htest) fun t₁ t₂ ht => ?_
    refine .bind (parallel_require hc ⟨Ty.over_base _, rfl⟩ ht (span_rename test).symm) fun _ _ _ => ?_
    refine .bind (renamed_typeOf hc hΓ _ _ consequent hconsequent) fun u₁ u₂ hu => ?_
    refine .bind (renamed_typeOf hc hΓ _ _ alternative halternative) fun v₁ v₂ hv => ?_
    refine .bind (parallel_require hc hu hv (span_rename alternative).symm) fun _ _ _ => ?_
    exact .pure hu
  | lambda s params result body =>
    obtain ⟨hparams, hresult, hbody⟩ := carries_lambda.1 he
    refine .bind (renamed_typeOfBody hc (hΓ.extend (Param.renamed_bindings hparams)) _ _ _ body
      hbody) fun t₁ t₂ ht => ?_
    refine .bind (parallel_require hc ⟨hresult, rfl⟩ ht rfl) fun _ _ _ => ?_
    exact .pure (renamed_procType hparams hresult)
  | app span operator operands =>
    obtain ⟨hoperator, hoperands⟩ := carries_app.1 he
    refine .bind (renamed_typeOf hc hΓ _ _ operator hoperator) fun t₁ t₂ ht => ?_
    obtain ⟨ht, rfl⟩ := ht
    cases t₁ with
    | absent | base | var | pair => exact .fault ⟨rfl, (span_rename operator).symm⟩
    | proc params result =>
      -- A renaming keeps the number of parameters, so both checks take the same branch.
      rw [Ty.rename_proc]
      simp only [List.length_map, length_renameAll]
      by_cases hlen : params.length = operands.length
      · rw [if_pos hlen, if_pos hlen]
        exact renamed_application hc ht fun ps hps =>
          renamed_matchOperands hc hΓ _ _ ⟨.nil, Substitution.over_nil, rfl⟩ ps hps operands hoperands
      · rw [if_neg hlen, if_neg hlen]
        exact .fault ⟨rfl, rfl⟩
  | letin s bindings body =>
    obtain ⟨hbindings, hbody⟩ := carries_letin.1 he
    refine .bind (renamed_typeOfBindings hc hΓ _ _ bindings hbindings) fun b₁ b₂ hb => ?_
    exact renamed_typeOfBody hc (hΓ.extend hb) _ _ _ body hbody
  | letrec s bindings body =>
    obtain ⟨hbindings, hbody⟩ := carries_letrec.1 he
    refine .bind (renamed_recursiveBindings hc hbindings) fun b₁ b₂ hb => ?_
    refine .bind (renamed_checkProcedures hc (hΓ.extend hb) _ _ bindings hbindings) fun _ _ _ => ?_
    exact renamed_typeOfBody hc (hΓ.extend hb) _ _ _ body hbody
  | define span decl value => exact .fault ⟨rfl, rfl⟩
  | program forms =>
    refine .bind (renamed_typeOfForms hc hΓ _ _ forms he) fun r₁ r₂ hr => ?_
    exact .pure hr.1

/-- The check of a renamed body is the check of the body, renamed. -/
theorem renamed_typeOfBody (hc : Coupled ρ D k₁ k₂) {Γ₁ Γ₂ : Scope}
    (hΓ : Scope.Renamed ρ D Γ₁ Γ₂) (d₁ d₂ : Nat)
    (owner : Expr) (es : List Expr) (hes : CarriesAll (Ty.Over D) es) :
    Parallel k₁ k₂ (Ty.Renamed ρ D) (typeOfBody Γ₁ d₁ owner es)
      (typeOfBody Γ₂ d₂ (owner.rename ρ) (renameAll ρ es)) := by
  match es with
  | [] => exact .fault ⟨rfl, (span_rename owner).symm⟩
  | [e] => exact renamed_typeOf hc hΓ _ _ e (carriesAll_cons.1 hes).1
  | e :: f :: es =>
    obtain ⟨he, hes⟩ := carriesAll_cons.1 hes
    refine .bind (renamed_typeOf hc hΓ _ _ e he) fun _ _ _ => ?_
    exact renamed_typeOfBody hc hΓ _ _ owner (f :: es) hes

/-- Operands are matched after renamed bindings to renamed bindings. -/
theorem renamed_matchOperands (hc : Coupled ρ D k₁ k₂) {Γ₁ Γ₂ : Scope}
    (hΓ : Scope.Renamed ρ D Γ₁ Γ₂) (d₁ d₂ : Nat)
    {s₁ s₂ : Substitution} (hs : Substitution.Renamed ρ D s₁ s₂) (params : List Ty)
    (hparams : ∀ p ∈ params, p.Over D) (es : List Expr) (hes : CarriesAll (Ty.Over D) es) :
    Parallel k₁ k₂ (Substitution.Renamed ρ D) (matchOperands Γ₁ d₁ s₁ params es)
      (matchOperands Γ₂ d₂ s₂ (params.map (Ty.rename ρ)) (renameAll ρ es)) := by
  match params, es with
  | [], [] => exact .pure hs
  | [], e :: es => exact .pure hs
  | p :: params, [] => exact .pure hs
  | p :: params, e :: es =>
    obtain ⟨he, hes⟩ := carriesAll_cons.1 hes
    obtain ⟨hp, hparams⟩ := List.forall_mem_cons.1 hparams
    refine .bind (renamed_typeOf hc hΓ _ _ e he) fun t₁ t₂ ht => ?_
    obtain ⟨htri, hover, rfl⟩ := hs
    obtain ⟨ht, rfl⟩ := ht
    have htri' : (s₁.unify p t₁).2.Triangular := (Substitution.solved_unify htri).triangular
    have hover' : (s₁.unify p t₁).2.Over D := hover.unify htri hp ht
    -- The same match is made in both runs, so both go on or both stop here.
    rw [Substitution.unify_rename hc.injOn htri hover hp ht]
    generalize s₁.unify p t₁ = r at htri' hover'
    obtain ⟨ok, s'⟩ := r
    cases ok with
    | true => exact renamed_matchOperands hc hΓ _ _ ⟨htri', hover', rfl⟩ params hparams es hes
    | false => exact .fault ⟨rfl, (span_rename e).symm⟩

theorem renamed_typeOfBindings (hc : Coupled ρ D k₁ k₂) {Γ₁ Γ₂ : Scope}
    (hΓ : Scope.Renamed ρ D Γ₁ Γ₂) (d₁ d₂ : Nat)
    (bs : List (Decl × Expr)) (hbs : CarriesBound (Ty.Over D) bs) :
    Parallel k₁ k₂ (Frame.Renamed ρ D) (typeOfBindings Γ₁ d₁ bs)
      (typeOfBindings Γ₂ d₂ (renameBound ρ bs)) := by
  match bs with
  | [] => exact .pure ⟨by simp, rfl⟩
  | (decl, value) :: rest =>
    obtain ⟨hdecl, hvalue, hrest⟩ := carriesBound_cons.1 hbs
    have hbound : decl.boundType.Over D := boundType_of_forall hdecl Ty.over_absent
    refine .bind (renamed_typeOf hc hΓ _ _ value hvalue) fun t₁ t₂ ht => ?_
    refine .bind (parallel_require hc ⟨hbound, decl.boundType_rename ρ⟩ ht (span_rename value).symm)
      fun _ _ _ => ?_
    refine .bind (renamed_typeOfBindings hc hΓ _ _ rest hrest) fun b₁ b₂ hb => ?_
    obtain ⟨hb, rfl⟩ := hb
    refine .pure ⟨List.forall_mem_cons.2 ⟨hbound, hb⟩, ?_⟩
    rw [Decl.boundType_rename]
    rfl

theorem renamed_checkProcedures (hc : Coupled ρ D k₁ k₂) {Γ₁ Γ₂ : Scope}
    (hΓ : Scope.Renamed ρ D Γ₁ Γ₂) (d₁ d₂ : Nat)
    (bs : List (Decl × Expr)) (hbs : CarriesBound (Ty.Over D) bs) :
    Parallel k₁ k₂ (fun _ _ => True) (checkProcedures Γ₁ d₁ bs)
      (checkProcedures Γ₂ d₂ (renameBound ρ bs)) := by
  match bs with
  | [] => exact .pure trivial
  | (decl, value) :: rest =>
    obtain ⟨-, hvalue, hrest⟩ := carriesBound_cons.1 hbs
    have ih := renamed_checkProcedures hc hΓ d₁ d₂ rest hrest
    cases value with
    | lambda s params result body =>
      obtain ⟨hparams, hresult, hbody⟩ := carries_lambda.1 hvalue
      refine .bind (renamed_typeOfBody hc (hΓ.extend (Param.renamed_bindings hparams)) _ _ _ body
        hbody) fun t₁ t₂ ht => ?_
      exact .bind (parallel_require hc ⟨hresult, rfl⟩ ht rfl) fun _ _ _ => ih
    | missing | number | boolean | string | quoted | primitive | var | cond | app | letin | letrec
    | define | program => exact ih

/-- The check of renamed forms is the check of the forms, renamed. -/
theorem renamed_typeOfForms (hc : Coupled ρ D k₁ k₂) {Γ₁ Γ₂ : Scope}
    (hΓ : Scope.Renamed ρ D Γ₁ Γ₂) (d₁ d₂ : Nat)
    (forms : List Expr) (hforms : CarriesAll (Ty.Over D) forms) :
    Parallel k₁ k₂ (FormRenamed ρ D) (typeOfForms Γ₁ d₁ forms)
      (typeOfForms Γ₂ d₂ (renameAll ρ forms)) := by
  match forms with
  | [] => exact .fault ⟨rfl, rfl⟩
  | e :: rest =>
    obtain ⟨he, hrest⟩ := carriesAll_cons.1 hforms
    have hform : Parallel k₁ k₂ (FormRenamed ρ D) (typeOfForm Γ₁ d₁ e)
        (typeOfForm Γ₂ d₂ (e.rename ρ)) := by
      cases e with
      | define span decl value =>
        obtain ⟨hdecl, hvalue⟩ := carries_define.1 he
        exact renamed_define hc hΓ hdecl (renamed_typeOf hc hΓ _ _ value hvalue)
      | missing | number | boolean | string | quoted | primitive | var | cond | lambda | app
      | letin | letrec | program =>
        exact .bind (renamed_typeOf hc hΓ _ _ _ he) fun t₁ t₂ ht => .pure ⟨ht, hΓ⟩
    match rest with
    | [] =>
      rw [renameAll, renameAll, typeOfForms_singleton, typeOfForms_singleton]
      exact hform
    | f :: rest =>
      rw [renameAll, renameAll, typeOfForms_cons_cons, typeOfForms_cons_cons]
      exact .bind hform fun r₁ r₂ hr => renamed_typeOfForms hc hr.2 _ _ (f :: rest) hrest

end

/-! ## Whole checks -/

/-- A renaming that goes on after `k₁` with the numbers after `k₂`. -/
def renameAfter (π : Nat → Nat) (k₁ k₂ x : Nat) : Nat := if x ≤ k₁ then π x else k₂ + (x - k₁)

/-- A renaming of earlier variables goes on to later ones in the order of their numbers. -/
theorem coupled_renameAfter {π : Nat → Nat} {V : Set Nat} (hπ : Set.InjOn π V)
    (h₁ : ∀ x ∈ V, x ≤ k₁) (h₂ : ∀ x ∈ V, π x ≤ k₂) :
    Coupled (renameAfter π k₁ k₂) {x | x ∈ V ∨ k₁ < x} k₁ k₂ := by
  refine ⟨?_, fun j => ⟨.inr (by omega), ?_⟩⟩
  · intro x hx y hy hxy
    unfold renameAfter at hxy
    rcases hx with hx | hx <;> rcases hy with hy | hy
    · -- Two variables from before are kept apart by `π`.
      rw [if_pos (h₁ x hx), if_pos (h₁ y hy)] at hxy
      exact hπ hx hy hxy
    · -- A variable from before is renamed to a number up to `k₂`, a new one to a number after it.
      have := h₁ x hx
      have := h₂ x hx
      rw [if_pos (by omega), if_neg (by omega)] at hxy
      omega
    · have := h₁ y hy
      have := h₂ y hy
      rw [if_neg (by omega), if_pos (by omega)] at hxy
      omega
    · -- Two new variables are moved by the same distance.
      rw [if_neg (by omega), if_neg (by omega)] at hxy
      omega
  · rw [renameAfter, if_neg (by omega)]
    omega

/-- Typing does not depend on the names of type variables or on the numbers given out before. An
expression, a definition or a program in a scope and the same with its variables renamed, after any
numbers that cover the variables of either, get the same number of new variables, and either both have
a type, the second renamed from the first, or both have an error of the same kind at the same place. -/
theorem typeOf_rename {e : Expr} {Γ : Scope} {π : Nat → Nat}
    (hπ : Set.InjOn π {x | x ∈ e.typeVars ∨ x ∈ Γ.typeVars})
    (he : ∀ x ∈ e.typeVars, x ≤ k₁) (hΓ : ∀ x ∈ Γ.typeVars, x ≤ k₁)
    (he' : ∀ x ∈ (e.rename π).typeVars, x ≤ k₂) (hΓ' : ∀ x ∈ (Γ.rename π).typeVars, x ≤ k₂)
    (d₁ d₂ : Nat) (tracing₁ tracing₂ : Bool) :
    let o₁ := (e.typeOf Γ d₁).runFrom k₁ tracing₁
    let o₂ := ((e.rename π).typeOf (Γ.rename π) d₂).runFrom k₂ tracing₂
    ∃ m, o₁.last = k₁ + m ∧ o₂.last = k₂ + m ∧
      Alike SameFault (fun t₁ t₂ => t₂ = t₁.rename (renameAfter π k₁ k₂)) o₁.result o₂.result := by
  intro o₁ o₂
  have hbelow : ∀ x ∈ {x | x ∈ e.typeVars ∨ x ∈ Γ.typeVars}, x ≤ k₁ :=
    fun x hx => hx.elim (he x) (hΓ x)
  have hbelow' : ∀ x ∈ {x | x ∈ e.typeVars ∨ x ∈ Γ.typeVars}, π x ≤ k₂ := by
    rintro x (hx | hx)
    · exact he' (π x) (by rw [typeVars_rename]; exact List.mem_map_of_mem hx)
    · exact hΓ' (π x) (by rw [Scope.typeVars_rename]; exact List.mem_map_of_mem hx)
  -- On the variables at hand the extended renaming does what `π` does.
  have hrename : e.rename (renameAfter π k₁ k₂) = e.rename π :=
    rename_congr e fun t ht => Ty.rename_congr fun x hx =>
      if_pos (he x (mem_typeVars.2 ⟨t, ht, hx⟩))
  have hscope : Γ.rename (renameAfter π k₁ k₂) = Γ.rename π :=
    Scope.rename_congr fun t ht => Ty.rename_congr fun x hx =>
      if_pos (hΓ x (Scope.mem_typeVars.2 ⟨t, ht, hx⟩))
  have hparallel := renamed_typeOf (coupled_renameAfter hπ hbelow hbelow')
    ⟨Scope.shows_of_forall_mem_types fun t ht x hx =>
      .inl (.inr (Scope.mem_typeVars.2 ⟨t, ht, hx⟩)), rfl⟩ d₁ d₂ e
    fun t ht x hx => .inl (.inl (mem_typeVars.2 ⟨t, ht, hx⟩))
  rw [hrename, hscope] at hparallel
  obtain ⟨m, h₁, h₂, halike⟩ := hparallel.runFrom tracing₁ tracing₂
  exact ⟨m, h₁, h₂, halike.mono fun _ _ h => h.2⟩

/-- A procedure that makes a pair of its parameters, with its two type variables and that of the scope
renamed out of order. -/
theorem typeOf_rename_pairMaker :
    let name (text : String) : Token := ⟨.symbol, .absent, text⟩
    let e := lambda .absent [⟨name "x", .var 1, .absent⟩, ⟨name "y", .var 2, .absent⟩]
      (.pair (.var 1) (.var 2))
      [app .absent (primitive (name "cons")) [var (name "x"), var (name "y")]]
    let Γ : Scope := [[("z", .var 3)]]
    let π (x : Nat) : Nat := if x = 1 then 7 else if x = 2 then 5 else 6
    Set.InjOn π {x | x ∈ e.typeVars ∨ x ∈ Γ.typeVars} ∧
      (∀ x ∈ e.typeVars, x ≤ 3) ∧ (∀ x ∈ Γ.typeVars, x ≤ 3) ∧
      (∀ x ∈ (e.rename π).typeVars, x ≤ 9) ∧ (∀ x ∈ (Γ.rename π).typeVars, x ≤ 9) ∧
      (((e.rename π).typeOf (Γ.rename π) 0).runFrom 9 false).result =
        .ok (.proc [.var 7, .var 5] (.pair (.var 7) (.var 5))) := by
  intro name e Γ π
  have hvars : ∀ x, x ∈ e.typeVars ∨ x ∈ Γ.typeVars → x = 1 ∨ x = 2 ∨ x = 3 := by
    intro x hx
    rw [show e.typeVars = [1, 2, 1, 2] from rfl, show Γ.typeVars = [3] from rfl] at hx
    simp only [List.mem_cons, List.not_mem_nil, or_false] at hx
    omega
  have hπ : Set.InjOn π {x | x ∈ e.typeVars ∨ x ∈ Γ.typeVars} := by
    intro x hx y hy hxy
    rcases hvars x hx with rfl | rfl | rfl <;> rcases hvars y hy with rfl | rfl | rfl <;>
      first | rfl | cases hxy
  have he : ∀ x ∈ e.typeVars, x ≤ 3 := by decide
  have hΓ : ∀ x ∈ Γ.typeVars, x ≤ 3 := by decide
  have he' : ∀ x ∈ (e.rename π).typeVars, x ≤ 9 := by decide
  have hΓ' : ∀ x ∈ (Γ.rename π).typeVars, x ≤ 9 := by decide
  have hfirst : ((e.typeOf Γ 0).runFrom 3 false).result =
      .ok (.proc [.var 1, .var 2] (.pair (.var 1) (.var 2))) :=
    toOption_eq_some_iff.1 (by decide +kernel)
  obtain ⟨m, -, -, halike⟩ := typeOf_rename hπ he hΓ he' hΓ' 0 0 false false
  obtain ⟨t, hsecond, rfl⟩ := halike.exists_of_ok hfirst
  exact ⟨hπ, he, hΓ, he', hΓ', hsecond⟩

end Expr

end TypedScheme
