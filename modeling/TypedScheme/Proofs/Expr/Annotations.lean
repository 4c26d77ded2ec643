import TypedScheme.Expr.Basic
import TypedScheme.Proofs.Ty.Renaming

/-!
# Type annotations

The types that an expression carries: those of the parameters and results of its procedures and those
of its declarations. A renaming of type variables acts on an expression through them and leaves all
else as it is, in particular the places of its parts.

## What this module delivers

- `Expr.annotations` and `Expr.typeVars`, the types and the type variables of an expression.
- `Expr.rename`, which renames the type variables of an expression, with `Expr.typeVars_rename` and
  `Expr.span_rename`.
- `Expr.Carries Q`, which says that all types of an expression have a property, taken apart form by
  form.
-/

set_option autoImplicit false

namespace TypedScheme

/-- A parameter with the variables of its type renamed. -/
def Param.rename (ρ : Nat → Nat) (p : Param) : Param := { p with ty := p.ty.rename ρ }

/-- A declaration with the variables of its type renamed. -/
def Decl.rename (ρ : Nat → Nat) (d : Decl) : Decl := { d with ty? := d.ty?.map (Ty.rename ρ) }

@[simp] theorem Decl.name_rename (ρ : Nat → Nat) (d : Decl) : (d.rename ρ).name = d.name := rfl

/-- The type that a declaration binds its name to is renamed with it. -/
@[simp] theorem Decl.boundType_rename (ρ : Nat → Nat) (d : Decl) :
    (d.rename ρ).boundType = d.boundType.rename ρ := by
  cases h : d.ty? <;> simp [Decl.rename, Decl.boundType, h]

theorem Decl.rename_id (d : Decl) : d.rename id = d := by
  obtain ⟨token, ty?, span⟩ := d
  cases ty? <;> simp [Decl.rename]

/-- Renamings that agree on the type of a declaration give the same declaration. -/
theorem Decl.rename_congr {ρ ρ' : Nat → Nat} {d : Decl}
    (h : ∀ t, d.ty? = some t → t.rename ρ = t.rename ρ') : d.rename ρ = d.rename ρ' := by
  cases hd : d.ty? with
  | none => simp [Decl.rename, hd]
  | some t => simp [Decl.rename, hd, h t hd]

namespace Expr

/-! ## Annotations -/

mutual

/-- The types that an expression carries, from left to right. -/
def annotations : Expr → List Ty
  | missing => []
  | number _ _ => []
  | boolean _ _ => []
  | string _ _ => []
  | quoted _ _ _ => []
  | primitive _ => []
  | var _ => []
  | cond _ test consequent alternative =>
    annotations test ++ annotations consequent ++ annotations alternative
  | lambda _ params result body => params.map (·.ty) ++ [result] ++ annotationsAll body
  | app _ operator operands => annotations operator ++ annotationsAll operands
  | letin _ bindings body => annotationsBound bindings ++ annotationsAll body
  | letrec _ bindings body => annotationsBound bindings ++ annotationsAll body
  | define _ decl value => decl.ty?.toList ++ annotations value
  | program forms => annotationsAll forms

/-- The types that expressions carry. -/
def annotationsAll : List Expr → List Ty
  | [] => []
  | e :: es => annotations e ++ annotationsAll es

/-- The types that bindings carry. -/
def annotationsBound : List (Decl × Expr) → List Ty
  | [] => []
  | (decl, value) :: rest => decl.ty?.toList ++ annotations value ++ annotationsBound rest

end

/-- The type variables of an expression. -/
def typeVars (e : Expr) : List Nat := e.annotations.flatMap Ty.vars

/-- The type variables of an expression are those of the types it carries. -/
theorem mem_typeVars {e : Expr} {x : Nat} : x ∈ e.typeVars ↔ ∃ t ∈ e.annotations, x ∈ t.vars :=
  List.mem_flatMap

/-! ## Properties of all annotations -/

/-- Every type that an expression carries has a property. -/
def Carries (Q : Ty → Prop) (e : Expr) : Prop := ∀ t ∈ e.annotations, Q t

/-- Every type that expressions carry has a property. -/
def CarriesAll (Q : Ty → Prop) (es : List Expr) : Prop := ∀ t ∈ annotationsAll es, Q t

/-- Every type that bindings carry has a property. -/
def CarriesBound (Q : Ty → Prop) (bs : List (Decl × Expr)) : Prop := ∀ t ∈ annotationsBound bs, Q t

section Carries

variable {Q : Ty → Prop}

theorem carries_cond {s : Span} {test consequent alternative : Expr} :
    (cond s test consequent alternative).Carries Q ↔
      test.Carries Q ∧ consequent.Carries Q ∧ alternative.Carries Q := by
  simp only [Carries, annotations, List.mem_append, or_imp, forall_and, and_assoc]

/-- A procedure carries the types of its parameters, that of its result, and those in its body. -/
theorem carries_lambda {s : Span} {params : List Param} {result : Ty} {body : List Expr} :
    (lambda s params result body).Carries Q ↔
      (∀ p ∈ params, Q p.ty) ∧ Q result ∧ CarriesAll Q body := by
  simp only [Carries, CarriesAll, annotations, List.mem_append, or_imp, forall_and, and_assoc]
  simp

/-- An application carries the types of its operator and its operands. -/
theorem carries_app {s : Span} {operator : Expr} {operands : List Expr} :
    (app s operator operands).Carries Q ↔ operator.Carries Q ∧ CarriesAll Q operands := by
  simp only [Carries, CarriesAll, annotations, List.mem_append, or_imp, forall_and]

/-- A form that binds names carries the types of its bindings and those of its body. -/
theorem carries_letin {s : Span} {bindings : List (Decl × Expr)} {body : List Expr} :
    (letin s bindings body).Carries Q ↔ CarriesBound Q bindings ∧ CarriesAll Q body := by
  simp only [Carries, CarriesAll, CarriesBound, annotations, List.mem_append, or_imp, forall_and]

theorem carries_letrec {s : Span} {bindings : List (Decl × Expr)} {body : List Expr} :
    (letrec s bindings body).Carries Q ↔ CarriesBound Q bindings ∧ CarriesAll Q body := by
  simp only [Carries, CarriesAll, CarriesBound, annotations, List.mem_append, or_imp, forall_and]

/-- A definition carries the type of its declaration and those of its value. -/
theorem carries_define {s : Span} {decl : Decl} {value : Expr} :
    (define s decl value).Carries Q ↔ (∀ t, decl.ty? = some t → Q t) ∧ value.Carries Q := by
  simp only [Carries, annotations, List.mem_append, or_imp, forall_and, Option.mem_toList]

theorem carriesAll_cons {e : Expr} {es : List Expr} :
    CarriesAll Q (e :: es) ↔ e.Carries Q ∧ CarriesAll Q es := by
  simp only [Carries, CarriesAll, annotationsAll, List.mem_append, or_imp, forall_and]

/-- Expressions in two parts carry the types of both. -/
theorem carriesAll_append {es fs : List Expr} :
    CarriesAll Q (es ++ fs) ↔ CarriesAll Q es ∧ CarriesAll Q fs := by
  induction es with
  | nil => simp [CarriesAll, annotationsAll]
  | cons e es ih => rw [List.cons_append, carriesAll_cons, carriesAll_cons, ih, and_assoc]

/-- Bindings carry the type of each declaration, if it has one, and those of its value. -/
theorem carriesBound_cons {decl : Decl} {value : Expr} {rest : List (Decl × Expr)} :
    CarriesBound Q ((decl, value) :: rest) ↔
      (∀ t, decl.ty? = some t → Q t) ∧ value.Carries Q ∧ CarriesBound Q rest := by
  simp only [Carries, CarriesBound, annotationsBound, List.mem_append, or_imp, forall_and,
    and_assoc, Option.mem_toList]

/-- A declaration without a type binds the absent type. -/
theorem boundType_of_forall {decl : Decl} (h : ∀ t, decl.ty? = some t → Q t)
    (habsent : Q .absent) :
    Q decl.boundType := by
  unfold Decl.boundType
  cases hd : decl.ty? with
  | none => exact habsent
  | some t => exact h t hd

end Carries

/-! ## Renaming -/

mutual

/-- An expression with its type variables renamed. -/
def rename (ρ : Nat → Nat) : Expr → Expr
  | missing => missing
  | number t v => number t v
  | boolean t v => boolean t v
  | string t v => string t v
  | quoted t v s => quoted t v s
  | primitive t => primitive t
  | var t => var t
  | cond s test consequent alternative =>
    cond s (rename ρ test) (rename ρ consequent) (rename ρ alternative)
  | lambda s params result body =>
    lambda s (params.map (Param.rename ρ)) (result.rename ρ) (renameAll ρ body)
  | app s operator operands => app s (rename ρ operator) (renameAll ρ operands)
  | letin s bindings body => letin s (renameBound ρ bindings) (renameAll ρ body)
  | letrec s bindings body => letrec s (renameBound ρ bindings) (renameAll ρ body)
  | define s decl value => define s (decl.rename ρ) (rename ρ value)
  | program forms => program (renameAll ρ forms)

/-- Expressions with their type variables renamed. -/
def renameAll (ρ : Nat → Nat) : List Expr → List Expr
  | [] => []
  | e :: es => rename ρ e :: renameAll ρ es

/-- Bindings with their type variables renamed. -/
def renameBound (ρ : Nat → Nat) : List (Decl × Expr) → List (Decl × Expr)
  | [] => []
  | (decl, value) :: rest => (decl.rename ρ, rename ρ value) :: renameBound ρ rest

end

variable {ρ : Nat → Nat}

theorem length_renameAll (es : List Expr) : (renameAll ρ es).length = es.length := by
  induction es with
  | nil => rfl
  | cons e es ih => simp [renameAll, ih]

/-- The type of a procedure is renamed part by part. -/
theorem procType_rename (params : List Param) (result : Ty) :
    procType (params.map (Param.rename ρ)) (result.rename ρ) = (procType params result).rename ρ := by
  simp [procType, Param.rename, Function.comp_def]

mutual

/-- Renaming acts on the types that an expression carries, one by one. -/
theorem annotations_rename (e : Expr) :
    (e.rename ρ).annotations = e.annotations.map (Ty.rename ρ) := by
  cases e with
  | missing | number | boolean | string | quoted | primitive | var => rfl
  | cond s a b c =>
    simp [rename, annotations, annotations_rename a, annotations_rename b, annotations_rename c]
  | lambda s params result body =>
    simp [rename, annotations, annotationsAll_rename body, Param.rename, Function.comp_def]
  | app s f es => simp [rename, annotations, annotations_rename f, annotationsAll_rename es]
  | letin s bs body =>
    simp [rename, annotations, annotationsBound_rename bs, annotationsAll_rename body]
  | letrec s bs body =>
    simp [rename, annotations, annotationsBound_rename bs, annotationsAll_rename body]
  | define s d v =>
    cases h : d.ty? <;> simp [rename, annotations, Decl.rename, annotations_rename v, h]
  | program forms => simp [rename, annotations, annotationsAll_rename forms]

theorem annotationsAll_rename (es : List Expr) :
    annotationsAll (renameAll ρ es) = (annotationsAll es).map (Ty.rename ρ) := by
  cases es with
  | nil => rfl
  | cons e es =>
    simp [renameAll, annotationsAll, annotations_rename e, annotationsAll_rename es]

theorem annotationsBound_rename (bs : List (Decl × Expr)) :
    annotationsBound (renameBound ρ bs) = (annotationsBound bs).map (Ty.rename ρ) := by
  match bs with
  | [] => rfl
  | (d, v) :: rest =>
    cases h : d.ty? <;>
      simp [renameBound, annotationsBound, Decl.rename, annotations_rename v,
        annotationsBound_rename rest, h]

end

/-- Renaming an expression renames its type variables in their order. -/
theorem typeVars_rename (e : Expr) : (e.rename ρ).typeVars = e.typeVars.map ρ := by
  rw [typeVars, typeVars, annotations_rename, List.flatMap_map, List.map_flatMap]
  simp only [Ty.vars_rename]

mutual

/-- The result of a renaming depends only on what it does to the types that an expression carries. -/
theorem rename_congr {ρ' : Nat → Nat} (e : Expr)
    (h : e.Carries fun t => t.rename ρ = t.rename ρ') : e.rename ρ = e.rename ρ' := by
  cases e with
  | missing | number | boolean | string | quoted | primitive | var => rfl
  | cond s a b c =>
    obtain ⟨ha, hb, hc⟩ := carries_cond.1 h
    rw [rename, rename, rename_congr a ha, rename_congr b hb, rename_congr c hc]
  | lambda s params result body =>
    obtain ⟨hparams, hresult, hbody⟩ := carries_lambda.1 h
    have hmap : params.map (Param.rename ρ) = params.map (Param.rename ρ') :=
      List.map_congr_left fun p hp => by rw [Param.rename, Param.rename, hparams p hp]
    rw [rename, rename, hmap, hresult, renameAll_congr body hbody]
  | app s f es =>
    obtain ⟨hf, hes⟩ := carries_app.1 h
    rw [rename, rename, rename_congr f hf, renameAll_congr es hes]
  | letin s bs body =>
    obtain ⟨hbs, hbody⟩ := carries_letin.1 h
    rw [rename, rename, renameBound_congr bs hbs, renameAll_congr body hbody]
  | letrec s bs body =>
    obtain ⟨hbs, hbody⟩ := carries_letrec.1 h
    rw [rename, rename, renameBound_congr bs hbs, renameAll_congr body hbody]
  | define s d v =>
    obtain ⟨hd, hv⟩ := carries_define.1 h
    rw [rename, rename, rename_congr v hv, Decl.rename_congr hd]
  | program forms => rw [rename, rename, renameAll_congr forms h]

/-- Renamings that agree on the types of expressions give the same expressions. -/
theorem renameAll_congr {ρ' : Nat → Nat} (es : List Expr)
    (h : CarriesAll (fun t => t.rename ρ = t.rename ρ') es) : renameAll ρ es = renameAll ρ' es := by
  cases es with
  | nil => rfl
  | cons e es =>
    obtain ⟨he, hes⟩ := carriesAll_cons.1 h
    rw [renameAll, renameAll, rename_congr e he, renameAll_congr es hes]

theorem renameBound_congr {ρ' : Nat → Nat} (bs : List (Decl × Expr))
    (h : CarriesBound (fun t => t.rename ρ = t.rename ρ') bs) :
    renameBound ρ bs = renameBound ρ' bs := by
  match bs with
  | [] => rfl
  | (d, v) :: rest =>
    obtain ⟨hd, hv, hrest⟩ := carriesBound_cons.1 h
    rw [renameBound, renameBound, rename_congr v hv, renameBound_congr rest hrest,
      Decl.rename_congr hd]

end

mutual

/-- Renaming nothing changes nothing. -/
theorem rename_id (e : Expr) : e.rename id = e := by
  cases e with
  | missing | number | boolean | string | quoted | primitive | var => rfl
  | cond s a b c => rw [rename, rename_id a, rename_id b, rename_id c]
  | lambda s params result body =>
    have hparam : Param.rename id = id := funext fun p => by simp [Param.rename]
    rw [rename, hparam, List.map_id, Ty.rename_id, renameAll_id body]
  | app s f es => rw [rename, rename_id f, renameAll_id es]
  | letin s bs body => rw [rename, renameBound_id bs, renameAll_id body]
  | letrec s bs body => rw [rename, renameBound_id bs, renameAll_id body]
  | define s d v => rw [rename, Decl.rename_id, rename_id v]
  | program forms => rw [rename, renameAll_id forms]

theorem renameAll_id (es : List Expr) : renameAll id es = es := by
  cases es with
  | nil => rfl
  | cons e es => rw [renameAll, rename_id e, renameAll_id es]

theorem renameBound_id (bs : List (Decl × Expr)) : renameBound id bs = bs := by
  match bs with
  | [] => rfl
  | (d, v) :: rest => rw [renameBound, Decl.rename_id, rename_id v, renameBound_id rest]

end

/-- Expressions whose type variables all stay are renamed to themselves. -/
theorem renameAll_eq_self {es : List Expr}
    (h : CarriesAll (fun t => ∀ x ∈ t.vars, ρ x = x) es) : renameAll ρ es = es := by
  have hcongr : CarriesAll (fun t => t.rename ρ = t.rename id) es :=
    fun t ht => Ty.rename_congr (h t ht)
  rw [renameAll_congr es hcongr, renameAll_id]

mutual

/-- Renaming type variables does not move an expression. -/
@[simp] theorem span_rename (e : Expr) : (e.rename ρ).span = e.span := by
  cases e with
  | program forms => simp [rename, span, firstSpan_rename forms, lastSpan_rename forms]
  | missing | number | boolean | string | quoted | primitive | var | cond | lambda | app | letin
  | letrec | define => simp [rename, span]

/-- Renaming moves no expression. -/
theorem firstSpan_rename (es : List Expr) : firstSpan (renameAll ρ es) = firstSpan es := by
  cases es with
  | nil => rfl
  | cons e es => simp [renameAll, firstSpan, span_rename e]

theorem lastSpan_rename (es : List Expr) : lastSpan (renameAll ρ es) = lastSpan es := by
  match es with
  | [] => rfl
  | [e] => simp [renameAll, lastSpan, span_rename e]
  | e :: f :: es =>
    have h := lastSpan_rename (f :: es)
    simpa [renameAll, lastSpan] using h

end

end Expr

end TypedScheme
