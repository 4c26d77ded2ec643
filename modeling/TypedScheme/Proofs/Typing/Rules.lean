import TypedScheme.Proofs.Expr.Annotations
import TypedScheme.Proofs.Scope
import TypedScheme.Proofs.Typing.Constants
import TypedScheme.Typing.Checker

/-!
# The rules of typing

The declarative rules: what it means for an expression to have a type in a scope. Types are compared
by equality. There is no numbering, no matching and no order of checks, and there is no rule for a
definition inside an expression, for an operator that is not applied or for an empty body.

## What this module delivers

- `Value.HasType`, the rules for quoted values, with `Value.typeOf_eq_ok_iff`.
- `Expr.HasType Γ e τ` and the judgments for the parts of expressions. An application of a primitive
  operator is typed by any instance of its signature.
- `Expr.primitivesApplied`: primitive operators stand only in operator position.
- `Expr.HasType.isGround`: in a scope of ground types, an expression with ground annotations has
  ground types only.
-/

set_option autoImplicit false

namespace TypedScheme

/-! ## Quoted values -/

/-- The types of quoted values. A scalar that stands alone is opaque. -/
inductive Value.HasType : Bool → Value → Ty → Prop
  | scalarNumber {n : Binary64} : HasType true (.number n) (.base .literal)
  | scalarBoolean {b : Bool} : HasType true (.boolean b) (.base .literal)
  | scalarString {s : Text.Pieces} : HasType true (.string s) (.base .literal)
  | number {n : Binary64} : HasType false (.number n) (.base .number)
  | boolean {b : Bool} : HasType false (.boolean b) (.base .boolean)
  | string {s : Text.Pieces} : HasType false (.string s) (.base .string)
  | symbol {top : Bool} {name : String} : HasType top (.symbol name) (.base .literal)
  | empty {top : Bool} : HasType top .empty (.base .empty)
  | pair {top : Bool} {a d : Value} {car cdr : Ty} :
      HasType false a car → HasType false d cdr → HasType top (.pair a d) (.pair car cdr)

/-- The type of a value is computed as the rules give it. -/
theorem Value.typeOf_eq_ok_iff {v : Value} {top : Bool} {τ : Ty} :
    v.typeOf top = .ok τ ↔ v.HasType top τ := by
  constructor
  · intro h
    induction v generalizing top τ with
    | missing => cases h
    | number | boolean | string =>
      cases h
      cases top <;> constructor
    | symbol | empty =>
      cases h
      constructor
    | pair a d iha ihd =>
      obtain ⟨car, cdr, ha, hd, rfl⟩ := typeOf_pair_eq_ok h
      exact .pair (iha ha) (ihd hd)
  · intro h
    induction h with
    | scalarNumber | scalarBoolean | scalarString | number | boolean | string | symbol
    | empty => rfl
    | pair _ _ iha ihd =>
      rw [Value.typeOf, iha, ihd]
      rfl

namespace Expr

/-! ## Expressions -/

/-- The names that recursive bindings bring into scope, each with the type of its procedure. A
declared type is the type of the procedure. -/
inductive DeclaresProcedures : List (Decl × Expr) → List (String × Ty) → Prop
  | nil : DeclaresProcedures [] []
  | cons {decl : Decl} {span : Span} {params : List Param} {result : Ty} {body : List Expr}
      {rest : List (Decl × Expr)} {βs : List (String × Ty)} :
      (∀ t, decl.ty? = some t → t = procType params result) → DeclaresProcedures rest βs →
      DeclaresProcedures ((decl, lambda span params result body) :: rest)
        ((decl.name, procType params result) :: βs)

mutual

/-- An expression has a type in a scope. -/
inductive HasType : Scope → Expr → Ty → Prop
  | number {Γ : Scope} {t : Token} {n : Binary64} : HasType Γ (number t n) (.base .number)
  | boolean {Γ : Scope} {t : Token} {b : Bool} : HasType Γ (boolean t b) (.base .boolean)
  | string {Γ : Scope} {t : Token} {s : Text.Pieces} : HasType Γ (string t s) (.base .string)
  | quoted {Γ : Scope} {t : Token} {v : Value} {span : Span} {τ : Ty} :
      v.HasType true τ → HasType Γ (quoted t v span) τ
  | var {Γ : Scope} {t : Token} {τ : Ty} : Γ.lookup t.text = some τ → HasType Γ (var t) τ
  | cond {Γ : Scope} {span : Span} {test consequent alternative : Expr} {τ : Ty} :
      HasType Γ test (.base .boolean) → HasType Γ consequent τ → HasType Γ alternative τ →
      HasType Γ (cond span test consequent alternative) τ
  | lambda {Γ : Scope} {span : Span} {params : List Param} {result : Ty} {body : List Expr} :
      BodyHasType (Γ.extend (Param.bindings params)) body result →
      HasType Γ (lambda span params result body) (procType params result)
  | app {Γ : Scope} {span : Span} {operator : Expr} {operands : List Expr} {params : List Ty}
      {result : Ty} :
      HasType Γ operator (.proc params result) → HaveTypes Γ operands params →
      HasType Γ (app span operator operands) result
  | appPrimitive {Γ : Scope} {span : Span} {t : Token} {operands : List Expr} {params : List Ty}
      {result : Ty} (θ : Nat → Ty) :
      Primitive.signature? t.text = some (.proc params result) →
      HaveTypes Γ operands (params.map (Ty.bind θ)) →
      HasType Γ (app span (primitive t) operands) (result.bind θ)
  | letin {Γ : Scope} {span : Span} {bindings : List (Decl × Expr)} {body : List Expr}
      {βs : List (String × Ty)} {τ : Ty} :
      BindingsHaveTypes Γ bindings βs → BodyHasType (Γ.extend βs) body τ →
      HasType Γ (letin span bindings body) τ
  | letrec {Γ : Scope} {span : Span} {bindings : List (Decl × Expr)} {body : List Expr}
      {βs : List (String × Ty)} {τ : Ty} :
      DeclaresProcedures bindings βs → ProceduresHaveTypes (Γ.extend βs) bindings →
      BodyHasType (Γ.extend βs) body τ → HasType Γ (letrec span bindings body) τ
  | program {Γ Γ' : Scope} {forms : List Expr} {τ : Ty} :
      FormsHaveType Γ forms τ Γ' → HasType Γ (program forms) τ

/-- All expressions of a body have types, and the last one has the type of the body. -/
inductive BodyHasType : Scope → List Expr → Ty → Prop
  | last {Γ : Scope} {e : Expr} {τ : Ty} : HasType Γ e τ → BodyHasType Γ [e] τ
  | cons {Γ : Scope} {e : Expr} {es : List Expr} {σ τ : Ty} :
      HasType Γ e σ → BodyHasType Γ es τ → BodyHasType Γ (e :: es) τ

/-- Expressions have types, one by one. -/
inductive HaveTypes : Scope → List Expr → List Ty → Prop
  | nil {Γ : Scope} : HaveTypes Γ [] []
  | cons {Γ : Scope} {e : Expr} {es : List Expr} {τ : Ty} {τs : List Ty} :
      HasType Γ e τ → HaveTypes Γ es τs → HaveTypes Γ (e :: es) (τ :: τs)

/-- The values of bindings have the declared types in the scope outside. -/
inductive BindingsHaveTypes : Scope → List (Decl × Expr) → List (String × Ty) → Prop
  | nil {Γ : Scope} : BindingsHaveTypes Γ [] []
  | cons {Γ : Scope} {decl : Decl} {value : Expr} {rest : List (Decl × Expr)} {τ : Ty}
      {βs : List (String × Ty)} :
      decl.ty? = some τ → HasType Γ value τ → BindingsHaveTypes Γ rest βs →
      BindingsHaveTypes Γ ((decl, value) :: rest) ((decl.name, τ) :: βs)

/-- The bodies of procedures have their result types in a scope that has all their names. -/
inductive ProceduresHaveTypes : Scope → List (Decl × Expr) → Prop
  | nil {Γ : Scope} : ProceduresHaveTypes Γ []
  | cons {Γ : Scope} {decl : Decl} {span : Span} {params : List Param} {result : Ty}
      {body : List Expr} {rest : List (Decl × Expr)} :
      BodyHasType (Γ.extend (Param.bindings params)) body result → ProceduresHaveTypes Γ rest →
      ProceduresHaveTypes Γ ((decl, lambda span params result body) :: rest)

/-- A form of a program has a type in a scope and leaves a scope. -/
inductive FormHasType : Scope → Expr → Ty → Scope → Prop
  | define {Γ : Scope} {span : Span} {decl : Decl} {value : Expr} {τ : Ty} :
      decl.ty? = some τ → HasType Γ value τ →
      FormHasType Γ (define span decl value) (.base .void) (Γ.extend [(decl.name, τ)])
  | expression {Γ : Scope} {e : Expr} {τ : Ty} : HasType Γ e τ → FormHasType Γ e τ Γ

/-- The forms of a program have types, each in the scope that the one before leaves. -/
inductive FormsHaveType : Scope → List Expr → Ty → Scope → Prop
  | last {Γ Γ' : Scope} {e : Expr} {τ : Ty} : FormHasType Γ e τ Γ' → FormsHaveType Γ [e] τ Γ'
  | cons {Γ Γ' Γ'' : Scope} {e : Expr} {es : List Expr} {σ τ : Ty} :
      FormHasType Γ e σ Γ' → FormsHaveType Γ' es τ Γ'' → FormsHaveType Γ (e :: es) τ Γ''

end

/-- Every operand has one type. -/
theorem HaveTypes.length_eq {Γ : Scope} {es : List Expr} {τs : List Ty} (h : HaveTypes Γ es τs) :
    es.length = τs.length := by
  match h with
  | .nil => rfl
  | .cons _ hrest => rw [List.length_cons, List.length_cons, hrest.length_eq]

/-! ## Operators in operator position -/

/-- Whether an expression is a primitive operator. -/
def isPrimitive : Expr → Bool
  | primitive _ => true
  | _ => false

theorem isPrimitive_iff {e : Expr} : e.isPrimitive = true ↔ ∃ t, e = primitive t := by
  cases e <;> simp [isPrimitive]

mutual

/-- Whether primitive operators stand only in operator position. -/
def primitivesApplied : Expr → Bool
  | missing => true
  | number _ _ => true
  | boolean _ _ => true
  | string _ _ => true
  | quoted _ _ _ => true
  | primitive _ => false
  | var _ => true
  | cond _ test consequent alternative =>
    primitivesApplied test && primitivesApplied consequent && primitivesApplied alternative
  | lambda _ _ _ body => primitivesAppliedAll body
  | app _ operator operands =>
    (operator.isPrimitive || primitivesApplied operator) && primitivesAppliedAll operands
  | letin _ bindings body => primitivesAppliedBound bindings && primitivesAppliedAll body
  | letrec _ bindings body => primitivesAppliedBound bindings && primitivesAppliedAll body
  | define _ _ value => primitivesApplied value
  | program forms => primitivesAppliedAll forms

/-- Whether primitive operators stand only in operator position in expressions. -/
def primitivesAppliedAll : List Expr → Bool
  | [] => true
  | e :: es => primitivesApplied e && primitivesAppliedAll es

/-- Whether primitive operators stand only in operator position in the values of bindings. -/
def primitivesAppliedBound : List (Decl × Expr) → Bool
  | [] => true
  | (_, value) :: rest => primitivesApplied value && primitivesAppliedBound rest

end

/-! ## Ground types -/

theorem isGround_procType {params : List Param} {result : Ty}
    (hparams : ∀ p ∈ params, p.ty.IsGround) (hresult : result.IsGround) :
    (procType params result).IsGround := by
  refine Ty.isGround_proc.2 ⟨fun t ht => ?_, hresult⟩
  obtain ⟨p, hp, rfl⟩ := List.mem_map.1 ht
  exact hparams p hp

/-- Parameters with ground types keep a scope ground. -/
theorem shows_params {Γ : Scope} {params : List Param} (hΓ : Γ.Shows Ty.IsGround)
    (hparams : ∀ p ∈ params, p.ty.IsGround) :
    (Γ.extend (Param.bindings params)).Shows Ty.IsGround := by
  refine hΓ.extend fun b hb => ?_
  obtain ⟨p, hp, rfl⟩ := List.mem_map.1 hb
  exact hparams p hp

/-- Procedures that are bound recursively declare ground types, if they carry no others. -/
theorem DeclaresProcedures.isGround {bs : List (Decl × Expr)} {βs : List (String × Ty)}
    (h : DeclaresProcedures bs βs) (hbs : CarriesBound Ty.IsGround bs) :
    ∀ β ∈ βs, β.2.IsGround := by
  induction h with
  | nil => simp
  | cons _ _ ih =>
    obtain ⟨-, hvalue, hrest⟩ := carriesBound_cons.1 hbs
    obtain ⟨hparams, hresult, -⟩ := carries_lambda.1 hvalue
    exact List.forall_mem_cons.2 ⟨isGround_procType hparams hresult, ih hrest⟩

/-- Bindings have ground types, if they carry no others. -/
theorem BindingsHaveTypes.isGround {Γ : Scope} {bs : List (Decl × Expr)}
    {βs : List (String × Ty)} (h : BindingsHaveTypes Γ bs βs) (hbs : CarriesBound Ty.IsGround bs) :
    ∀ β ∈ βs, β.2.IsGround := by
  match h with
  | .nil => simp
  | .cons hdecl _ hrest =>
    obtain ⟨hd, -, hbs'⟩ := carriesBound_cons.1 hbs
    exact List.forall_mem_cons.2 ⟨hd _ hdecl, hrest.isGround hbs'⟩

mutual

/-- In a scope of ground types, an expression with ground annotations has ground types only. -/
theorem HasType.isGround {Γ : Scope} {e : Expr} {τ : Ty} (h : HasType Γ e τ)
    (hΓ : Γ.Shows Ty.IsGround) (he : e.Carries Ty.IsGround) : τ.IsGround := by
  match h with
  | .number | .boolean | .string => exact Ty.isGround_base _
  | .quoted hv => exact Value.isGround_of_typeOf (Value.typeOf_eq_ok_iff.2 hv)
  | .var hlookup => exact hΓ _ _ hlookup
  | .cond _ hconsequent _ => exact hconsequent.isGround hΓ (carries_cond.1 he).2.1
  | .lambda _ =>
    obtain ⟨hparams, hresult, -⟩ := carries_lambda.1 he
    exact isGround_procType hparams hresult
  | .app hoperator _ =>
    exact (Ty.isGround_proc.1 (hoperator.isGround hΓ (carries_app.1 he).1)).2
  | .appPrimitive θ hsignature hoperands =>
    -- The operands are ground, hence so is every type that the instance puts in for a variable.
    obtain ⟨params, result, heq, hsig⟩ := Primitive.signature?_eq_some hsignature
    obtain ⟨rfl, rfl⟩ := Ty.proc.inj heq
    have hops := hoperands.isGround hΓ (carries_app.1 he).2
    refine Ty.isGround_bind (Ty.isWhole_proc.1 hsig.whole).2 fun x hx => ?_
    obtain ⟨p, hp, hxp⟩ := Ty.mem_varsAll.1 (hsig.result_vars x hx)
    exact (hops _ (List.mem_map_of_mem hp)).of_bind hxp
  | .letin hbindings hbody =>
    obtain ⟨hbs, hes⟩ := carries_letin.1 he
    exact hbody.isGround (hΓ.extend (hbindings.isGround hbs)) hes
  | .letrec hdeclares _ hbody =>
    obtain ⟨hbs, hes⟩ := carries_letrec.1 he
    exact hbody.isGround (hΓ.extend (hdeclares.isGround hbs)) hes
  | .program hforms => exact (hforms.isGround hΓ he).1

theorem BodyHasType.isGround {Γ : Scope} {es : List Expr} {τ : Ty} (h : BodyHasType Γ es τ)
    (hΓ : Γ.Shows Ty.IsGround) (hes : CarriesAll Ty.IsGround es) : τ.IsGround := by
  match h with
  | .last he => exact he.isGround hΓ (carriesAll_cons.1 hes).1
  | .cons _ hrest => exact hrest.isGround hΓ (carriesAll_cons.1 hes).2

theorem HaveTypes.isGround {Γ : Scope} {es : List Expr} {τs : List Ty} (h : HaveTypes Γ es τs)
    (hΓ : Γ.Shows Ty.IsGround) (hes : CarriesAll Ty.IsGround es) : ∀ τ ∈ τs, τ.IsGround := by
  match h with
  | .nil => simp
  | .cons he hrest =>
    obtain ⟨he', hes'⟩ := carriesAll_cons.1 hes
    exact List.forall_mem_cons.2 ⟨he.isGround hΓ he', hrest.isGround hΓ hes'⟩

theorem FormHasType.isGround {Γ Γ' : Scope} {e : Expr} {τ : Ty} (h : FormHasType Γ e τ Γ')
    (hΓ : Γ.Shows Ty.IsGround) (he : e.Carries Ty.IsGround) :
    τ.IsGround ∧ Γ'.Shows Ty.IsGround := by
  match h with
  | .define hdecl _ =>
    refine ⟨Ty.isGround_base _, hΓ.extend ?_⟩
    simpa using (carries_define.1 he).1 _ hdecl
  | .expression he' => exact ⟨he'.isGround hΓ he, hΓ⟩

/-- Ground forms have a ground type and leave the scope ground. -/
theorem FormsHaveType.isGround {Γ Γ' : Scope} {es : List Expr} {τ : Ty}
    (h : FormsHaveType Γ es τ Γ') (hΓ : Γ.Shows Ty.IsGround) (hes : CarriesAll Ty.IsGround es) :
    τ.IsGround ∧ Γ'.Shows Ty.IsGround := by
  match h with
  | .last he => exact he.isGround hΓ (carriesAll_cons.1 hes).1
  | .cons he hrest =>
    obtain ⟨he', hes'⟩ := carriesAll_cons.1 hes
    exact hrest.isGround (he.isGround hΓ he').2 hes'

end

end Expr

end TypedScheme
