import TypedScheme.Proofs.Expr.WellFormed
import TypedScheme.Proofs.Scope
import TypedScheme.Proofs.Ty.Unification
import TypedScheme.Proofs.Typing.Constants
import TypedScheme.Proofs.Typing.FreeVariables

/-!
# The faults of parsed programs

Checking a well-formed program in a scope of whole types fails only by a fault of a form inside the
program. Every type that it comes by is whole, so the branches for absent types, for operators without
a signature and for forms and values that are not there are never taken.

## What this module delivers

- `Check.Ends c P E`: every result of the check `c` satisfies `P` and every error `E`, with a rule for
  every primitive step of checking.
- `TypeError.LocatedIn e`: the errors that a well-formed expression `e` can have, each with its place,
  and `TypeFault.ArisesIn e`: their faults, wherever they are placed.
- `Expr.ends_typeOf` and its companions, one rule of typing at a time.
- `Expr.ExtendsEvenly Γ e`: the scope `Γ` is extended for the parts of `e` by as many types as names.
- `Program.check_of_parse`: a parsed program is well formed, and what its check can end in.
-/

set_option autoImplicit false

namespace TypedScheme

/-! ## Results and faults of a check -/

namespace Check

variable {α β : Type}

/-- From every state, a result of the check satisfies `P` and an error satisfies `E`. -/
def Ends (c : Check α) (P : α → Prop) (E : TypeError → Prop) : Prop :=
  ∀ σ, (∀ a, (c.run σ).1 = .ok a → P a) ∧ ∀ e, (c.run σ).1 = .error e → E e

namespace Ends

variable {c : Check α} {P : α → Prop} {E : TypeError → Prop}

theorem pure {a : α} (h : P a) : Ends (Pure.pure a) P E := by
  intro σ
  refine ⟨fun b hb => ?_, fun e he => ?_⟩
  · rw [run_pure, Except.ok.injEq] at hb
    exact hb ▸ h
  · simp at he

/-- A failing check ends with its error. -/
theorem fault {f : TypeFault} {span : Span} (h : E ⟨f, span⟩) : Ends (Check.fault f span) P E := by
  intro σ
  refine ⟨fun a ha => ?_, fun e he => ?_⟩
  · simp at ha
  · rw [run_fault, Except.error.injEq] at he
    exact he ▸ h

/-- A bind has the errors of its first part and those of its second part after a result. -/
theorem bind {f : α → Check β} {Q : β → Prop} (hc : Ends c P E)
    (hf : ∀ a, P a → Ends (f a) Q E) : Ends (c >>= f) Q E := by
  intro σ
  rcases hr : c.run σ with ⟨e | a, σ'⟩
  · rw [run_bind_error hr]
    refine ⟨fun b hb => by simp at hb, fun e' he => ?_⟩
    cases he
    exact (hc σ).2 e (by rw [hr])
  · rw [run_bind_ok hr]
    exact hf a ((hc σ).1 a (by rw [hr])) σ'

/-- How a check ends can be said in weaker words. -/
theorem mono {P' : α → Prop} {E' : TypeError → Prop} (hc : Ends c P E)
    (hP : ∀ a, P a → P' a) (hE : ∀ e, E e → E' e) : Ends c P' E' :=
  fun σ => ⟨fun a ha => hP a ((hc σ).1 a ha), fun e he => hE e ((hc σ).2 e he)⟩

/-- Noting an expression does not change how a check ends. -/
theorem after_note {depth : Nat} {e : Expr} (hc : Ends c P E) :
    Ends (do Check.note depth e; c) P E := by
  intro σ
  obtain ⟨notes, h⟩ := run_note depth e σ
  rw [run_bind_ok h]
  exact hc _

/-- A requirement ends in a mismatch only if the types disagree. -/
theorem require {expected found : Ty} {inside : Expr}
    (h : expected.agrees found = false → E ⟨.mismatch expected found inside, inside.span⟩) :
    Ends (Check.require expected found inside) (fun _ => True) E := by
  unfold Check.require
  split
  · exact pure trivial
  · next hagrees => exact fault (h (Bool.not_eq_true _ ▸ hagrees))

theorem numbered {make : Nat → α × Nat} (h : ∀ n, P (make n).1) :
    Ends (Check.numbered make) P E := by
  intro σ
  rw [run_numbered]
  refine ⟨fun a ha => ?_, fun e he => by simp at he⟩
  rw [Except.ok.injEq] at ha
  exact ha ▸ h σ.last

end Ends

end Check

/-! ## Where faults arise -/

/-- The errors that a well-formed expression can have, each at the place of the part that it is about. The
types they show are whole, and a mismatch is between two types that differ. -/
inductive TypeError.LocatedIn (e : Expr) : TypeError → Prop
  | unbound {token : Token} :
      Expr.Inside (.var token) e → LocatedIn e ⟨.unbound token.text, token.span⟩
  | mismatch {expected found : Ty} {inside : Expr} :
      Expr.Inside inside e → expected.isWhole = true → found.isWhole = true → expected ≠ found →
      LocatedIn e ⟨.mismatch expected found inside, inside.span⟩
  | notProcedure {span : Span} {operator : Expr} {operands : List Expr} {found : Ty} :
      Expr.Inside (.app span operator operands) e → found.isWhole = true →
      LocatedIn e ⟨.notProcedure operator found (.app span operator operands), operator.span⟩
  | arity {span : Span} {operator : Expr} {operands : List Expr} {params : List Ty} {result : Ty} :
      Expr.Inside (.app span operator operands) e → (Ty.proc params result).isWhole = true →
      params.length ≠ operands.length →
      LocatedIn e ⟨.arity (.proc params result) params.length operands.length
        (.app span operator operands), span⟩
  | nestedDefine {span : Span} {decl : Decl} {value : Expr} :
      Expr.Inside (.define span decl value) e →
      LocatedIn e ⟨.nestedDefine (.define span decl value), span⟩
  | letrecValue {span : Span} {bindings : List (Decl × Expr)} {body : List Expr}
      {b : Decl × Expr} :
      Expr.Inside (.letrec span bindings body) e → b ∈ bindings → b.2.isLambda = false →
      LocatedIn e ⟨.letrecValue b.2, b.2.span⟩
  | emptyBody {form : Expr} :
      Expr.Inside form e → form.body? = some [] → LocatedIn e ⟨.emptyBody form, form.span⟩

/-- The faults that a well-formed expression can have, wherever they are placed. -/
def TypeFault.ArisesIn (e : Expr) (f : TypeFault) : Prop := ∃ span, TypeError.LocatedIn e ⟨f, span⟩

open Check TypeFault TypeError

/-- Types that cannot be matched are still different when all bindings are resolved: otherwise these
bindings would have matched them. -/
theorem Substitution.Reachable.apply_ne_apply_of_unify {s : Substitution} (hs : s.Reachable)
    {a b : Ty} (ha : a.isWhole = true) (hb : b.isWhole = true) (h : (s.unify a b).1 = false) :
    (s.unify a b).2.apply a ≠ (s.unify a b).2.apply b := by
  intro heq
  have hsolved := solved_unify (a := a) (b := b) hs.triangular
  have hrespected :=
    hsolved.triangular.respectedBy_of_suffix hsolved.suffix hsolved.triangular.respectedBy_apply
  rw [apply_eq_bind, apply_eq_bind _ b] at heq
  have htrue := unify_of_bind_eq hs.triangular hs.isWhole ha hb hrespected heq
  rw [h] at htrue
  cases htrue

/-- Every type that a name can be looked up with is whole. -/
def Scope.IsWhole (Γ : Scope) : Prop := Γ.Shows fun t => t.isWhole = true

/-- Bindings with whole types keep a scope whole. -/
theorem Scope.IsWhole.extend {Γ : Scope} (hΓ : Γ.IsWhole) {bindings : List (String × Ty)}
    (hb : ∀ p ∈ bindings, p.2.isWhole = true) : (Γ.extend bindings).IsWhole :=
  Shows.extend hΓ hb

/-- A complete value has a type. -/
theorem Value.exists_typeOf {v : Value} (top : Bool) (h : v.isComplete = true) :
    ∃ t, v.typeOf top = .ok t := by
  induction v generalizing top with
  | missing => cases h
  | number | boolean | string | symbol | empty => exact ⟨_, rfl⟩
  | pair a d iha ihd =>
    obtain ⟨ha, hd⟩ := (Bool.and_eq_true _ _).mp h
    obtain ⟨car, ha⟩ := iha false ha
    obtain ⟨cdr, hd⟩ := ihd false hd
    exact ⟨.pair car cdr, by rw [typeOf, ha, hd]; rfl⟩

namespace Expr

/-! ## One rule of typing at a time -/

theorem isWhole_bindings {params : List Param} (h : ∀ p ∈ params, p.decl.IsProper true) :
    ∀ b ∈ Param.bindings params, b.2.isWhole = true := by
  intro b hb
  obtain ⟨p, hp, rfl⟩ := List.mem_map.1 hb
  exact (h p hp).whole p.ty rfl

theorem isWhole_procType {params : List Param} {result : Ty}
    (hparams : ∀ p ∈ params, p.decl.IsProper true) (hresult : result.isWhole = true) :
    (procType params result).isWhole = true := by
  refine Ty.isWhole_proc.2 ⟨fun t ht => ?_, hresult⟩
  obtain ⟨p, hp, rfl⟩ := List.mem_map.1 ht
  exact (hparams p hp).whole p.ty rfl

section Rules

variable {root : Expr}

/-- Types that are required to agree and do not are different, since a type agrees with itself. -/
theorem ends_require {expected found : Ty} {inside : Expr} (hin : Inside inside root)
    (hexpected : expected.isWhole = true) (hfound : found.isWhole = true) :
    Ends (Check.require expected found inside) (fun _ => True) (LocatedIn root) := by
  refine .require fun hagrees => .mismatch hin hexpected hfound ?_
  rintro rfl
  have hself := (Substitution.agrees_iff hexpected hexpected).2
    ⟨.var, fun _ => rfl, Substitution.respectedBy_nil _, rfl⟩
  rw [hagrees] at hself
  cases hself

/-- A recursive binding fails with an error of the form it stands in, or declares a whole type. -/
theorem ends_recursiveBinding (hroot : root.WellFormed) {span : Span}
    {bindings : List (Decl × Expr)} {body : List Expr}
    (hin : Inside (.letrec span bindings body) root) {b : Decl × Expr} (hb : b ∈ bindings) :
    Ends (recursiveBinding b) (fun p => p.2.isWhole = true) (LocatedIn root) := by
  obtain ⟨decl, value⟩ := b
  have hvalue : Inside value root :=
    .of_mem_children (List.mem_append_left _ (List.mem_map_of_mem (f := Prod.snd) hb)) hin
  have hdecl : decl.IsProper false := (hroot _ hin).2 _ hb
  cases value with
  | lambda s params result es =>
    obtain ⟨-, hparams, hresult⟩ := hroot _ hvalue
    have ht := isWhole_procType hparams hresult
    cases hty : decl.ty? with
    | none =>
      simp only [recursiveBinding, hty]
      exact .pure ht
    | some declared =>
      simp only [recursiveBinding, hty]
      exact .bind (ends_require hvalue (hdecl.whole declared hty) ht) fun _ _ => .pure ht
  | missing | number | boolean | string | quoted | primitive | var | cond | app | letin | letrec
  | define | program => exact .fault (.letrecValue hin hb rfl)

theorem ends_recursiveBindings (hroot : root.WellFormed) {span : Span}
    {bindings : List (Decl × Expr)} {body : List Expr}
    (hin : Inside (.letrec span bindings body) root) {bs : List (Decl × Expr)}
    (hbs : ∀ b ∈ bs, b ∈ bindings) :
    Ends (recursiveBindings bs) (fun ps => ∀ p ∈ ps, p.2.isWhole = true) (LocatedIn root) := by
  induction bs with
  | nil => exact .pure (by simp)
  | cons b bs ih =>
    obtain ⟨hb, hbs⟩ := List.forall_mem_cons.1 hbs
    refine .bind (ends_recursiveBinding hroot hin hb) fun p hp => ?_
    refine .bind (ih hbs) fun ps hps => ?_
    exact .pure (List.forall_mem_cons.2 ⟨hp, hps⟩)

mutual

/-- An expression inside a well-formed one has a whole type or a fault of the well-formed one. -/
theorem ends_typeOf (hroot : root.WellFormed) {Γ : Scope} (hΓ : Γ.IsWhole) (depth : Nat)
    (e : Expr) (he : Inside e root) :
    Ends (typeOf Γ depth e) (fun t => t.isWhole = true) (LocatedIn root) := by
  have hproper : e.Proper := hroot e he
  have hchild : ∀ c ∈ e.children, Inside c root := fun c hc => .of_mem_children hc he
  rw [typeOf.eq_def]
  refine .after_note ?_
  cases e with
  | missing => cases hproper
  | number | boolean | string => exact .pure rfl
  | quoted mark v span =>
    obtain ⟨t, ht⟩ := Value.exists_typeOf true hproper
    simp only [ht]
    exact .pure (Value.isGround_of_typeOf ht).whole
  | primitive token =>
    obtain ⟨-, signature, -, hsignature, -⟩ := hproper
    obtain ⟨params, result, rfl, hs⟩ := Primitive.signature?_eq_some hsignature
    simp only [hsignature]
    exact .numbered fun n => Ty.isWhole_bind hs.whole fun _ _ => rfl
  | var token =>
    simp only [Check.lookup]
    cases hlookup : Γ.lookup token.text with
    | none => exact .fault (.unbound he)
    | some t => exact .pure (hΓ _ t hlookup)
  | cond s test consequent alternative =>
    have htest : Inside test root := hchild _ (by simp [children])
    have hconsequent : Inside consequent root := hchild _ (by simp [children])
    have halternative : Inside alternative root := hchild _ (by simp [children])
    refine .bind (ends_typeOf hroot hΓ _ test htest) fun t ht => ?_
    refine .bind (ends_require htest rfl ht) fun _ _ => ?_
    refine .bind (ends_typeOf hroot hΓ _ consequent hconsequent) fun u hu => ?_
    refine .bind (ends_typeOf hroot hΓ _ alternative halternative) fun v hv => ?_
    exact .bind (ends_require halternative hu hv) fun _ _ => .pure hu
  | lambda s params result body =>
    obtain ⟨-, hparams, hresult⟩ := hproper
    refine .bind (ends_typeOfBody hroot (hΓ.extend (isWhole_bindings hparams)) _ _ he body hchild
      fun hnil => by simp [body?, hnil]) fun t ht => ?_
    refine .bind (ends_require he hresult ht) fun _ _ => ?_
    exact .pure (isWhole_procType hparams hresult)
  | app span operator operands =>
    obtain ⟨hoperator, hoperands⟩ := List.forall_mem_cons.1 hchild
    refine .bind (ends_typeOf hroot hΓ _ operator hoperator) fun t ht => ?_
    cases t with
    | absent | base | var | pair => exact .fault (.notProcedure he ht)
    | proc params result =>
      obtain ⟨hparams, hresult⟩ := Ty.isWhole_proc.1 ht
      by_cases hlen : params.length = operands.length
      · simp only [hlen, ↓reduceIte]
        -- The new variables of a copy are whole, and so is the copy.
        refine .bind (P := fun fresh => ∀ x, (fresh x).isWhole = true) (.numbered fun _ _ => rfl)
          fun fresh hfresh => ?_
        have hcopies : ∀ q ∈ Ty.bindAll fresh params, q.isWhole = true := by
          intro q hq
          rw [Ty.bindAll_eq_map] at hq
          obtain ⟨p, hp, rfl⟩ := List.mem_map.1 hq
          exact Ty.isWhole_bind (hparams p hp) fun x _ => hfresh x
        refine .bind (ends_matchOperands hroot hΓ _ .empty _ hcopies operands hoperands)
          fun s hs => .pure ?_
        exact Substitution.isWhole_apply hs.isWhole (Ty.isWhole_bind hresult fun x _ => hfresh x)
      · simp only [hlen, ↓reduceIte]
        exact .fault (.arity he ht hlen)
  | letin s bindings body =>
    have hbody : ∀ c ∈ body, Inside c root := fun c hc => hchild c (List.mem_append_right _ hc)
    have hvalues : ∀ b ∈ bindings, Inside b.2 root :=
      fun b hb => hchild b.2 (List.mem_append_left _ (List.mem_map_of_mem hb))
    refine .bind (ends_typeOfBindings hroot hΓ _ bindings hproper.2 hvalues) fun bs hbs => ?_
    exact ends_typeOfBody hroot (hΓ.extend hbs) _ _ he body hbody fun hnil => by simp [body?, hnil]
  | letrec s bindings body =>
    have hbody : ∀ c ∈ body, Inside c root := fun c hc => hchild c (List.mem_append_right _ hc)
    have hvalues : ∀ b ∈ bindings, Inside b.2 root :=
      fun b hb => hchild b.2 (List.mem_append_left _ (List.mem_map_of_mem hb))
    refine .bind (ends_recursiveBindings hroot he fun _ hb => hb) fun bs hbs => ?_
    refine .bind (ends_checkProcedures hroot (hΓ.extend hbs) _ bindings hvalues) fun _ _ => ?_
    exact ends_typeOfBody hroot (hΓ.extend hbs) _ _ he body hbody fun hnil => by simp [body?, hnil]
  | define span decl value => exact .fault (.nestedDefine he)
  | program forms => cases hproper

/-- The check of a body fails with an error of an expression around it or inside of it, or finds a
whole type. -/
theorem ends_typeOfBody (hroot : root.WellFormed) {Γ : Scope} (hΓ : Γ.IsWhole) (depth : Nat)
    (owner : Expr) (howner : Inside owner root) (es : List Expr) (hes : ∀ e ∈ es, Inside e root)
    (hempty : es = [] → owner.body? = some []) :
    Ends (typeOfBody Γ depth owner es) (fun t => t.isWhole = true) (LocatedIn root) := by
  match es with
  | [] => exact .fault (.emptyBody howner (hempty rfl))
  | [e] => exact ends_typeOf hroot hΓ _ e (hes e List.mem_cons_self)
  | e :: f :: es =>
    obtain ⟨he, hes⟩ := List.forall_mem_cons.1 hes
    refine .bind (ends_typeOf hroot hΓ _ e he) fun _ _ => ?_
    exact ends_typeOfBody hroot hΓ _ owner howner (f :: es) hes fun h => by cases h

/-- Operands fail with an error located in the expression, or make bindings that can be reached. -/
theorem ends_matchOperands (hroot : root.WellFormed) {Γ : Scope} (hΓ : Γ.IsWhole) (depth : Nat)
    {s : Substitution} (hs : s.Reachable) (params : List Ty)
    (hparams : ∀ p ∈ params, p.isWhole = true) (es : List Expr) (hes : ∀ e ∈ es, Inside e root) :
    Ends (matchOperands Γ depth s params es) Substitution.Reachable (LocatedIn root) := by
  match params, es with
  | [], [] | [], _ :: _ | _ :: _, [] => exact .pure hs
  | p :: params, e :: es =>
    obtain ⟨he, hes⟩ := List.forall_mem_cons.1 hes
    obtain ⟨hp, hparams⟩ := List.forall_mem_cons.1 hparams
    refine .bind (ends_typeOf hroot hΓ _ e he) fun t ht => ?_
    have hs' : (s.unify p t).2.Reachable := .unify hs hp ht
    have hne := hs.apply_ne_apply_of_unify hp ht
    generalize s.unify p t = r at hs' hne
    obtain ⟨ok, s'⟩ := r
    cases ok with
    | true => exact ends_matchOperands hroot hΓ _ hs' params hparams es hes
    | false =>
      exact .fault (.mismatch he (Substitution.isWhole_apply hs'.isWhole hp)
        (Substitution.isWhole_apply hs'.isWhole ht) (hne rfl))

theorem ends_typeOfBindings (hroot : root.WellFormed) {Γ : Scope} (hΓ : Γ.IsWhole) (depth : Nat)
    (bs : List (Decl × Expr)) (hproper : ∀ b ∈ bs, b.1.IsProper true)
    (hvalues : ∀ b ∈ bs, Inside b.2 root) :
    Ends (typeOfBindings Γ depth bs) (fun ps => ∀ p ∈ ps, p.2.isWhole = true)
      (LocatedIn root) := by
  match bs with
  | [] => exact .pure (by simp)
  | (decl, value) :: rest =>
    obtain ⟨hdecl, hproper⟩ := List.forall_mem_cons.1 hproper
    obtain ⟨hvalue, hvalues⟩ := List.forall_mem_cons.1 hvalues
    have hbound := hdecl.isWhole_boundType
    refine .bind (ends_typeOf hroot hΓ _ value hvalue) fun t ht => ?_
    refine .bind (ends_require hvalue hbound ht) fun _ _ => ?_
    refine .bind (ends_typeOfBindings hroot hΓ _ rest hproper hvalues) fun ps hps => ?_
    exact .pure (List.forall_mem_cons.2 ⟨hbound, hps⟩)

theorem ends_checkProcedures (hroot : root.WellFormed) {Γ : Scope} (hΓ : Γ.IsWhole) (depth : Nat)
    (bs : List (Decl × Expr)) (hvalues : ∀ b ∈ bs, Inside b.2 root) :
    Ends (checkProcedures Γ depth bs) (fun _ => True) (LocatedIn root) := by
  match bs with
  | [] => exact .pure trivial
  | (decl, value) :: rest =>
    obtain ⟨hvalue, hvalues⟩ := List.forall_mem_cons.1 hvalues
    have ih := ends_checkProcedures hroot hΓ depth rest hvalues
    cases value with
    | lambda s params result body =>
      obtain ⟨-, hparams, hresult⟩ := hroot _ hvalue
      have hbody : ∀ c ∈ body, Inside c root :=
        fun c hc => .of_mem_children (f := .lambda s params result body) hc hvalue
      refine .bind (ends_typeOfBody hroot (hΓ.extend (isWhole_bindings hparams)) _ _ hvalue body
        hbody fun hnil => by simp [body?, hnil]) fun t ht => ?_
      exact .bind (ends_require hvalue hresult ht) fun _ _ => ih
    | missing | number | boolean | string | quoted | primitive | var | cond | app | letin | letrec
    | define | program => exact ih

end

end Rules

/-! ## Forms and programs -/

/-- The expression that is typed for a form of a program: the value of a definition, or the form. -/
def subject : Expr → Expr
  | define _ _ value => value
  | e => e

theorem inside_subject (e : Expr) : Inside e.subject e := by
  cases e with
  | define span decl value => exact .child List.mem_cons_self .refl
  | missing | number | boolean | string | quoted | primitive | var | cond | lambda | app | letin
  | letrec | program => exact .refl

theorem ends_typeOfForm {form : Expr} (hform : form.WellFormed) {Γ : Scope} (hΓ : Γ.IsWhole)
    (depth : Nat) :
    Ends (typeOfForm Γ depth form) (fun r => r.1.isWhole = true ∧ r.2.IsWhole)
      (LocatedIn form.subject) := by
  have hsubject : form.subject.WellFormed := fun f hf => hform f (hf.trans form.inside_subject)
  cases form with
  | define span decl value =>
    have hbound : decl.boundType.isWhole = true := (hform _ .refl).isWhole_boundType
    refine .after_note (.bind (ends_typeOf hsubject hΓ _ value .refl) fun t ht => ?_)
    refine .bind (ends_require .refl hbound ht) fun _ _ => ?_
    exact .pure ⟨rfl, hΓ.extend (by simpa using hbound)⟩
  | missing | number | boolean | string | quoted | primitive | var | cond | lambda | app | letin
  | letrec | program =>
    exact .bind (ends_typeOf hsubject hΓ _ _ .refl) fun t ht => .pure ⟨ht, hΓ⟩

/-- A program is without any form, or one of its forms is at fault. -/
def FaultOf (forms : List Expr) (f : TypeFault) : Prop :=
  (forms = [] ∧ f = .emptyProgram) ∨ ∃ form ∈ forms, f.ArisesIn form.subject

/-- A program is without any form, or an error is in one of its forms. -/
def LocatedAmong (forms : List Expr) (e : TypeError) : Prop :=
  (forms = [] ∧ e = ⟨.emptyProgram, .absent⟩) ∨ ∃ form ∈ forms, e.LocatedIn form.subject

/-- Forms fail with an error of one of them, or find a whole type and leave the scope whole. -/
theorem ends_typeOfForms {forms : List Expr} (hforms : ∀ form ∈ forms, form.WellFormed)
    {Γ : Scope} (hΓ : Γ.IsWhole) (depth : Nat) :
    Ends (typeOfForms Γ depth forms) (fun r => r.1.isWhole = true ∧ r.2.IsWhole)
      (LocatedAmong forms) := by
  induction forms generalizing Γ with
  | nil => exact .fault (.inl ⟨rfl, rfl⟩)
  | cons form rest ih =>
    obtain ⟨hform, hrest⟩ := List.forall_mem_cons.1 hforms
    have hhead := (ends_typeOfForm hform hΓ depth).mono (fun _ hr => hr)
      fun e (he : e.LocatedIn form.subject) =>
        (.inr ⟨form, List.mem_cons_self, he⟩ : LocatedAmong (form :: rest) e)
    cases rest with
    | nil =>
      rw [typeOfForms_singleton]
      exact hhead
    | cons next rest =>
      rw [typeOfForms_cons_cons]
      refine .bind hhead fun r hr => (ih hrest hr.2).mono (fun _ hr => hr) fun e he => ?_
      -- There are forms left, so the error is in one of them.
      rcases he with ⟨hnil, -⟩ | ⟨g, hg, he⟩
      · cases hnil
      · exact .inr ⟨g, List.mem_cons_of_mem form hg, he⟩

theorem LocatedAmong.faultOf {forms : List Expr} {e : TypeError} (h : LocatedAmong forms e) :
    FaultOf forms e.fault := by
  rcases h with ⟨hnil, rfl⟩ | ⟨form, hform, he⟩
  · exact .inl ⟨hnil, rfl⟩
  · exact .inr ⟨form, hform, e.span, he⟩

/-- What a form must not do is the only reason for which it is not supported. -/
theorem FaultOf.unsupported {forms : List Expr} {f : TypeFault} (h : FaultOf forms f)
    (hkind : f.kind = .unsupported) :
    (∃ form ∈ forms, ∃ span decl value, Inside (.define span decl value) form.subject ∧
      f = .nestedDefine (.define span decl value)) ∨
    ∃ form ∈ forms, ∃ span bindings body, Inside (.letrec span bindings body) form ∧
      ∃ b ∈ bindings, b.2.isLambda = false ∧ f = .letrecValue b.2 := by
  rcases h with ⟨-, rfl⟩ | ⟨form, hform, span, hf⟩
  · cases hkind
  · cases hf with
    | nestedDefine hin => exact .inl ⟨form, hform, _, _, _, hin, rfl⟩
    | letrecValue hin hb hvalue =>
      exact .inr ⟨form, hform, _, _, _, hin.trans form.inside_subject, _, hb, hvalue, rfl⟩
    | unbound | mismatch | notProcedure | arity | emptyBody => cases hkind

/-- A structural fault is a program without forms or a body without expressions. -/
theorem FaultOf.structural {forms : List Expr} {f : TypeFault} (h : FaultOf forms f)
    (hkind : f.kind = .structural) :
    (forms = [] ∧ f = .emptyProgram) ∨
    ∃ form ∈ forms, ∃ owner, Inside owner form ∧ owner.body? = some [] ∧ f = .emptyBody owner := by
  rcases h with hempty | ⟨form, hform, span, hf⟩
  · exact .inl hempty
  · cases hf with
    | emptyBody hin hbody =>
      exact .inr ⟨form, hform, _, hin.trans form.inside_subject, hbody, rfl⟩
    | unbound | mismatch | notProcedure | arity | nestedDefine | letrecValue => cases hkind

end Expr

/-! ## Names and types in equal numbers -/

/-- Bindings with the names that are expected give a type to each of them. -/
theorem Scope.extendZip_of_names (Γ : Scope) {names : List String} {bindings : List (String × Ty)}
    (h : bindings.map Prod.fst = names) :
    Γ.extendZip names (bindings.map Prod.snd) = .ok (Γ.extend bindings) := by
  subst h
  rw [extendZip, if_pos (by simp), List.zip_map']
  simp

namespace Expr

/-- Where a scope is extended to check the parts of a form, or the forms after a definition, there is a
type for every name: for the parameters of a procedure, for the bindings of a `let` or `letrec` form
once they are checked, and for what is defined. -/
def ExtendsEvenly (Γ : Scope) : Expr → Prop
  | lambda _ params _ _ =>
    Γ.extendZip (params.map Param.name) (params.map Param.ty) = .ok (Γ.extend (Param.bindings params))
  | letin _ bindings _ => ∀ depth, (typeOfBindings Γ depth bindings).Ensures fun bs =>
    Γ.extendZip (boundNames bindings) (bs.map Prod.snd) = .ok (Γ.extend bs)
  | letrec _ bindings _ => (recursiveBindings bindings).Ensures fun bs =>
    Γ.extendZip (boundNames bindings) (bs.map Prod.snd) = .ok (Γ.extend bs)
  | define _ decl _ =>
    Γ.extendZip [decl.name] [decl.boundType] = .ok (Γ.extend [(decl.name, decl.boundType)])
  | _ => True

/-- Wherever the checker extends a scope, there are as many types as names. -/
theorem extendsEvenly (Γ : Scope) (e : Expr) : e.ExtendsEvenly Γ := by
  cases e with
  | lambda span params result body =>
    have htypes : (Param.bindings params).map Prod.snd = params.map Param.ty := by
      rw [Param.bindings, List.map_map]
      rfl
    rw [ExtendsEvenly, ← htypes]
    exact Γ.extendZip_of_names (Param.map_fst_bindings params)
  | letin span bindings body =>
    intro depth σ bs hbs
    exact Γ.extendZip_of_names (names_of_typeOfBindings Γ depth bindings σ bs hbs)
  | letrec span bindings body =>
    intro σ bs hbs
    exact Γ.extendZip_of_names (names_of_recursiveBindings bindings σ bs hbs)
  | define span decl value =>
    exact @Scope.extendZip_of_names Γ _ [(decl.name, decl.boundType)] rfl
  | missing | number | boolean | string | quoted | primitive | var | cond | app | program => trivial

end Expr

namespace Program

/-- A parsed program is well formed, and checking it never breaks off: every operator in it has a
signature that can be read, wherever a scope is extended there are as many types as names, and every type
that the check comes by can be written out. It is not supported only if a definition stands inside another
form or if something else than a procedure is bound recursively, and it lacks something only if it has
no form or a form without a body. -/
theorem check_of_parse {source : String} {k k' : Nat} {p : Program}
    (h : (parse source).runFrom k = (.ok p, k')) (last : Nat) (tracing : Bool) :
    (∀ form ∈ p.forms, ∀ e, Expr.Inside e form → e.Proper) ∧
    (∀ form ∈ p.forms, ∀ e, Expr.Inside e form → ∀ Γ, e.ExtendsEvenly Γ) ∧
    match ((p.check Scope.empty).runFrom last tracing).result with
    | .ok (t, Γ) => t.isWhole = true ∧ Γ.IsWhole
    | .error e =>
      Expr.FaultOf p.forms e.fault ∧
      (e.kind = .unsupported →
        (∃ form ∈ p.forms, ∃ span decl value, Expr.Inside (.define span decl value) form.subject ∧
          e.fault = .nestedDefine (.define span decl value)) ∨
        ∃ form ∈ p.forms, ∃ span bindings body, Expr.Inside (.letrec span bindings body) form ∧
          ∃ b ∈ bindings, b.2.isLambda = false ∧ e.fault = .letrecValue b.2) ∧
      (e.kind = .structural →
        (p.forms = [] ∧ e.fault = .emptyProgram) ∨
        ∃ form ∈ p.forms, ∃ owner, Expr.Inside owner form ∧ owner.body? = some [] ∧
          e.fault = .emptyBody owner) := by
  obtain ⟨ds, -, hforms⟩ := parse_eq_ok_iff.1 h
  have hwf : ∀ form ∈ p.forms, form.WellFormed := hforms.wellFormed
  have hempty : Scope.empty.IsWhole := fun name t ht => by cases ht
  have hcheck := Expr.ends_typeOfForms hwf hempty 0 ⟨last, tracing, []⟩
  refine ⟨hwf, fun _ _ e _ Γ => e.extendsEvenly Γ, ?_⟩
  split
  · next t Γ hresult => exact hcheck.1 (t, Γ) hresult
  · next e hresult =>
    have hfault := (hcheck.2 e hresult).faultOf
    exact ⟨hfault, hfault.unsupported, hfault.structural⟩

/-- A definition in the body of a procedure. -/
theorem check_of_parse_nestedDefine :
    ∃ p e, ((parse "(lambda ((x : T)) : T (define (y : T) x))").runFrom 0).1 = .ok p ∧
      ((p.check Scope.empty).runFrom 1 true).result = .error e ∧ e.kind = .unsupported ∧
      (∀ form ∈ p.forms, form.WellFormed) ∧
      ((∃ form ∈ p.forms, ∃ span decl value, Expr.Inside (.define span decl value) form.subject ∧
          e.fault = .nestedDefine (.define span decl value)) ∨
        ∃ form ∈ p.forms, ∃ span bindings body, Expr.Inside (.letrec span bindings body) form ∧
          ∃ b ∈ bindings, b.2.isLambda = false ∧ e.fault = .letrecValue b.2) := by
  -- The kind of the error is computed, and what it comes from follows.
  have hrun : ((parse "(lambda ((x : T)) : T (define (y : T) x))").runFrom 0).1.toOption.bind (fun p =>
      (error? ((p.check Scope.empty).runFrom 1 true).result).map TypeError.kind) =
        some .unsupported := by decide +kernel
  obtain ⟨p, k', hparse, herror⟩ := exists_of_toOption_bind hrun
  obtain ⟨e, he, hkind⟩ := Option.map_eq_some_iff.1 herror
  have hresult := error?_eq_some_iff.1 he
  have hcheck := check_of_parse hparse 1 true
  rw [hresult] at hcheck
  exact ⟨p, e, by rw [hparse], hresult, hkind, hcheck.1, hcheck.2.2.2.1 hkind⟩

end Program

end TypedScheme
