import TypedScheme.Proofs.Ty.Unification
import TypedScheme.Proofs.Typing.Derivations

/-!
# The types that are kept

Where the checker keeps one type in place of another, it has only matched the two and let go of the
bindings. What it has made sure of is that some replacement of variables makes them equal. So a kept
type without variables is an instance of the computed one, but a kept type with variables may promise
more than the computed one has.

## What this module delivers

- `Ty.IsInstanceOf` and `Ty.Unifiable`, with what matching says about them.
- `Expr.keeps_unifiable_of_typeOf`: in the derivation of an accepted expression or program, a kept type
  and the computed one are unifiable, and a kept type without variables is an instance of the computed
  one.
- `Expr.not_keeps_instance_of_typeOf`: at each of the five places, a form that is accepted although the
  kept type is not an instance of the computed one.
-/

set_option autoImplicit false

namespace TypedScheme

namespace Ty

/-- A type is what another one becomes if its variables are replaced. -/
def IsInstanceOf (t u : Ty) : Prop := ∃ θ : Nat → Ty, u.bind θ = t

/-- One replacement of variables makes two types equal. -/
def Unifiable (t u : Ty) : Prop := ∃ θ : Nat → Ty, t.bind θ = u.bind θ

/-- Types that agree can be made equal. -/
theorem unifiable_of_agrees {t u : Ty} (h : t.agrees u = true) : t.Unifiable u := by
  -- The replacement is made of the bindings that the match has found and that are not kept.
  have heq := Substitution.apply_eq_apply_of_unify .nil h
  rw [Substitution.apply_eq_bind _ t, Substitution.apply_eq_bind _ u] at heq
  exact ⟨_, heq⟩

/-- A type without variables is an instance of all that it is unifiable with. -/
theorem Unifiable.isInstanceOf {t u : Ty} (h : t.Unifiable u) (ht : t.vars = []) :
    t.IsInstanceOf u := by
  obtain ⟨θ, hθ⟩ := h
  exact ⟨θ, by rw [← hθ, bind_of_vars_eq_nil ht]⟩

/-- An instance of a type without variables is the type itself. -/
theorem IsInstanceOf.eq {t u : Ty} (h : t.IsInstanceOf u) (hu : u.vars = []) : t = u := by
  obtain ⟨θ, rfl⟩ := h
  exact bind_of_vars_eq_nil hu θ

end Ty

namespace Expr

open Check

/-- What the checker makes sure of when it keeps one type in place of another. -/
def Justified (kept computed : Ty) : Prop :=
  kept.Unifiable computed ∧ (kept.vars = [] → kept.IsInstanceOf computed)

/-- A type that is kept by the checker is justified. -/
theorem justified_of_matching (kept computed : Ty) (h : Matching kept computed) :
    Justified kept computed :=
  have hunifiable := Ty.unifiable_of_agrees h
  ⟨hunifiable, hunifiable.isInstanceOf⟩

/-- The type of an accepted expression or program has a derivation by the numbers that the checker gave
out, and whatever type is kept in it in place of a computed one is unifiable with that. A kept type
without variables is an instance of the computed one. -/
theorem keeps_unifiable_of_typeOf (Γ : Scope) (d last : Nat) (tracing : Bool) :
    (∀ e τ, ((typeOf Γ d e).runFrom last tracing).result = .ok τ →
      Derives Justified Γ last e τ ((typeOf Γ d e).runFrom last tracing).last) ∧
    ∀ forms τ Γ', ((typeOfForms Γ d forms).runFrom last tracing).result = .ok (τ, Γ') →
      FormsDerive Justified Γ last forms τ Γ' ((typeOfForms Γ d forms).runFrom last tracing).last := by
  constructor
  · intro e τ h
    exact ((counts_typeOf Γ d e ⟨last, tracing, []⟩ τ _).1 ⟨h, rfl⟩).mono justified_of_matching
  · intro forms τ Γ' h
    exact ((counts_typeOfForms Γ d forms ⟨last, tracing, []⟩ (τ, Γ') _).1 ⟨h, rfl⟩).mono
      justified_of_matching

/-- A procedure for all types is bound, and then defined, with a declared type for numbers. -/
theorem keeps_unifiable_of_typeOf_identity :
    let name (text : String) : Token := ⟨.symbol, .absent, text⟩
    let identity := lambda .absent [⟨name "x", .var 1, .absent⟩] (.var 1) [var (name "x")]
    let declared := Ty.proc [.base .number] (.base .number)
    let f : Decl := ⟨name "f", some declared, .absent⟩
    let e := letin .absent [(f, identity)] [var f.token]
    let forms := [define .absent f identity, var f.token]
    ((typeOf .empty 0 e).runFrom 1 false).result = .ok declared ∧
      Derives Justified .empty 1 e declared 1 ∧
      ((typeOfForms .empty 0 forms).runFrom 1 false).result = .ok (declared, [[("f", declared)]]) ∧
      FormsDerive Justified .empty 1 forms declared [[("f", declared)]] 1 := by
  intro name identity declared f e forms
  obtain ⟨hexpr, hforms⟩ := keeps_unifiable_of_typeOf .empty 0 1 false
  exact ⟨rfl, hexpr e declared rfl, rfl, hforms forms declared _ rfl⟩

/-! ## Kept types that promise too much -/

section Inversion

variable {Keeps : Ty → Ty → Prop} {Γ : Scope} {n n' : Nat} {span : Span} {τ : Ty}

/-- A procedure keeps its declared result for what its body computes. -/
theorem exists_of_derives_lambda {params : List Param} {result : Ty} {body : List Expr}
    (h : Derives Keeps Γ n (lambda span params result body) τ n') :
    τ = procType params result ∧ ∃ computed,
      BodyDerives Keeps (Γ.extend (Param.bindings params)) n body computed n' ∧
      Keeps result computed := by
  cases h with
  | lambda hbody hkeeps => exact ⟨rfl, _, hbody, hkeeps⟩

theorem exists_derives_operator {operator : Expr} {operands : List Expr}
    (h : Derives Keeps Γ n (app span operator operands) τ n') :
    ∃ σ m, Derives Keeps Γ n operator σ m := by
  cases h with
  | app h _ _ => exact ⟨_, _, h⟩

/-- The first operand of an application has a derivation. -/
theorem exists_derives_operand {operator e : Expr} {es : List Expr}
    (h : Derives Keeps Γ n (app span operator (e :: es)) τ n') :
    ∃ m σ m', Derives Keeps Γ m e σ m' := by
  cases h with
  | app _ _ hs =>
    -- The parameter types are forgotten so that the rules for operands can be told apart.
    generalize Ty.bindAll _ _ = params at hs
    cases hs with
    | cons h _ _ => exact ⟨_, _, _, h⟩

/-- A binding keeps its declared type for what its value computes. -/
theorem exists_derives_bound {decl : Decl} {value : Expr} {rest : List (Decl × Expr)}
    {body : List Expr} (h : Derives Keeps Γ n (letin span ((decl, value) :: rest) body) τ n') :
    ∃ computed m, Derives Keeps Γ n value computed m ∧ Keeps decl.boundType computed := by
  cases h with
  | letin hβs _ =>
    cases hβs with
    | cons hvalue hkeeps _ => exact ⟨_, _, hvalue, hkeeps⟩

/-- A definition keeps its declared type for what its value computes. -/
theorem exists_derives_defined {decl : Decl} {value : Expr} {rest : List Expr}
    (h : Derives Keeps Γ n (program (define span decl value :: rest)) τ n') :
    ∃ computed m, Derives Keeps Γ n value computed m ∧ Keeps decl.boundType computed := by
  have hform : ∃ σ Γ' m, FormDerives Keeps Γ n (define span decl value) σ Γ' m := by
    cases h with
    | program hforms =>
      cases hforms with
      | last hform => exact ⟨_, _, _, hform⟩
      | cons hform _ => exact ⟨_, _, _, hform⟩
  obtain ⟨σ, Γ', m, hform⟩ := hform
  cases hform with
  | define hvalue hkeeps => exact ⟨_, _, hvalue, hkeeps⟩
  | expression h => cases h

theorem exists_bodyDerives_procedure {decl : Decl} {inner : Span} {params : List Param}
    {result : Ty} {procBody body : List Expr} {rest : List (Decl × Expr)}
    (h : Derives Keeps Γ n
      (letrec span ((decl, lambda inner params result procBody) :: rest) body) τ n') :
    ∃ Γ' computed m, BodyDerives Keeps Γ' n procBody computed m ∧ Keeps result computed := by
  cases h with
  | letrec _ hprocedures _ =>
    cases hprocedures with
    | cons hbody hkeeps _ => exact ⟨_, _, _, hbody, hkeeps⟩

theorem eq_of_derives_string {t : Token} {s : Text.Pieces}
    (h : Derives Keeps Γ n (string t s) τ n') : τ = .base .string := by
  cases h
  rfl

theorem eq_of_bodyDerives_string {t : Token} {s : Text.Pieces}
    (h : BodyDerives Keeps Γ n [string t s] τ n') : τ = .base .string := by
  cases h with
  | last h => exact eq_of_derives_string h
  | cons _ h => cases h

end Inversion

/-- No type variable is an instance of the type of a string. -/
theorem not_isInstanceOf_string {x : Nat} : ¬(Ty.var x).IsInstanceOf (.base .string) :=
  fun h => nomatch h.eq rfl

/-- For each of the five places, a form without free variables that is accepted although the type kept
there is not an instance of the computed one. All of them take a string for a number: the first applies
a procedure for numbers to a string, the others add one to it. -/
theorem not_keeps_instance_of_typeOf :
    let name (text : String) : Token := ⟨.symbol, .absent, text⟩
    let a := string ⟨.string, .absent, "\"a\""⟩ (Text.Pieces.ofString "a")
    let one := number ⟨.number, .absent, "1"⟩ ⟨0x3FF0000000000000⟩
    let increment (e : Expr) := app .absent (primitive (name "+")) [e, one]
    let identity (t : Ty) := lambda .absent [⟨name "y", t, .absent⟩] t [var (name "y")]
    let constant := lambda .absent [] (.var 1) [a]
    let x : Decl := ⟨name "x", some (.var 1), .absent⟩
    let f : Decl := ⟨name "f", none, .absent⟩
    let alternative := app .absent (cond .absent (boolean ⟨.boolean, .absent, "#f"⟩ false)
      (identity (.var 1)) (identity (.base .number))) [a]
    let bound := letin .absent [(x, a)] [increment (var x.token)]
    let defined := program [define .absent x a, increment (var x.token)]
    let result := increment (app .absent constant [])
    let recursive := letrec .absent [(f, constant)] [increment (app .absent (var f.token) [])]
    ∀ p ∈ [(alternative, Ty.base .string), (bound, .base .number), (defined, .base .number),
        (result, .base .number), (recursive, .base .number)],
      ((typeOf .empty 0 p.1).runFrom 1 false).result = .ok p.2 ∧
        ∀ τ n', ¬Derives Ty.IsInstanceOf .empty 1 p.1 τ n' := by
  intro name a one increment identity constant x f alternative bound defined result recursive
  simp only [List.forall_mem_cons, List.not_mem_nil, false_imp_iff, implies_true, and_true]
  refine ⟨⟨rfl, fun τ n' h => ?_⟩, ⟨rfl, fun τ n' h => ?_⟩, ⟨rfl, fun τ n' h => ?_⟩,
    ⟨rfl, fun τ n' h => ?_⟩, ⟨rfl, fun τ n' h => ?_⟩⟩
  · -- A procedure for all types is kept in place of one for numbers.
    obtain ⟨σ, m, hcond⟩ := exists_derives_operator h
    cases hcond with
    | cond _ _ hu hv hkeeps =>
      obtain ⟨rfl, -⟩ := exists_of_derives_lambda hu
      obtain ⟨rfl, -⟩ := exists_of_derives_lambda hv
      have heq := hkeeps.eq rfl
      injection heq with hparams hresult
      injection hresult
  · -- In all other forms a type variable is kept in place of the type of a string.
    obtain ⟨computed, m, hvalue, hkeeps⟩ := exists_derives_bound h
    rw [eq_of_derives_string hvalue] at hkeeps
    exact not_isInstanceOf_string hkeeps
  · obtain ⟨computed, m, hvalue, hkeeps⟩ := exists_derives_defined h
    rw [eq_of_derives_string hvalue] at hkeeps
    exact not_isInstanceOf_string hkeeps
  · obtain ⟨m, σ, m', happ⟩ := exists_derives_operand h
    obtain ⟨σ, m, hoperator⟩ := exists_derives_operator happ
    obtain ⟨-, computed, hbody, hkeeps⟩ := exists_of_derives_lambda hoperator
    rw [eq_of_bodyDerives_string hbody] at hkeeps
    exact not_isInstanceOf_string hkeeps
  · obtain ⟨Γ', computed, m, hbody, hkeeps⟩ := exists_bodyDerives_procedure h
    rw [eq_of_bodyDerives_string hbody] at hkeeps
    exact not_isInstanceOf_string hkeeps

end Expr

end TypedScheme
