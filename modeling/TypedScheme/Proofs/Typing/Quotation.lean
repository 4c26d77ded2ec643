import TypedScheme.Proofs.Typing.Adequacy
import TypedScheme.Proofs.Typing.Faults
import TypedScheme.Proofs.Typing.FreeVariables

/-!
# Quoted pairs and built pairs

A pair can be written as a quoted literal, or it can be built with `cons` from its parts. The literal is
typed by a walk over the value. The expression that builds the pair is typed like any other: at every
`cons` a copy of the signature is matched against the types of the two operands. Both ways lead to the
same type.

## What this module delivers

- `Expr.Builds v e`: the expression `e` builds the value `v` from literals with `cons`.
- `Expr.exists_builds_iff`: there is such an expression for every value that is complete, and for no
  other.
- `Expr.Builds.hasType`: the rules give it the type that the value has inside of a pair, in every scope.
- `Expr.typeOf_quoted_eq_typeOf_built`: the checker finds the same ground type for a quoted pair and for
  every expression that builds it.
-/

set_option autoImplicit false

namespace TypedScheme.Expr

open Check Ty

/-- An expression builds a value: pairs with `cons`, numbers, booleans and strings as plain literals, and
symbols and the empty list as quoted ones. -/
inductive Builds : Value → Expr → Prop
  | number {t : Token} {n : Binary64} : Builds (.number n) (number t n)
  | boolean {t : Token} {b : Bool} : Builds (.boolean b) (boolean t b)
  | string {t : Token} {s : Text.Pieces} : Builds (.string s) (string t s)
  | symbol {mark : Token} {name : String} {span : Span} :
      Builds (.symbol name) (quoted mark (.symbol name) span)
  | empty {mark : Token} {span : Span} : Builds .empty (quoted mark .empty span)
  | pair {a d : Value} {car cdr : Expr} {t : Token} {span : Span} :
      t.text = "cons" → Builds a car → Builds d cdr →
      Builds (.pair a d) (app span (primitive t) [car, cdr])

/-- Every value without gaps can be built, and only those. -/
theorem exists_builds_iff {v : Value} : (∃ e, Builds v e) ↔ v.isComplete = true := by
  constructor
  · rintro ⟨e, h⟩
    induction h with
    | number | boolean | string | symbol | empty => rfl
    | pair _ _ _ iha ihd => exact (Bool.and_eq_true _ _).mpr ⟨iha, ihd⟩
  · intro h
    let word (text : String) : Token := ⟨.symbol, .absent, text⟩
    induction v with
    | missing => cases h
    | number n => exact ⟨_, .number (t := word n.render)⟩
    | boolean b => exact ⟨_, .boolean (t := word (Value.renderBoolean b))⟩
    | string s => exact ⟨_, .string (t := word (Text.Quoted.pieces s))⟩
    | symbol name => exact ⟨_, @Builds.symbol (word "'") name .absent⟩
    | empty => exact ⟨_, @Builds.empty (word "'") .absent⟩
    | pair a d iha ihd =>
      obtain ⟨ha, hd⟩ := (Bool.and_eq_true _ _).mp h
      obtain ⟨car, hcar⟩ := iha ha
      obtain ⟨cdr, hcdr⟩ := ihd hd
      exact ⟨_, @Builds.pair _ _ _ _ (word "cons") .absent rfl hcar hcdr⟩

namespace Builds

variable {v : Value} {e : Expr}

/-- By the rules, what builds a value has the type of the value inside of a pair. The signature of `cons`
is taken at the types of the two parts. -/
theorem hasType (h : Builds v e) {τ : Ty} (hv : v.HasType false τ) (Γ : Scope) : HasType Γ e τ := by
  induction h generalizing τ with
  | number =>
    cases hv
    exact .number
  | boolean =>
    cases hv
    exact .boolean
  | string =>
    cases hv
    exact .string
  | symbol =>
    cases hv
    exact .quoted .symbol
  | empty =>
    cases hv
    exact .quoted .empty
  | @pair a d car cdr t span hcons _ _ iha ihd =>
    cases hv with
    | @pair _ _ _ σ τ ha hd =>
      let θ : Nat → Ty := fun x => if x = 1 then σ else τ
      have hsignature : Primitive.signature? t.text =
          some (.proc [.var 1, .var 2] (.pair (.var 1) (.var 2))) := by
        rw [hcons]
        rfl
      exact .appPrimitive θ hsignature (.cons (iha ha) (.cons (ihd hd) .nil))

/-- What builds a value takes nothing from its scope and carries no types, and operators stand in it only
where they are applied. -/
theorem closed (h : Builds v e) :
    e.freeVars = [] ∧ e.annotations = [] ∧ e.primitivesApplied = true := by
  induction h with
  | number | boolean | string | symbol | empty => exact ⟨rfl, rfl, rfl⟩
  | pair _ _ _ iha ihd =>
    obtain ⟨hvars, htypes, happlied⟩ := iha
    obtain ⟨hvars', htypes', happlied'⟩ := ihd
    refine ⟨?_, ?_, ?_⟩
    · simp [freeVars, freeVarsAll, hvars, hvars']
    · simp [annotations, annotationsAll, htypes, htypes']
    · simp [primitivesApplied, primitivesAppliedAll, isPrimitive, happlied, happlied']

/-- The checker finds the type of a built value in every scope. The types in the scope need not be ground,
since no name is looked up. -/
theorem result_typeOf (h : Builds v e) {τ : Ty} (hv : v.HasType false τ) (Γ : Scope) (d last : Nat)
    (tracing : Bool) : ((typeOf Γ d e).runFrom last tracing).result = .ok τ := by
  obtain ⟨hvars, htypes, happlied⟩ := h.closed
  have hscope : typeOf Γ d e = typeOf .empty d e :=
    typeOf_congr d e fun x hx => by simp [hvars] at hx
  have hempty : Scope.Shows IsGround .empty := fun name t ht => by cases ht
  have hcarries : e.Carries IsGround := fun t ht => by simp [htypes] at ht
  rw [hscope]
  exact (decides_typeOf hempty d e hcarries happlied ⟨last, tracing, []⟩ τ).2 (h.hasType hv .empty)

end Builds

/-- A quoted pair has the same type as the expressions that build it with `cons`. The type has no
variables and depends on the pair alone: it is the same in all scopes and after all numbers. -/
theorem typeOf_quoted_eq_typeOf_built {a d : Value} (h : (Value.pair a d).isComplete = true) :
    (∃ e, Builds (.pair a d) e) ∧ ∃ τ : Ty, τ.vars = [] ∧
      ∀ (Γ : Scope) (depth last : Nat) (tracing : Bool),
        (∀ mark span, ((typeOf Γ depth (quoted mark (.pair a d) span)).runFrom last tracing).result =
          .ok τ) ∧
        ∀ e, Builds (.pair a d) e → ((typeOf Γ depth e).runFrom last tracing).result = .ok τ := by
  obtain ⟨τ, hτ⟩ := Value.exists_typeOf false h
  refine ⟨exists_builds_iff.2 h, τ, (Value.isGround_of_typeOf hτ).vars_eq_nil, ?_⟩
  intro Γ depth last tracing
  constructor
  · intro mark span
    -- A pair has the same type at the top of a quoted value and inside of it.
    have htop : (Value.pair a d).typeOf true = .ok τ := hτ
    rw [typeOf.eq_def]
    dsimp only
    rw [htop]
    rfl
  · intro e he
    exact he.result_typeOf (Value.typeOf_eq_ok_iff.1 hτ) Γ depth last tracing

/-- A pair of a pair and a symbol, in a scope where a variable has a type with a variable. -/
theorem typeOf_quoted_eq_typeOf_built_nested :
    let name (text : String) : Token := ⟨.symbol, .absent, text⟩
    let v := Value.pair (.pair (.boolean true) .empty) (.symbol "x")
    let e := app .absent (primitive (name "cons"))
      [app .absent (primitive (name "cons")) [boolean (name "#t") true, quoted (name "'") .empty .absent],
        quoted (name "'") (.symbol "x") .absent]
    let Γ : Scope := [[("x", .var 7)]]
    let τ := Ty.pair (.pair (.base .boolean) (.base .empty)) (.base .literal)
    v.isComplete = true ∧ Builds v e ∧
      ((typeOf Γ 0 (quoted (name "'") v .absent)).runFrom 7 false).result = .ok τ ∧
      ((typeOf Γ 0 e).runFrom 7 false).result = .ok τ := by
  intro name v e Γ τ
  have hcomplete : v.isComplete = true := rfl
  have hbuilds : Builds v e := .pair rfl (.pair rfl .boolean .empty) .symbol
  have hliteral : ((typeOf Γ 0 (quoted (name "'") v .absent)).runFrom 7 false).result = .ok τ := rfl
  obtain ⟨-, τ', -, hτ'⟩ := typeOf_quoted_eq_typeOf_built hcomplete
  obtain ⟨hquoted, hbuilt⟩ := hτ' Γ 0 7 false
  -- The expression is not evaluated: its type is that of the literal.
  obtain rfl : τ' = τ := Except.ok.inj ((hquoted (name "'") .absent).symm.trans hliteral)
  exact ⟨hcomplete, hbuilds, hliteral, hbuilt e hbuilds⟩

end TypedScheme.Expr
