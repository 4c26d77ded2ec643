import TypedScheme.Proofs.Typing.Forms

/-!
# Typing looks at free variables only

The names that an expression takes from its surroundings, by the scoping of the language: parameters
are known in the body of their procedure, `let` names in the body only, `letrec` names in the bound
procedures too, and a definition in the forms after it. Two scopes that say the same about these names,
however their frames are laid out, are the same for typing.

## What this module delivers

- `Expr.freeVars`, the free variables of an expression, with its companions for parts of expressions.
- `Scope.lookup_extend`, and what follows from it for scopes that agree on names.
- `Expr.typeOf_congr` and its companions, one rule of typing at a time: the check in one scope is the
  check in the other.
- `Expr.typeOf_eq_of_lookup_eq`: scopes that agree on the free variables have the same outcome, so that
  unused bindings, hidden bindings and the division into frames do not count.
-/

set_option autoImplicit false

namespace TypedScheme

/-! ## Free variables -/

namespace Expr

/-- Names without those that are bound. -/
def without (bound names : List String) : List String := names.filter fun x => !bound.contains x

theorem mem_without {bound names : List String} {x : String} :
    x ∈ without bound names ↔ x ∈ names ∧ x ∉ bound := by
  simp [without]

/-- The names that bindings bind. -/
def boundNames (bindings : List (Decl × Expr)) : List String := bindings.map fun b => b.1.name

/-- The name that a form defines for the forms after it. -/
def definedNames : Expr → List String
  | define _ decl _ => [decl.name]
  | _ => []

mutual

/-- The variables that an expression takes from its surroundings. -/
def freeVars : Expr → List String
  | missing => []
  | number _ _ => []
  | boolean _ _ => []
  | string _ _ => []
  | quoted _ _ _ => []
  | primitive _ => []
  | var t => [t.text]
  | cond _ test consequent alternative =>
    freeVars test ++ freeVars consequent ++ freeVars alternative
  | lambda _ params _ body => without (params.map Param.name) (freeVarsAll body)
  | app _ operator operands => freeVars operator ++ freeVarsAll operands
  | letin _ bindings body =>
    freeVarsBound bindings ++ without (boundNames bindings) (freeVarsAll body)
  | letrec _ bindings body =>
    without (boundNames bindings) (freeVarsBound bindings ++ freeVarsAll body)
  | define _ _ value => freeVars value
  | program forms => freeVarsOfForms forms

/-- The free variables of expressions in a row. -/
def freeVarsAll : List Expr → List String
  | [] => []
  | e :: es => freeVars e ++ freeVarsAll es

/-- The free variables of the values of bindings. -/
def freeVarsBound : List (Decl × Expr) → List String
  | [] => []
  | (_, value) :: rest => freeVars value ++ freeVarsBound rest

/-- The free variables of the forms of a program. -/
def freeVarsOfForms : List Expr → List String
  | [] => []
  | e :: rest => freeVars e ++ without e.definedNames (freeVarsOfForms rest)

end

end Expr

/-! ## Scopes that agree -/

/-- In bindings of distinct names every one of them can be looked up. -/
theorem lookup_eq_some_iff_mem {βs : List (String × Ty)} (hnodup : (βs.map Prod.fst).Nodup)
    {x : String} {t : Ty} : βs.lookup x = some t ↔ (x, t) ∈ βs := by
  induction βs with
  | nil => simp
  | cons β βs ih =>
    obtain ⟨y, u⟩ := β
    obtain ⟨hy, hnodup⟩ := List.nodup_cons.1 hnodup
    by_cases hxy : x = y
    · subst hxy
      have hmem : (x, t) ∉ βs := fun h => hy (List.mem_map.2 ⟨(x, t), h, rfl⟩)
      simp [hmem, eq_comm]
    · rw [List.lookup_cons, beq_false_of_ne hxy, List.mem_cons]
      simp [ih hnodup, hxy]

namespace Scope

/-- Two scopes say the same about names. -/
def AgreeOn (names : List String) (Γ₁ Γ₂ : Scope) : Prop := ∀ x ∈ names, Γ₁.lookup x = Γ₂.lookup x

variable {Γ Γ₁ Γ₂ : Scope} {names names' : List String} {bindings : List (String × Ty)} {x : String}

/-- A name means what the new frame says, and else what the scope says. -/
theorem lookup_extend (Γ : Scope) (bindings : List (String × Ty)) (x : String) :
    (Γ.extend bindings).lookup x = (bindings.reverse.lookup x).or (Γ.lookup x) := by
  rw [extend, lookup, Frame.ofBindings]
  cases bindings.reverse.lookup x <;> rfl

theorem lookup_reverse_eq_none_iff :
    bindings.reverse.lookup x = none ↔ x ∉ bindings.map Prod.fst := by
  rw [List.lookup_eq_none_iff]
  simp only [List.mem_reverse, bne_iff_ne, List.mem_map, not_exists, not_and, ne_eq]
  exact forall₂_congr fun p _ => not_congr eq_comm

theorem lookup_extend_of_not_mem (h : x ∉ bindings.map Prod.fst) :
    (Γ.extend bindings).lookup x = Γ.lookup x := by
  rw [lookup_extend, lookup_reverse_eq_none_iff.2 h, Option.none_or]

/-- What a scope says about the names of a new frame does not count any more. -/
theorem lookup_extend_congr (h : x ∉ bindings.map Prod.fst → Γ₁.lookup x = Γ₂.lookup x) :
    (Γ₁.extend bindings).lookup x = (Γ₂.extend bindings).lookup x := by
  rw [lookup_extend, lookup_extend]
  cases hx : bindings.reverse.lookup x with
  | some t => rfl
  | none => rw [h (lookup_reverse_eq_none_iff.1 hx)]

/-- Two frames say together what the frame with the bindings of both says. -/
theorem lookup_extend_extend (Γ : Scope) (bindings later : List (String × Ty)) (x : String) :
    ((Γ.extend bindings).extend later).lookup x = (Γ.extend (bindings ++ later)).lookup x := by
  rw [lookup_extend, lookup_extend, lookup_extend, List.reverse_append, List.lookup_append,
    Option.or_assoc]

theorem agreeOn_append :
    AgreeOn (names ++ names') Γ₁ Γ₂ ↔ AgreeOn names Γ₁ Γ₂ ∧ AgreeOn names' Γ₁ Γ₂ :=
  List.forall_mem_append

/-- A new frame on both scopes answers for its own names. -/
theorem AgreeOn.extend (h : AgreeOn (Expr.without (bindings.map Prod.fst) names) Γ₁ Γ₂) :
    AgreeOn names (Γ₁.extend bindings) (Γ₂.extend bindings) :=
  fun x hx => lookup_extend_congr fun hbound => h x (Expr.mem_without.2 ⟨hx, hbound⟩)

/-- A form that both scopes have typed answers for the name that it defines. -/
theorem AgreeOn.after {e : Expr} (h : AgreeOn (Expr.without e.definedNames names) Γ₁ Γ₂) :
    AgreeOn names (Expr.scopeAfter Γ₁ e) (Expr.scopeAfter Γ₂ e) := by
  cases e with
  | define span decl value => exact AgreeOn.extend h
  | missing | number | boolean | string | quoted | primitive | var | cond | lambda | app | letin
  | letrec | program => exact fun x hx => h x (Expr.mem_without.2 ⟨hx, List.not_mem_nil⟩)

end Scope

/-! ## Checks -/

open Check Scope

/-- Two binds are the same if their second parts are after every result that the first part can have. -/
theorem Check.Ensures.bind_congr {α β : Type} {c : Check α} {P : α → Prop} {f g : α → Check β}
    (hc : c.Ensures P) (h : ∀ a, P a → f a = g a) : c >>= f = c >>= g := by
  refine ExceptT.ext (funext fun σ => ?_)
  rcases hr : c.run σ with ⟨_ | a, σ'⟩
  · rw [run_bind_error hr, run_bind_error hr]
  · rw [run_bind_ok hr, run_bind_ok hr, h a (hc σ a (by rw [hr]))]

theorem Param.map_fst_bindings (params : List Param) :
    (Param.bindings params).map Prod.fst = params.map Param.name := by
  rw [Param.bindings, List.map_map]
  rfl

namespace Expr

/-- The bindings of a `let` form have the names of its declarations. -/
theorem names_of_typeOfBindings (Γ : Scope) (d : Nat) (bs : List (Decl × Expr)) :
    (typeOfBindings Γ d bs).Ensures fun βs => βs.map Prod.fst = boundNames bs := by
  induction bs with
  | nil => exact .pure rfl
  | cons b bs ih =>
    refine (Ensures.any _).bind fun t _ => (Ensures.any _).bind fun _ _ => ih.bind fun βs hβs => ?_
    exact .pure (by rw [List.map_cons, hβs]; rfl)

theorem name_of_recursiveBinding (b : Decl × Expr) :
    (recursiveBinding b).Ensures fun β => β.1 = b.1.name := by
  obtain ⟨decl, value⟩ := b
  cases value with
  | lambda span params result body =>
    rw [recursiveBinding]
    cases decl.ty? with
    | none => exact .pure rfl
    | some declared => exact (Ensures.any _).bind fun _ _ => .pure rfl
  | missing | number | boolean | string | quoted | primitive | var | cond | app | letin | letrec
  | define | program => exact .fault _ _

/-- The bindings of a `letrec` form have the names of its declarations. -/
theorem names_of_recursiveBindings (bs : List (Decl × Expr)) :
    (recursiveBindings bs).Ensures fun βs => βs.map Prod.fst = boundNames bs := by
  induction bs with
  | nil => exact .pure rfl
  | cons b bs ih =>
    refine (name_of_recursiveBinding b).bind fun β hβ => ih.bind fun βs hβs => ?_
    exact .pure (by rw [List.map_cons, hβ, hβs]; rfl)

/-- A form leaves a scope that does not depend on its type. -/
theorem typeOfForm_eq_bind (Γ : Scope) (d : Nat) (e : Expr) :
    typeOfForm Γ d e =
      (typeOfForm Γ d e >>= fun r => pure r.1) >>= fun t => pure (t, scopeAfter Γ e) := by
  cases e with
  | define span decl value => simp only [typeOfForm, bind_assoc, pure_bind, scopeAfter]
  | missing | number | boolean | string | quoted | primitive | var | cond | lambda | app | letin
  | letrec | program => simp only [typeOfForm, bind_assoc, pure_bind, scopeAfter]

/-- The types of a program are the same in two scopes if that of its first form is, and those of the
rest are after it. -/
theorem typeOfForms_cons_congr {Γ₁ Γ₂ : Scope} {d : Nat} {e : Expr} {rest : List Expr}
    (he : (typeOfForm Γ₁ d e >>= fun r => pure r.1) = typeOfForm Γ₂ d e >>= fun r => pure r.1)
    (hrest : (typeOfForms (scopeAfter Γ₁ e) d rest >>= fun r => pure r.1) =
      typeOfForms (scopeAfter Γ₂ e) d rest >>= fun r => pure r.1) :
    (typeOfForms Γ₁ d (e :: rest) >>= fun r => pure r.1) =
      typeOfForms Γ₂ d (e :: rest) >>= fun r => pure r.1 := by
  cases rest with
  | nil =>
    rw [typeOfForms_singleton, typeOfForms_singleton, he]
  | cons f rest =>
    rw [typeOfForms_cons_cons, typeOfForms_cons_cons, typeOfForm_eq_bind Γ₁, typeOfForm_eq_bind Γ₂,
      he]
    simp only [bind_assoc, pure_bind] at hrest ⊢
    rw [hrest]

mutual

/-- The check of an expression is the same in scopes that agree on its free variables. -/
theorem typeOf_congr {Γ₁ Γ₂ : Scope} (d : Nat) (e : Expr) (h : AgreeOn e.freeVars Γ₁ Γ₂) :
    typeOf Γ₁ d e = typeOf Γ₂ d e := by
  rw [typeOf.eq_def, typeOf.eq_def Γ₂]
  refine bind_congr fun _ => ?_
  cases e with
  | missing | number | boolean | string | quoted | primitive | define => rfl
  | var t =>
    dsimp only
    rw [Check.lookup, Check.lookup, h t.text List.mem_cons_self]
  | cond s test consequent alternative =>
    simp only [freeVars, agreeOn_append] at h
    obtain ⟨⟨htest, hconsequent⟩, halternative⟩ := h
    dsimp only
    rw [typeOf_congr (d + 1) test htest, typeOf_congr (d + 1) consequent hconsequent,
      typeOf_congr (d + 1) alternative halternative]
  | lambda s params result body =>
    -- The frame of the parameters answers for their names in the body.
    rw [freeVars, ← Param.map_fst_bindings] at h
    dsimp only
    rw [typeOfBody_congr (d + 1) _ body h.extend]
  | app s operator operands =>
    -- The copy of the operator's type is made from the same number in both scopes.
    obtain ⟨hoperator, hoperands⟩ := agreeOn_append.1 h
    dsimp only
    rw [typeOf_congr (d + 1) operator hoperator]
    refine bind_congr fun t => ?_
    cases t with
    | absent | base | var | pair => rfl
    | proc params result =>
      dsimp only
      split
      · refine bind_congr fun fresh => ?_
        rw [matchOperands_congr (d + 1) [] _ operands hoperands]
      · rfl
  | letin s bindings body =>
    obtain ⟨hbindings, hbody⟩ := agreeOn_append.1 h
    dsimp only
    rw [typeOfBindings_congr (d + 1) bindings hbindings]
    -- The values have been typed outside of the new frame; only the body is inside.
    refine (names_of_typeOfBindings Γ₂ (d + 1) bindings).bind_congr fun βs hβs => ?_
    rw [← hβs] at hbody
    exact typeOfBody_congr (d + 1) _ body hbody.extend
  | letrec s bindings body =>
    -- Here the procedures are inside of the new frame too.
    refine (names_of_recursiveBindings bindings).bind_congr fun βs hβs => ?_
    rw [freeVars, ← hβs] at h
    obtain ⟨hbindings, hbody⟩ := agreeOn_append.1 h.extend
    rw [checkProcedures_congr (d + 1) bindings hbindings, typeOfBody_congr (d + 1) _ body hbody]
  | program forms =>
    rw [freeVars] at h
    exact typeOfForms_congr (d + 1) forms h

theorem typeOfBody_congr {Γ₁ Γ₂ : Scope} (d : Nat) (owner : Expr) (es : List Expr)
    (h : AgreeOn (freeVarsAll es) Γ₁ Γ₂) : typeOfBody Γ₁ d owner es = typeOfBody Γ₂ d owner es := by
  match es with
  | [] => rfl
  | [e] => exact typeOf_congr d e (agreeOn_append.1 h).1
  | e :: f :: es =>
    obtain ⟨he, hes⟩ := agreeOn_append.1 h
    change typeOf Γ₁ d e >>= (fun _ => typeOfBody Γ₁ d owner (f :: es)) =
      typeOf Γ₂ d e >>= fun _ => typeOfBody Γ₂ d owner (f :: es)
    rw [typeOf_congr d e he, typeOfBody_congr d owner (f :: es) hes]

theorem matchOperands_congr {Γ₁ Γ₂ : Scope} (d : Nat) (s : Substitution) (params : List Ty)
    (es : List Expr) (h : AgreeOn (freeVarsAll es) Γ₁ Γ₂) :
    matchOperands Γ₁ d s params es = matchOperands Γ₂ d s params es := by
  match params, es with
  | [], [] | [], _ :: _ | _ :: _, [] => rfl
  | p :: params, e :: es =>
    obtain ⟨he, hes⟩ := agreeOn_append.1 h
    rw [matchOperands, matchOperands, typeOf_congr d e he]
    refine bind_congr fun t => ?_
    dsimp only
    rw [matchOperands_congr d _ params es hes]

theorem typeOfBindings_congr {Γ₁ Γ₂ : Scope} (d : Nat) (bs : List (Decl × Expr))
    (h : AgreeOn (freeVarsBound bs) Γ₁ Γ₂) : typeOfBindings Γ₁ d bs = typeOfBindings Γ₂ d bs := by
  match bs with
  | [] => rfl
  | (decl, value) :: rest =>
    obtain ⟨hvalue, hrest⟩ := agreeOn_append.1 h
    rw [typeOfBindings, typeOfBindings, typeOf_congr d value hvalue,
      typeOfBindings_congr d rest hrest]

theorem checkProcedures_congr {Γ₁ Γ₂ : Scope} (d : Nat) (bs : List (Decl × Expr))
    (h : AgreeOn (freeVarsBound bs) Γ₁ Γ₂) : checkProcedures Γ₁ d bs = checkProcedures Γ₂ d bs := by
  match bs with
  | [] => rfl
  | (decl, value) :: rest =>
    obtain ⟨hvalue, hrest⟩ := agreeOn_append.1 h
    have ih := checkProcedures_congr d rest hrest
    cases value with
    | lambda s params result body =>
      rw [freeVars, ← Param.map_fst_bindings] at hvalue
      rw [checkProcedures, checkProcedures, typeOfBody_congr d _ body hvalue.extend, ih]
    | missing | number | boolean | string | quoted | primitive | var | cond | app | letin | letrec
    | define | program => exact ih

-- The scopes after the forms need not be equal, so only the types are compared.
theorem typeOfForms_congr {Γ₁ Γ₂ : Scope} (d : Nat) (forms : List Expr)
    (h : AgreeOn (freeVarsOfForms forms) Γ₁ Γ₂) :
    (typeOfForms Γ₁ d forms >>= fun r => pure r.1) =
      typeOfForms Γ₂ d forms >>= fun r => pure r.1 := by
  match forms with
  | [] => rfl
  | e :: rest =>
    obtain ⟨he, hrest⟩ := agreeOn_append.1 h
    refine typeOfForms_cons_congr ?_ (typeOfForms_congr d rest hrest.after)
    cases e with
    | define span decl value =>
      rw [typeOfForm, typeOfForm, typeOf_congr (d + 1) value he]
      simp only [bind_assoc, pure_bind]
    | missing | number | boolean | string | quoted | primitive | var | cond | lambda | app | letin
    | letrec | program =>
      simp only [typeOfForm, bind_assoc, pure_bind]
      rw [typeOf_congr d _ he]

end

/-- Only what a scope says about the free variables of an expression counts for its type, its error,
its notes and the numbers given out: scopes of any frames that agree on them have the same outcome. So
a frame of names that are not used can be added, what a new frame hides can be dropped, and two frames
can be made one. -/
theorem typeOf_eq_of_lookup_eq (e : Expr) (d last : Nat) (tracing : Bool) :
    let outcome (Γ : Scope) := (e.typeOf Γ d).runFrom last tracing
    (∀ Γ₁ Γ₂ : Scope, (∀ x ∈ e.freeVars, Γ₁.lookup x = Γ₂.lookup x) → outcome Γ₁ = outcome Γ₂) ∧
      (∀ (Γ : Scope) (unused : List (String × Ty)), (∀ b ∈ unused, b.1 ∉ e.freeVars) →
        outcome (Γ.extend unused) = outcome Γ) ∧
      (∀ (Γ : Scope) (hidden bs : List (String × Ty)), (∀ b ∈ hidden, b.1 ∈ bs.map Prod.fst) →
        outcome ((Γ.extend hidden).extend bs) = outcome (Γ.extend bs)) ∧
      ∀ (Γ : Scope) (bs later : List (String × Ty)),
        outcome ((Γ.extend bs).extend later) = outcome (Γ.extend (bs ++ later)) := by
  intro outcome
  have hagree : ∀ Γ₁ Γ₂ : Scope, AgreeOn e.freeVars Γ₁ Γ₂ → outcome Γ₁ = outcome Γ₂ := by
    intro Γ₁ Γ₂ h
    simp only [outcome, typeOf_congr d e h]
  refine ⟨hagree, fun Γ unused hunused => ?_, fun Γ hidden bs hhidden => ?_, fun Γ bs later => ?_⟩
  · -- No free variable is a name of the new frame.
    refine hagree _ _ fun x hx => lookup_extend_of_not_mem fun hmem => ?_
    obtain ⟨b, hb, rfl⟩ := List.mem_map.1 hmem
    exact hunused b hb hx
  · -- A name that the inner frame does not have is not one of the hidden names.
    refine hagree _ _ fun x _ => lookup_extend_congr fun hx => lookup_extend_of_not_mem fun hmem => ?_
    obtain ⟨b, hb, rfl⟩ := List.mem_map.1 hmem
    exact hx (hhidden b hb)
  · exact hagree _ _ fun x _ => lookup_extend_extend Γ bs later x

/-- A `let` form whose name is also a name of the scope: the two scopes differ on it and in their
frames, and agree on the operator and the operand that the form takes from them. -/
theorem typeOf_eq_of_lookup_eq_hiddenName :
    let name (text : String) : Token := ⟨.symbol, .absent, text⟩
    let e := letin .absent [(⟨name "x", some (.base .number), .absent⟩, var (name "y"))]
      [app .absent (var (name "f")) [var (name "x")]]
    let Γ₁ : Scope := [[("x", .base .string)], [("f", .proc [.var 1] (.pair (.var 1) (.var 2)))],
      [("y", .base .number)]]
    let Γ₂ : Scope := [[("f", .proc [.var 1] (.pair (.var 1) (.var 2))), ("y", .base .number)]]
    let outcome (Γ : Scope) := (e.typeOf Γ 0).runFrom 2 true
    (∀ x ∈ e.freeVars, Γ₁.lookup x = Γ₂.lookup x) ∧ Γ₁.lookup "x" ≠ Γ₂.lookup "x" ∧
      outcome Γ₁ = outcome Γ₂ ∧
      (outcome Γ₂).result = .ok (.pair (.base .number) (.var 4)) ∧ (outcome Γ₂).last = 4 := by
  intro name e Γ₁ Γ₂ outcome
  have h : ∀ x ∈ e.freeVars, Γ₁.lookup x = Γ₂.lookup x := by
    intro x hx
    rw [show e.freeVars = ["y", "f"] from rfl] at hx
    simp only [List.mem_cons, List.not_mem_nil, or_false] at hx
    rcases hx with rfl | rfl
    · rfl
    · rfl
  exact ⟨h, nofun, (typeOf_eq_of_lookup_eq e 0 2 true).1 Γ₁ Γ₂ h, rfl, rfl⟩

end Expr

end TypedScheme
