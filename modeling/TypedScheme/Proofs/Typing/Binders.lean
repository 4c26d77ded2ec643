import TypedScheme.Proofs.Expr.WellFormed
import TypedScheme.Proofs.Typing.Derivations
import TypedScheme.Proofs.Typing.FreeVariables

/-!
# Symbols and their binders

Which type a check computes for a symbol inside the scope of a binder. The binders around every symbol
of an expression are read off the expression, and the check is followed down to the symbol, from call to
call. The two meet there: a symbol that is no primitive operator has the type that the innermost binder
of its name gives. The name of a primitive operator always means the operator, whatever binds it.

## What this module delivers

- `Expr.symbols`, the symbols of an expression in the order of reading, each with the binders around it,
  and `Gives`, the type of a name by the innermost of them.
- `Expr.Calls`: the checks of parts that the check of an expression makes, each with its scope, and
  `Expr.Judged`, the type that is computed for a symbol at the end of such calls.
- `Expr.exists_judged`: every symbol of an expression that has a type gets one.
- `Expr.Judged.resolved`: what the type of a symbol is.
- `Program.type_of_symbol`: the two together, for programs, and `Program.bound_primitive_ignored`: a
  binder that is not seen.
-/

set_option autoImplicit false

namespace TypedScheme

/-! ## Binders -/

/-- The names that one form binds, with their types. -/
abbrev Binders := List (String × Ty)

/-- The innermost of the binders that bind a name gives it a type. -/
inductive Gives : List Binders → String → Ty → Prop
  | here {binders : Binders} {outer : List Binders} {name : String} {t : Ty} :
      (name, t) ∈ binders → Gives (binders :: outer) name t
  | outer {binders : Binders} {outer : List Binders} {name : String} {t : Ty} :
      name ∉ binders.map Prod.fst → Gives outer name t → Gives (binders :: outer) name t

/-- No form binds a name twice. -/
def BindOnce (binders : List Binders) : Prop := ∀ f ∈ binders, (f.map Prod.fst).Nodup

/-- What a name means in the frames of binders is what the innermost of its binders gives it. -/
theorem lookup_eq_some_iff_gives {binders : List Binders} (honce : BindOnce binders) {name : String}
    {t : Ty} : Scope.lookup (binders.map Frame.ofBindings) name = some t ↔ Gives binders name t := by
  induction binders with
  | nil => exact ⟨nofun, nofun⟩
  | cons f outer ih =>
    obtain ⟨hf, honce⟩ := List.forall_mem_cons.1 honce
    -- A frame finds the last binding of a name, which is the only one here.
    have hreverse : (f.reverse.map Prod.fst).Nodup := by rwa [List.map_reverse, List.nodup_reverse]
    change (Scope.extend (outer.map Frame.ofBindings) f).lookup name = some t ↔ _
    by_cases hname : name ∈ f.map Prod.fst
    · obtain ⟨u, hu⟩ : ∃ u, (name, u) ∈ f := by simpa using hname
      have hlookup := (lookup_eq_some_iff_mem hreverse).2 (List.mem_reverse.2 hu)
      rw [Scope.lookup_extend, hlookup, Option.some_or, ← hlookup, lookup_eq_some_iff_mem hreverse,
        List.mem_reverse]
      constructor
      · exact .here
      · intro h
        cases h with
        | here hmem => exact hmem
        | outer hne _ => exact absurd hname hne
    · rw [Scope.lookup_extend_of_not_mem hname, ih honce]
      constructor
      · exact .outer hname
      · intro h
        cases h with
        | here hmem => exact absurd (List.mem_map_of_mem hmem) hname
        | outer _ h => exact h

/-- A symbol in the position of an expression, with the binders around it, the innermost first. -/
structure Occurrence where
  token : Token
  binders : List Binders

/-- An occurrence inside more binders. -/
def Occurrence.within (o : Occurrence) (binders : List Binders) : Occurrence :=
  ⟨o.token, o.binders ++ binders⟩

theorem Occurrence.within_nil (o : Occurrence) : o.within [] = o := by
  rw [within, List.append_nil]

/-- An occurrence under binders under binders is under both, the inner ones first. -/
theorem Occurrence.within_within (o : Occurrence) (inner outer : List Binders) :
    (o.within inner).within outer = o.within (inner ++ outer) := by
  rw [within, within, within, List.append_assoc]

namespace Expr

/-- The names of bindings with their declared types. -/
def declaredBinders (bindings : List (Decl × Expr)) : Binders :=
  bindings.map fun b => (b.1.name, b.1.boundType)

/-- The type of a procedure by its annotations. -/
def annotatedType : Expr → Ty
  | lambda _ params result _ => procType params result
  | _ => .absent

/-- The names of recursive bindings with the types of their procedures. -/
def recursiveBinders (bindings : List (Decl × Expr)) : Binders :=
  bindings.map fun b => (b.1.name, b.2.annotatedType)

/-- What a form of a program binds for the forms after it. -/
def definedBinders : Expr → List Binders
  | define _ decl _ => [[(decl.name, decl.boundType)]]
  | _ => []

/-- The symbol that an expression consists of. -/
def symbol? : Expr → Option Token
  | primitive t => some t
  | var t => some t
  | _ => none

/-- A symbol is the name of an operator or a variable. -/
theorem eq_of_symbol? {e : Expr} {t : Token} (h : e.symbol? = some t) :
    e = primitive t ∨ e = var t := by
  cases e with
  | primitive t' =>
    cases h
    exact .inl rfl
  | var t' =>
    cases h
    exact .inr rfl
  | missing | number | boolean | string | quoted | cond | lambda | app | letin | letrec | define
  | program => cases h

mutual

/-- The symbols of an expression, each with the binders around it. -/
def symbols : Expr → List Occurrence
  | missing => []
  | number _ _ => []
  | boolean _ _ => []
  | string _ _ => []
  | quoted _ _ _ => []
  | primitive t => [⟨t, []⟩]
  | var t => [⟨t, []⟩]
  | cond _ test consequent alternative => symbols test ++ symbols consequent ++ symbols alternative
  | lambda _ params _ body => (symbolsAll body).map (·.within [Param.bindings params])
  | app _ operator operands => symbols operator ++ symbolsAll operands
  | letin _ bindings body =>
    symbolsBound bindings ++ (symbolsAll body).map (·.within [declaredBinders bindings])
  | letrec _ bindings body =>
    (symbolsBound bindings ++ symbolsAll body).map (·.within [recursiveBinders bindings])
  | define _ _ value => symbols value
  | program forms => symbolsForms forms

/-- The symbols of expressions. -/
def symbolsAll : List Expr → List Occurrence
  | [] => []
  | e :: es => symbols e ++ symbolsAll es

/-- The symbols in the values of bindings. -/
def symbolsBound : List (Decl × Expr) → List Occurrence
  | [] => []
  | (_, value) :: rest => symbols value ++ symbolsBound rest

/-- The symbols of forms, each of which may bind a name for those after it. -/
def symbolsForms : List Expr → List Occurrence
  | [] => []
  | e :: rest => symbols e ++ (symbolsForms rest).map (·.within (definedBinders e))

end

/-! ## The calls of a check -/

/-- When expressions are checked in order, one of them is checked after a number. -/
inductive RowAt (Γ : Scope) : Nat → List Expr → Nat → Expr → Prop
  | head {n : Nat} {e : Expr} {es : List Expr} : RowAt Γ n (e :: es) n e
  | tail {n n₁ m : Nat} {e c : Expr} {es : List Expr} {σ : Ty} :
      Derives Matching Γ n e σ n₁ → RowAt Γ n₁ es m c → RowAt Γ n (e :: es) m c

/-- When the bodies of recursively bound procedures are checked in order, one of them is checked after a
number. -/
inductive ProcedureAt (Γ : Scope) : Nat → List (Decl × Expr) → Nat → List Param → List Expr → Prop
  | head {n : Nat} {decl : Decl} {span : Span} {params : List Param} {result : Ty}
      {body : List Expr} {rest : List (Decl × Expr)} :
      ProcedureAt Γ n ((decl, lambda span params result body) :: rest) n params body
  | tail {n n₁ m : Nat} {decl : Decl} {span : Span} {params ps : List Param} {result σ : Ty}
      {body es : List Expr} {rest : List (Decl × Expr)} :
      BodyDerives Matching (Γ.extend (Param.bindings params)) n body σ n₁ →
      ProcedureAt Γ n₁ rest m ps es →
      ProcedureAt Γ n ((decl, lambda span params result body) :: rest) m ps es

/-- When the forms of a program are checked in order, one of them or its value is checked in a scope
after a number, and the forms before it bind names for it. -/
inductive FormAt : Scope → Nat → List Expr → List Binders → Scope → Nat → Expr → Prop
  | value {Γ : Scope} {n : Nat} {span : Span} {decl : Decl} {value : Expr} {rest : List Expr} :
      FormAt Γ n (define span decl value :: rest) [] Γ n value
  | expression {Γ : Scope} {n : Nat} {e : Expr} {rest : List Expr} :
      (∀ span decl value, e ≠ define span decl value) → FormAt Γ n (e :: rest) [] Γ n e
  | after {Γ Γ₁ Δ : Scope} {n n₁ m : Nat} {e c : Expr} {rest : List Expr} {σ : Ty}
      {binders : List Binders} :
      FormDerives Matching Γ n e σ Γ₁ n₁ → FormAt Γ₁ n₁ rest binders Δ m c →
      FormAt Γ n (e :: rest) (binders ++ definedBinders e) Δ m c

/-- The check of an expression in a scope after a number makes the check of a part of it in another scope
after another number. The part stands inside some binders of the expression. -/
inductive Calls : Scope → Nat → Expr → List Binders → Scope → Nat → Expr → Prop
  | test {Γ : Scope} {n : Nat} {span : Span} {test consequent alternative : Expr} :
      Calls Γ n (cond span test consequent alternative) [] Γ n test
  | consequent {Γ : Scope} {n n₁ : Nat} {span : Span} {test consequent alternative : Expr} {σ : Ty} :
      Derives Matching Γ n test σ n₁ →
      Calls Γ n (cond span test consequent alternative) [] Γ n₁ consequent
  | alternative {Γ : Scope} {n n₁ n₂ : Nat} {span : Span} {test consequent alternative : Expr}
      {σ τ : Ty} :
      Derives Matching Γ n test σ n₁ → Derives Matching Γ n₁ consequent τ n₂ →
      Calls Γ n (cond span test consequent alternative) [] Γ n₂ alternative
  | body {Γ : Scope} {n m : Nat} {span : Span} {params : List Param} {result : Ty}
      {body : List Expr} {c : Expr} :
      RowAt (Γ.extend (Param.bindings params)) n body m c →
      Calls Γ n (lambda span params result body) [Param.bindings params]
        (Γ.extend (Param.bindings params)) m c
  | operator {Γ : Scope} {n : Nat} {span : Span} {operator : Expr} {operands : List Expr} :
      Calls Γ n (app span operator operands) [] Γ n operator
  | operand {Γ : Scope} {n n₁ m : Nat} {span : Span} {operator c : Expr} {operands : List Expr}
      {params : List Ty} {result : Ty} :
      Derives Matching Γ n operator (.proc params result) n₁ →
      RowAt Γ ((Ty.proc params result).freshVars n₁).2 operands m c →
      Calls Γ n (app span operator operands) [] Γ m c
  | value {Γ : Scope} {n m : Nat} {span : Span} {bindings : List (Decl × Expr)} {body : List Expr}
      {c : Expr} :
      RowAt Γ n (bindings.map Prod.snd) m c → Calls Γ n (letin span bindings body) [] Γ m c
  | letBody {Γ : Scope} {n n₁ m : Nat} {span : Span} {bindings : List (Decl × Expr)}
      {body : List Expr} {c : Expr} {βs : List (String × Ty)} :
      BindingsDerive Matching Γ n bindings βs n₁ → RowAt (Γ.extend βs) n₁ body m c →
      Calls Γ n (letin span bindings body) [declaredBinders bindings] (Γ.extend βs) m c
  | procedure {Γ : Scope} {n n₁ m : Nat} {span : Span} {bindings : List (Decl × Expr)}
      {body es : List Expr} {params : List Param} {c : Expr} {βs : List (String × Ty)} :
      DeclaresAgreeing bindings βs → ProcedureAt (Γ.extend βs) n bindings n₁ params es →
      RowAt ((Γ.extend βs).extend (Param.bindings params)) n₁ es m c →
      Calls Γ n (letrec span bindings body) [Param.bindings params, recursiveBinders bindings]
        ((Γ.extend βs).extend (Param.bindings params)) m c
  | letrecBody {Γ : Scope} {n n₁ m : Nat} {span : Span} {bindings : List (Decl × Expr)}
      {body : List Expr} {c : Expr} {βs : List (String × Ty)} :
      DeclaresAgreeing bindings βs → ProceduresDerive Matching (Γ.extend βs) n bindings n₁ →
      RowAt (Γ.extend βs) n₁ body m c →
      Calls Γ n (letrec span bindings body) [recursiveBinders bindings] (Γ.extend βs) m c
  | form {Γ Δ : Scope} {n m : Nat} {forms : List Expr} {binders : List Binders} {c : Expr} :
      FormAt Γ n forms binders Δ m c → Calls Γ n (program forms) binders Δ m c

/-- In the check of an expression in a scope after a number, a type is computed for a symbol: the checker
is called on the symbol, and this is what it returns. -/
inductive Judged (τ : Ty) : Scope → Nat → Expr → Occurrence → Prop
  | symbol {Γ : Scope} {depth : Nat} {σ : CheckState} {e : Expr} {t : Token} :
      e.symbol? = some t → ((typeOf Γ depth e).run σ).1 = .ok τ → Judged τ Γ σ.last e ⟨t, []⟩
  | part {Γ Δ : Scope} {n m : Nat} {e c : Expr} {binders : List Binders} {o : Occurrence} :
      Calls Γ n e binders Δ m c → Judged τ Δ m c o → Judged τ Γ n e (o.within binders)

/-- A symbol is judged where its type is derived. -/
theorem Judged.of_derives {τ : Ty} {Γ : Scope} {n n' : Nat} {e : Expr} {t : Token}
    (ht : e.symbol? = some t) (h : Derives Matching Γ n e τ n') : Judged τ Γ n e ⟨t, []⟩ :=
  .symbol (σ := ⟨n, false, []⟩) ht ((counts_typeOf Γ 0 e ⟨n, false, []⟩ τ n').2 h).1

/-- A call inside no more binders. -/
theorem Judged.of_calls {τ : Ty} {Γ Δ : Scope} {n m : Nat} {e c : Expr} {o : Occurrence}
    (hcalls : Calls Γ n e [] Δ m c) (h : Judged τ Δ m c o) : Judged τ Γ n e o := by
  rw [← o.within_nil]
  exact .part hcalls h

/-! ## Every symbol gets a type -/

/-- Expressions get types in order. -/
inductive RowDerives (Γ : Scope) : Nat → List Expr → Nat → Prop
  | nil {n : Nat} : RowDerives Γ n [] n
  | cons {n n₁ n' : Nat} {e : Expr} {es : List Expr} {σ : Ty} :
      Derives Matching Γ n e σ n₁ → RowDerives Γ n₁ es n' → RowDerives Γ n (e :: es) n'

/-- The forms of a body are derived in a row. -/
theorem BodyDerives.row {Γ : Scope} {n n' : Nat} {es : List Expr} {τ : Ty}
    (h : BodyDerives Matching Γ n es τ n') : RowDerives Γ n es n' := by
  induction es generalizing n with
  | nil => cases h
  | cons e es ih =>
    cases h with
    | last he => exact .cons he .nil
    | cons he hes => exact .cons he (ih hes)

theorem OperandsMatch.row {Γ : Scope} {n n' : Nat} {s s' : Substitution} {params : List Ty}
    {es : List Expr} (h : OperandsMatch Matching Γ n s params es s' n') : RowDerives Γ n es n' := by
  induction es generalizing n s params with
  | nil =>
    cases h
    exact .nil
  | cons e es ih =>
    cases h with
    | cons he _ hes => exact .cons he (ih hes)

theorem BindingsDerive.row {Γ : Scope} {n n' : Nat} {bs : List (Decl × Expr)}
    {βs : List (String × Ty)} (h : BindingsDerive Matching Γ n bs βs n') :
    RowDerives Γ n (bs.map Prod.snd) n' := by
  induction bs generalizing n βs with
  | nil =>
    cases h
    exact .nil
  | cons b bs ih =>
    cases h with
    | cons hvalue _ hrest => exact .cons hvalue (ih hrest)

mutual

/-- Every symbol of an expression that has a type gets a type: the calls down to the symbol are those of
the derivation of the type. -/
theorem exists_judged {Γ : Scope} {n n' : Nat} {σ : Ty} (e : Expr) {o : Occurrence}
    (h : Derives Matching Γ n e σ n') (ho : o ∈ e.symbols) : ∃ τ, Judged τ Γ n e o := by
  cases e with
  | missing | number | boolean | string | quoted => cases ho
  | primitive t | var t =>
    rw [symbols, List.mem_singleton] at ho
    subst ho
    exact ⟨σ, .of_derives rfl h⟩
  | cond span test consequent alternative =>
    cases h with
    | cond htest _ hconsequent halternative _ =>
      rw [symbols, List.mem_append, List.mem_append] at ho
      rcases ho with (ho | ho) | ho
      · obtain ⟨τ, hτ⟩ := exists_judged test htest ho
        exact ⟨τ, hτ.of_calls .test⟩
      · obtain ⟨τ, hτ⟩ := exists_judged consequent hconsequent ho
        exact ⟨τ, hτ.of_calls (.consequent htest)⟩
      · obtain ⟨τ, hτ⟩ := exists_judged alternative halternative ho
        exact ⟨τ, hτ.of_calls (.alternative htest hconsequent)⟩
  | lambda span params result body =>
    cases h with
    | lambda hbody _ =>
      obtain ⟨o', ho', rfl⟩ := List.mem_map.1 ho
      obtain ⟨m, c, τ, hrow, hτ⟩ := exists_judged_row body hbody.row ho'
      exact ⟨τ, .part (.body hrow) hτ⟩
  | app span operator operands =>
    cases h with
    | app hoperator _ hoperands =>
      rw [symbols, List.mem_append] at ho
      rcases ho with ho | ho
      · obtain ⟨τ, hτ⟩ := exists_judged operator hoperator ho
        exact ⟨τ, hτ.of_calls .operator⟩
      · obtain ⟨m, c, τ, hrow, hτ⟩ := exists_judged_row operands hoperands.row ho
        exact ⟨τ, hτ.of_calls (.operand hoperator hrow)⟩
  | letin span bindings body =>
    cases h with
    | letin hbindings hbody =>
      rw [symbols, List.mem_append] at ho
      rcases ho with ho | ho
      · obtain ⟨m, c, τ, hrow, hτ⟩ := exists_judged_values bindings hbindings.row ho
        exact ⟨τ, hτ.of_calls (.value hrow)⟩
      · obtain ⟨o', ho', rfl⟩ := List.mem_map.1 ho
        obtain ⟨m, c, τ, hrow, hτ⟩ := exists_judged_row body hbody.row ho'
        exact ⟨τ, .part (.letBody hbindings hrow) hτ⟩
  | letrec span bindings body =>
    cases h with
    | letrec hdeclares hprocedures hbody =>
      obtain ⟨o, ho', rfl⟩ := List.mem_map.1 ho
      rcases List.mem_append.1 ho' with ho | ho
      · -- A recursive binding binds a procedure, whose parameters stand inside the bound names.
        obtain ⟨n₁, params, es, m, c, o', τ, hat, hrow, hτ, rfl⟩ :=
          exists_judged_procedures bindings hprocedures ho
        rw [Occurrence.within_within]
        exact ⟨τ, .part (.procedure hdeclares hat hrow) hτ⟩
      · obtain ⟨m, c, τ, hrow, hτ⟩ := exists_judged_row body hbody.row ho
        exact ⟨τ, .part (.letrecBody hdeclares hprocedures hrow) hτ⟩
  | define span decl value => cases h
  | program forms =>
    cases h with
    | program hforms =>
      obtain ⟨binders, Δ, m, c, o', τ, hat, hτ, rfl⟩ := exists_judged_forms forms hforms ho
      exact ⟨τ, .part (.form hat) hτ⟩

/-- Every symbol of expressions in a row is judged. -/
theorem exists_judged_row {Γ : Scope} {n n' : Nat} (es : List Expr) {o : Occurrence}
    (h : RowDerives Γ n es n') (ho : o ∈ symbolsAll es) :
    ∃ m c τ, RowAt Γ n es m c ∧ Judged τ Γ m c o := by
  match es with
  | [] => cases ho
  | e :: es =>
    cases h with
    | cons he hes =>
      rcases List.mem_append.1 ho with ho | ho
      · obtain ⟨τ, hτ⟩ := exists_judged e he ho
        exact ⟨n, e, τ, .head, hτ⟩
      · obtain ⟨m, c, τ, hrow, hτ⟩ := exists_judged_row es hes ho
        exact ⟨m, c, τ, .tail he hrow, hτ⟩

theorem exists_judged_values {Γ : Scope} {n n' : Nat} (bs : List (Decl × Expr)) {o : Occurrence}
    (h : RowDerives Γ n (bs.map Prod.snd) n') (ho : o ∈ symbolsBound bs) :
    ∃ m c τ, RowAt Γ n (bs.map Prod.snd) m c ∧ Judged τ Γ m c o := by
  match bs with
  | [] => cases ho
  | (decl, value) :: rest =>
    cases h with
    | cons hvalue hrest =>
      rcases List.mem_append.1 ho with ho | ho
      · obtain ⟨τ, hτ⟩ := exists_judged value hvalue ho
        exact ⟨n, value, τ, .head, hτ⟩
      · obtain ⟨m, c, τ, hrow, hτ⟩ := exists_judged_values rest hrest ho
        exact ⟨m, c, τ, .tail hvalue hrow, hτ⟩

/-- Every symbol of procedures that are bound recursively is judged, under the parameters of its
procedure. -/
theorem exists_judged_procedures {Γ : Scope} {n n' : Nat} (bs : List (Decl × Expr)) {o : Occurrence}
    (h : ProceduresDerive Matching Γ n bs n') (ho : o ∈ symbolsBound bs) :
    ∃ n₁ params es m c o' τ, ProcedureAt Γ n bs n₁ params es ∧
      RowAt (Γ.extend (Param.bindings params)) n₁ es m c ∧
      Judged τ (Γ.extend (Param.bindings params)) m c o' ∧ o = o'.within [Param.bindings params] := by
  match bs with
  | [] => cases ho
  | (decl, value) :: rest =>
    cases value with
    | lambda span params result body =>
      cases h with
      | cons hbody _ hrest =>
        rcases List.mem_append.1 ho with ho | ho
        · obtain ⟨o', ho', rfl⟩ := List.mem_map.1 ho
          obtain ⟨m, c, τ, hrow, hτ⟩ := exists_judged_row body hbody.row ho'
          exact ⟨n, params, body, m, c, o', τ, .head, hrow, hτ, rfl⟩
        · obtain ⟨n₁, ps, es, m, c, o', τ, hat, hrow, hτ, heq⟩ :=
            exists_judged_procedures rest hrest ho
          exact ⟨n₁, ps, es, m, c, o', τ, .tail hbody hat, hrow, hτ, heq⟩
    | missing | number | boolean | string | quoted | primitive | var | cond | app | letin | letrec
    | define | program => cases h

/-- Every symbol of forms is judged, in the scope after the definitions before it. -/
theorem exists_judged_forms {Γ Γ' : Scope} {n n' : Nat} {σ : Ty} (forms : List Expr)
    {o : Occurrence} (h : FormsDerive Matching Γ n forms σ Γ' n') (ho : o ∈ symbolsForms forms) :
    ∃ binders Δ m c o' τ, FormAt Γ n forms binders Δ m c ∧ Judged τ Δ m c o' ∧
      o = o'.within binders := by
  match forms with
  | [] => cases ho
  | e :: rest =>
    rcases List.mem_append.1 ho with ho | ho
    · -- A symbol of this form: the form or its value is checked in the scope as it is.
      have hform : ∃ σ Γ₁ n₁, FormDerives Matching Γ n e σ Γ₁ n₁ := by
        cases h with
        | last hform | cons hform _ => exact ⟨_, _, _, hform⟩
      obtain ⟨_, _, _, hform⟩ := hform
      cases e with
      | define span decl value =>
        cases hform with
        | define hvalue _ =>
          obtain ⟨τ, hτ⟩ := exists_judged value hvalue ho
          exact ⟨[], Γ, n, value, o, τ, .value, hτ, o.within_nil.symm⟩
        | expression hdefine => cases hdefine
      | missing | number | boolean | string | quoted | primitive | var | cond | lambda | app | letin
      | letrec | program =>
        cases hform with
        | expression he =>
          obtain ⟨τ, hτ⟩ := exists_judged _ he ho
          exact ⟨[], Γ, n, _, o, τ, .expression (by intro _ _ _ heq; cases heq), hτ,
            o.within_nil.symm⟩
    · -- A symbol of a later form, which stands inside what this one defines.
      obtain ⟨o, ho', rfl⟩ := List.mem_map.1 ho
      cases h with
      | last => cases ho'
      | cons hform hrest =>
        obtain ⟨binders, Δ, m, c, o', τ, hat, hτ, rfl⟩ := exists_judged_forms rest hrest ho'
        rw [Occurrence.within_within]
        exact ⟨_, Δ, m, c, o', τ, .after hform hat, hτ, rfl⟩

end

/-! ## The scope of a call -/

/-- Bindings bind their names to the declared types. -/
theorem BindingsDerive.binders_eq {Γ : Scope} {n n' : Nat} {bs : List (Decl × Expr)}
    {βs : List (String × Ty)} (h : BindingsDerive Matching Γ n bs βs n') : βs = declaredBinders bs := by
  induction bs generalizing n βs with
  | nil =>
    cases h
    rfl
  | cons b bs ih =>
    cases h with
    | cons _ _ hrest =>
      rw [ih hrest]
      rfl

/-- Recursive bindings bind their names to the types of their procedures. -/
theorem DeclaresAgreeing.binders_eq {bs : List (Decl × Expr)} {βs : List (String × Ty)}
    (h : DeclaresAgreeing bs βs) : βs = recursiveBinders bs := by
  induction h with
  | nil => rfl
  | cons _ _ ih =>
    rw [ih]
    rfl

theorem FormDerives.scope_eq {Γ Γ' : Scope} {n n' : Nat} {e : Expr} {τ : Ty}
    (h : FormDerives Matching Γ n e τ Γ' n') :
    Γ' = (definedBinders e).map Frame.ofBindings ++ Γ := by
  cases h with
  | define => rfl
  | expression he =>
    cases e with
    | define => cases he
    | missing | number | boolean | string | quoted | primitive | var | cond | lambda | app | letin
    | letrec | program => rfl

/-- The scope of a form is that of the definitions before it. -/
theorem FormAt.scope_eq {Γ Δ : Scope} {n m : Nat} {forms : List Expr} {binders : List Binders}
    {c : Expr} (h : FormAt Γ n forms binders Δ m c) :
    Δ = binders.map Frame.ofBindings ++ Γ := by
  induction h with
  | value => rfl
  | expression => rfl
  | after hform _ ih => rw [ih, hform.scope_eq, List.map_append, List.append_assoc]

/-- The scope of a call is that of the caller with the binders in between. -/
theorem Calls.scope_eq {Γ Δ : Scope} {n m : Nat} {e c : Expr} {binders : List Binders}
    (h : Calls Γ n e binders Δ m c) : Δ = binders.map Frame.ofBindings ++ Γ := by
  cases h with
  | test | consequent | alternative | body | operator | operand | value => rfl
  | letBody hbindings _ =>
    rw [hbindings.binders_eq]
    rfl
  | procedure hdeclares _ _ =>
    rw [hdeclares.binders_eq]
    rfl
  | letrecBody hdeclares _ _ =>
    rw [hdeclares.binders_eq]
    rfl
  | form hat => exact hat.scope_eq

/-! ## What the parser makes sure of -/

/-- What the parser makes sure of about the symbols and names of a form: an operator has the name of a
primitive, a variable has not, and no form binds a name twice. -/
def Resolves : Expr → Prop
  | primitive t => TypedScheme.isPrimitive t.text = true
  | var t => TypedScheme.isPrimitive t.text = false
  | lambda _ params _ _ => (params.map Param.name).Nodup
  | letin _ bindings _ => (bindings.map (·.1.name)).Nodup
  | letrec _ bindings _ => (bindings.map (·.1.name)).Nodup
  | _ => True

/-- Every form inside a form resolves. -/
def IsResolved (e : Expr) : Prop := ∀ f, Inside f e → f.Resolves

/-- An expression is resolved if it resolves its own symbol and its children are resolved. -/
theorem isResolved_iff {e : Expr} :
    e.IsResolved ↔ e.Resolves ∧ ∀ c ∈ e.children, c.IsResolved := by
  constructor
  · intro h
    exact ⟨h e .refl, fun c hc f hf => h f (.child hc hf)⟩
  · rintro ⟨he, hchildren⟩ f hf
    cases hf with
    | refl => exact he
    | child hc hf => exact hchildren _ hc f hf

/-- The parts of a resolved expression are resolved. -/
theorem IsResolved.of_inside {c e : Expr} (he : e.IsResolved) (hc : Inside c e) : c.IsResolved :=
  fun f hf => he f (hf.trans hc)

/-- The parser resolves every symbol. -/
theorem ReadsAtom.isResolved {t : Token} {e : Expr} (h : ReadsAtom t e) : e.IsResolved := by
  rw [isResolved_iff]
  cases h with
  | number | boolean | string => exact ⟨trivial, by simp [children]⟩
  | primitive _ hprimitive => exact ⟨hprimitive, by simp [children]⟩
  | var _ hprimitive => exact ⟨Bool.eq_false_iff.2 hprimitive, by simp [children]⟩

mutual

/-- An expression that the grammar derives is resolved. -/
theorem Reads.isResolved {k k' : Nat} {d : Datum} {e : Expr} : Reads k d e k' → e.IsResolved
  | .atom h => h.isResolved
  | .quoted _ | .quoteForm _ _ => isResolved_iff.2 ⟨trivial, by simp [children]⟩
  | .cond _ ha hb hc =>
    isResolved_iff.2 ⟨trivial, by simp [children, ha.isResolved, hb.isResolved, hc.isResolved]⟩
  | .lambda _ _ hparams _ hbody => isResolved_iff.2 ⟨hparams.apart.1, hbody.isResolved⟩
  | .app _ hf hes =>
    isResolved_iff.2 ⟨trivial, List.forall_mem_cons.2 ⟨hf.isResolved, hes.isResolved⟩⟩
  | @Reads.letForm recursive _ _ _ _ _ _ _ _ _ _ _ _ _ hbindings hbody => by
    have hvalues := hbindings.isResolved
    have hbody := hbody.isResolved
    cases recursive with
    | false => exact isResolved_iff.2 ⟨hbindings.apart.1, List.forall_mem_append.2 ⟨hvalues, hbody⟩⟩
    | true => exact isResolved_iff.2 ⟨hbindings.apart.1, List.forall_mem_append.2 ⟨hvalues, hbody⟩⟩
  | .define _ _ hvalue => isResolved_iff.2 ⟨trivial, by simp [children, hvalue.isResolved]⟩

theorem ReadsAll.isResolved {k k' : Nat} {ds : List Datum} {es : List Expr} :
    ReadsAll k ds es k' → ∀ e ∈ es, e.IsResolved
  | .nil => by simp
  | .cons he hes => List.forall_mem_cons.2 ⟨he.isResolved, hes.isResolved⟩

theorem ReadsBindings.isResolved {recursive : Bool} {seen : List String} {k k' : Nat}
    {ds : List Datum} {bs : List (Decl × Expr)} :
    ReadsBindings recursive seen k ds bs k' → ∀ e ∈ bs.map (·.2), e.IsResolved
  | .nil => by simp
  | .cons _ hvalue _ hrest => List.forall_mem_cons.2 ⟨hvalue.isResolved, hrest.isResolved⟩

end

/-! ## Where calls lead -/

theorem RowAt.mem {Γ : Scope} {n m : Nat} {es : List Expr} {c : Expr} (h : RowAt Γ n es m c) :
    c ∈ es := by
  induction h with
  | head => exact List.mem_cons_self
  | tail _ _ ih => exact List.mem_cons_of_mem _ ih

theorem ProcedureAt.mem {Γ : Scope} {n m : Nat} {bs : List (Decl × Expr)} {params : List Param}
    {es : List Expr} (h : ProcedureAt Γ n bs m params es) :
    ∃ span result, lambda span params result es ∈ bs.map (·.2) := by
  induction h with
  | head => exact ⟨_, _, List.mem_cons_self⟩
  | tail _ _ ih =>
    obtain ⟨span, result, h⟩ := ih
    exact ⟨span, result, List.mem_cons_of_mem _ h⟩

theorem FormAt.inside {Γ Δ : Scope} {n m : Nat} {forms : List Expr} {binders : List Binders}
    {c : Expr} (h : FormAt Γ n forms binders Δ m c) : ∃ form ∈ forms, Inside c form := by
  induction h with
  | value => exact ⟨_, List.mem_cons_self, .child List.mem_cons_self .refl⟩
  | expression => exact ⟨_, List.mem_cons_self, .refl⟩
  | after _ _ ih =>
    obtain ⟨form, hform, hc⟩ := ih
    exact ⟨form, List.mem_cons_of_mem _ hform, hc⟩

/-- Only parts are called. -/
theorem Calls.inside {Γ Δ : Scope} {n m : Nat} {e c : Expr} {binders : List Binders}
    (h : Calls Γ n e binders Δ m c) : Inside c e := by
  cases h with
  | test | consequent | alternative => exact .child (by simp [children]) .refl
  | body hrow => exact .child hrow.mem .refl
  | operator => exact .child List.mem_cons_self .refl
  | operand _ hrow => exact .child (List.mem_cons_of_mem _ hrow.mem) .refl
  | value hrow => exact .child (List.mem_append_left _ hrow.mem) .refl
  | letBody _ hrow | letrecBody _ _ hrow => exact .child (List.mem_append_right _ hrow.mem) .refl
  | procedure _ hat hrow =>
    obtain ⟨span, result, hvalue⟩ := hat.mem
    exact .child (List.mem_append_left _ hvalue) (.child hrow.mem .refl)
  | form hat =>
    obtain ⟨form, hform, hc⟩ := hat.inside
    exact .child hform hc

theorem nodup_params {params : List Param} (h : (params.map Param.name).Nodup) :
    ((Param.bindings params).map Prod.fst).Nodup := by
  rw [Param.bindings, List.map_map]
  exact h

theorem nodup_recursiveBinders {bindings : List (Decl × Expr)}
    (h : (bindings.map (·.1.name)).Nodup) : ((recursiveBinders bindings).map Prod.fst).Nodup := by
  rw [recursiveBinders, List.map_map]
  exact h

/-- Each definition binds one name. -/
theorem FormAt.bindOnce {Γ Δ : Scope} {n m : Nat} {forms : List Expr} {binders : List Binders}
    {c : Expr} (h : FormAt Γ n forms binders Δ m c) : BindOnce binders := by
  induction h with
  | value | expression => exact nofun
  | @after _ _ _ _ _ _ e _ _ _ _ _ _ ih =>
    intro f hf
    rcases List.mem_append.1 hf with hf | hf
    · exact ih f hf
    · cases e with
      | define span decl value =>
        obtain rfl := List.mem_singleton.1 hf
        exact List.nodup_singleton _
      | missing | number | boolean | string | quoted | primitive | var | cond | lambda | app | letin
      | letrec | program => cases hf

/-- The binders between an expression and a part of it bind no name twice in one place. -/
theorem Calls.bindOnce {Γ Δ : Scope} {n m : Nat} {e c : Expr} {binders : List Binders}
    (h : Calls Γ n e binders Δ m c) (he : e.IsResolved) : BindOnce binders := by
  have hself := he e .refl
  cases h with
  | test | consequent | alternative | operator | operand | value => exact nofun
  | body =>
    intro f hf
    obtain rfl := List.mem_singleton.1 hf
    exact nodup_params hself
  | letBody =>
    intro f hf
    obtain rfl := List.mem_singleton.1 hf
    rw [declaredBinders, List.map_map]
    exact hself
  | letrecBody =>
    intro f hf
    obtain rfl := List.mem_singleton.1 hf
    exact nodup_recursiveBinders hself
  | procedure _ hat _ =>
    -- The parameters are distinct because the procedure itself is a form inside this one.
    obtain ⟨span, result, hvalue⟩ := hat.mem
    have hparams := he _ (.child (List.mem_append_left _ hvalue) .refl)
    intro f hf
    rcases List.mem_pair.1 hf with rfl | rfl
    · exact nodup_params hparams
    · exact nodup_recursiveBinders hself
  | form hat => exact hat.bindOnce

/-- A symbol that is no operator has the type of its name in the scope of its binders, and an operator
has an instance of its signature. -/
theorem Judged.resolved {τ : Ty} {Γ : Scope} {n : Nat} {e : Expr} {o : Occurrence}
    (h : Judged τ Γ n e o) (he : e.IsResolved) :
    BindOnce o.binders ∧
      (TypedScheme.isPrimitive o.token.text = false →
        Scope.lookup (o.binders.map Frame.ofBindings ++ Γ) o.token.text = some τ) ∧
      (TypedScheme.isPrimitive o.token.text = true → ∃ signature m,
        Primitive.signature? o.token.text = some signature ∧
          τ = (Primitive.instantiate m signature).1) := by
  induction h with
  | @symbol Γ depth σ e t hsymbol hrun =>
    obtain ⟨n', hderives⟩ : ∃ n', Derives Matching Γ σ.last e τ n' :=
      ⟨_, (counts_typeOf Γ depth e σ τ _).1 ⟨hrun, rfl⟩⟩
    -- The parser has told operators and variables apart by their names.
    rcases eq_of_symbol? hsymbol with rfl | rfl
    · have hname : TypedScheme.isPrimitive t.text = true := he _ .refl
      refine ⟨nofun, ?_, ?_⟩
      · intro hnot
        cases hname.symm.trans hnot
      · intro _
        cases hderives with
        | primitive hsignature => exact ⟨_, σ.last, hsignature, rfl⟩
    · have hname : TypedScheme.isPrimitive t.text = false := he _ .refl
      refine ⟨nofun, ?_, ?_⟩
      · intro _
        cases hderives with
        | var hlookup => exact hlookup
      · intro hnot
        cases hname.symm.trans hnot
  | @part Γ Δ n m e c binders o hcalls _ ih =>
    obtain ⟨honce, hvar, hprimitive⟩ := ih (he.of_inside hcalls.inside)
    refine ⟨?_, ?_, hprimitive⟩
    · intro f hf
      rcases List.mem_append.1 hf with hf | hf
      · exact honce f hf
      · exact hcalls.bindOnce he f hf
    · intro hname
      -- The binders between the two scopes are those that the call adds.
      rw [Occurrence.within, List.map_append, List.append_assoc, ← hcalls.scope_eq]
      exact hvar hname

end Expr

namespace Program

/-- A program that has been parsed is resolved. -/
theorem isResolved_of_parse {source : String} {k k' : Nat} {p : Program}
    (hparse : (parse source).runFrom k = (.ok p, k')) : p.expr.IsResolved := by
  obtain ⟨ds, -, hreads⟩ := parse_eq_ok_iff.1 hparse
  exact Expr.isResolved_iff.2 ⟨trivial, hreads.isResolved⟩

/-- If the check of a program succeeds, every symbol of it has been judged. -/
theorem exists_judged_of_check {p : Program} {σ : CheckState} {t : Ty} {Γ : Scope}
    (hcheck : ((p.check .empty).run σ).1 = .ok (t, Γ)) {o : Occurrence} (ho : o ∈ p.expr.symbols) :
    ∃ τ, Expr.Judged τ .empty σ.last p.expr o := by
  have hforms := (Expr.counts_typeOfForms .empty 0 p.forms σ (t, Γ) _).1 ⟨hcheck, rfl⟩
  exact Expr.exists_judged p.expr (.program hforms) ho

/-- In a program that is parsed and checked, a type is computed for every symbol in the position of an
expression. If the symbol is not the name of a primitive operator, this is the type that the innermost
binder of the name gives: a parameter, a `let` binding and a definition give the declared type, and a
recursive binding gives the type of its procedure. The name of an operator always has an instance of the
operator's signature. -/
theorem type_of_symbol {source : String} {k k' : Nat} {p : Program} {σ : CheckState} {t : Ty}
    {Γ : Scope} (hparse : (parse source).runFrom k = (.ok p, k'))
    (hcheck : ((p.check .empty).run σ).1 = .ok (t, Γ)) {o : Occurrence} (ho : o ∈ p.expr.symbols) :
    (∃ τ, Expr.Judged τ .empty σ.last p.expr o) ∧
    ∀ τ, Expr.Judged τ .empty σ.last p.expr o →
      (isPrimitive o.token.text = false → ∀ β, Gives o.binders o.token.text β ↔ β = τ) ∧
      (isPrimitive o.token.text = true → ∃ signature m,
        Primitive.signature? o.token.text = some signature ∧
          τ = (Primitive.instantiate m signature).1) := by
  refine ⟨exists_judged_of_check hcheck ho, ?_⟩
  intro τ hτ
  obtain ⟨honce, hvar, hprimitive⟩ := hτ.resolved (isResolved_of_parse hparse)
  refine ⟨?_, hprimitive⟩
  intro hname β
  -- Nothing but the binders around the symbol is in its scope.
  have hlookup := hvar hname
  rw [Scope.empty, List.append_nil] at hlookup
  rw [← lookup_eq_some_iff_gives honce, hlookup, Option.some.injEq, eq_comm]

/-- A text that is parsed and checked, with its symbols. -/
theorem exists_symbols (source : String) (texts : List (String × List Binders))
    (h : ((parse source).runFrom 0).1.toOption.bind (fun p =>
      ((p.check .empty).run ⟨0, false, []⟩).1.toOption.map fun _ =>
        p.expr.symbols.map fun o => (o.token.text, o.binders)) = some texts) :
    ∃ p k' t Γ, (parse source).runFrom 0 = (.ok p, k') ∧
      ((p.check .empty).run ⟨0, false, []⟩).1 = .ok (t, Γ) ∧
        p.expr.symbols.map (fun o => (o.token.text, o.binders)) = texts := by
  obtain ⟨p, k', hparse, hchecked⟩ := exists_of_toOption_bind h
  obtain ⟨⟨t, Γ⟩, hcheck, hsymbols⟩ := Option.map_eq_some_iff.1 hchecked
  exact ⟨p, k', t, Γ, hparse, toOption_eq_some_iff.1 hcheck, hsymbols⟩

/-- A name that two definitions bind, and then a parameter. -/
theorem type_of_symbol_shadowed :
    let source := "(define (x : number) 1) (define (x : boolean) #t)" ++
      "(let ((y : boolean x)) (lambda ((x : string)) : string x))"
    ∃ p k' t Γ, (parse source).runFrom 0 = (.ok p, k') ∧
      ((p.check .empty).run ⟨0, false, []⟩).1 = .ok (t, Γ) ∧
      (∃ o ∈ p.expr.symbols, o.binders = [[("x", .base .boolean)], [("x", .base .number)]] ∧
        Expr.Judged (.base .boolean) .empty 0 p.expr o) ∧
      ∃ o ∈ p.expr.symbols, o.binders = [[("x", .base .string)], [("y", .base .boolean)],
          [("x", .base .boolean)], [("x", .base .number)]] ∧
        Expr.Judged (.base .string) .empty 0 p.expr o := by
  intro source
  obtain ⟨p, k', t, Γ, hparse, hcheck, hsymbols⟩ := exists_symbols source
    [("x", [[("x", .base .boolean)], [("x", .base .number)]]),
      ("x", [[("x", .base .string)], [("y", .base .boolean)], [("x", .base .boolean)],
        [("x", .base .number)]])] (by decide +kernel)
  -- The first binder of both symbols is one of their own name.
  have hfirst : ∀ u outer, ("x", [("x", u)] :: outer) ∈ p.expr.symbols.map (fun o =>
      (o.token.text, o.binders)) → ∃ o ∈ p.expr.symbols, o.binders = [("x", u)] :: outer ∧
        Expr.Judged u .empty 0 p.expr o := by
    intro u outer hmem
    obtain ⟨⟨token, binders⟩, ho, heq⟩ := List.mem_map.1 hmem
    obtain ⟨htext, rfl⟩ := Prod.mk.inj heq
    obtain ⟨⟨τ, hτ⟩, hunique⟩ := type_of_symbol hparse hcheck ho
    have hname : isPrimitive token.text = false := by
      rw [htext]
      decide +kernel
    have hgives : Gives ([("x", u)] :: outer) token.text u := by
      rw [htext]
      exact .here List.mem_cons_self
    obtain rfl := ((hunique τ hτ).1 hname u).1 hgives
    exact ⟨_, ho, rfl, hτ⟩
  exact ⟨p, k', t, Γ, hparse, hcheck, hfirst _ _ (by simp [hsymbols]), hfirst _ _ (by simp [hsymbols])⟩

/-- The name of a primitive operator can be bound, but the symbol in the scope of the binder is still the
operator. -/
theorem bound_primitive_ignored :
    ∃ p k' t Γ, (parse "(let ((not : number 1)) not)").runFrom 0 = (.ok p, k') ∧
      ((p.check .empty).run ⟨0, false, []⟩).1 = .ok (t, Γ) ∧
      ∃ o ∈ p.expr.symbols, Gives o.binders o.token.text (.base .number) ∧
        Expr.Judged (.proc [.base .boolean] (.base .boolean)) .empty 0 p.expr o ∧
        ¬Expr.Judged (.base .number) .empty 0 p.expr o := by
  obtain ⟨p, k', t, Γ, hparse, hcheck, hsymbols⟩ := exists_symbols "(let ((not : number 1)) not)"
    [("not", [[("not", .base .number)]])] (by decide +kernel)
  have hmem : ("not", [[("not", Ty.base .number)]]) ∈
      p.expr.symbols.map (fun o => (o.token.text, o.binders)) := by simp [hsymbols]
  obtain ⟨⟨token, binders⟩, ho, heq⟩ := List.mem_map.1 hmem
  obtain ⟨htext, rfl⟩ := Prod.mk.inj heq
  have hoperator : ∀ τ, Expr.Judged τ .empty 0 p.expr ⟨token, [[("not", .base .number)]]⟩ →
      τ = .proc [.base .boolean] (.base .boolean) := by
    intro τ hτ
    obtain ⟨-, -, hprimitive⟩ := hτ.resolved (isResolved_of_parse hparse)
    rw [show token.text = "not" from htext] at hprimitive
    obtain ⟨signature, m, hsignature, rfl⟩ := hprimitive (by decide +kernel)
    obtain rfl := Option.some.inj hsignature
    rfl
  obtain ⟨τ, hτ⟩ := exists_judged_of_check hcheck ho
  obtain rfl := hoperator τ hτ
  refine ⟨p, k', t, Γ, hparse, hcheck, _, ho, ?_, hτ, ?_⟩
  · rw [show token.text = "not" from htext]
    exact .here List.mem_cons_self
  · intro hnumber
    cases hoperator _ hnumber

end Program

end TypedScheme
