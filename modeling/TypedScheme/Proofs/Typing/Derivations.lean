import TypedScheme.Proofs.Ty.Bind
import TypedScheme.Proofs.Typing.Forms

/-!
# Derivations with numbered variables

The rules by which the checker gets at a type when types have variables. A derivation goes from one
number of a type variable to another and compares types by matching them, so that it retraces one run.
At five places the type of a part is computed, another type is kept in its place, and the two are only
compared: in the alternative of a condition, in the value of a `let` binding and of a definition, in the
body of a procedure and in that of a recursively bound procedure. The rules leave open what is asked of
the two types there: it is the parameter `Keeps kept computed`.

## What this module delivers

- `Check.Counts c Q`: from every state, the results of `c` with the last numbers in use then are exactly
  the values that satisfy `Q`.
- `Expr.Derives Keeps Γ n e τ n'` and the judgments for the parts of expressions and for programs.
- `Expr.counts_typeOf` and its companions: the checker follows the rules with matching types kept for
  each other.
- `Expr.Derives.mono` and its companions: a derivation that keeps matching types is one that keeps types
  related by whatever follows from that.
-/

set_option autoImplicit false

namespace TypedScheme

/-! ## Runs with the numbers they give out -/

namespace Check

variable {α β : Type}

/-- From every state, the results of a check and the last numbers in use after it are exactly the values
that satisfy `Q`. -/
def Counts (c : Check α) (Q : Nat → α → Nat → Prop) : Prop :=
  ∀ σ a n', (c.run σ).1 = .ok a ∧ (c.run σ).2.last = n' ↔ Q σ.last a n'

namespace Counts

variable {c : Check α} {P Q : Nat → α → Nat → Prop}

/-- What a check counts can be said in other words. -/
theorem congr (h : Counts c P) (hPQ : ∀ n a n', P n a n' ↔ Q n a n') : Counts c Q :=
  fun σ a n' => (h σ a n').trans (hPQ σ.last a n')

theorem pure (a : α) : Counts (Pure.pure a) fun n b n' => b = a ∧ n' = n := by
  intro σ b n'
  rw [run_pure, Except.ok.injEq]
  exact and_congr eq_comm eq_comm

/-- A check that fails counts nothing. -/
theorem fault {f : TypeFault} {span : Span} (h : ∀ n a n', ¬Q n a n') : Counts (fault f span) Q := by
  intro σ a n'
  simp [h σ.last a n']

theorem numbered (make : Nat → α × Nat) :
    Counts (numbered make) fun n a n' => a = (make n).1 ∧ n' = (make n).2 := by
  intro σ a n'
  rw [run_numbered, Except.ok.injEq]
  exact and_congr eq_comm eq_comm

/-- The results of a bind are those of its second part after a result of its first part. -/
theorem bind {f : α → Check β} {R : α → Nat → β → Nat → Prop} (hc : Counts c P)
    (hf : ∀ a, (∃ n m, P n a m) → Counts (f a) (R a)) :
    Counts (c >>= f) fun n b n' => ∃ a m, P n a m ∧ R a m b n' := by
  intro σ b n'
  rcases hr : c.run σ with ⟨_ | a, σ'⟩
  · rw [run_bind_error hr]
    constructor
    · rintro ⟨h, -⟩
      simp at h
    · rintro ⟨a, m, ha, -⟩
      -- The first part has no result from this state.
      have hok := ((hc σ a m).2 ha).1
      rw [hr] at hok
      simp at hok
  · have ha : P σ.last a σ'.last := (hc σ a σ'.last).1 (by rw [hr]; exact ⟨rfl, rfl⟩)
    rw [run_bind_ok hr, hf a ⟨_, _, ha⟩ σ' b n']
    constructor
    · exact fun h => ⟨a, σ'.last, ha, h⟩
    · rintro ⟨a', m, ha', h⟩
      -- The first part has one result and one last number from a given state.
      obtain ⟨hok, hlast⟩ := (hc σ a' m).2 ha'
      rw [hr] at hok hlast
      injection hok with hok
      exact hok ▸ hlast ▸ h

/-- A check that is preceded by a note has the same results. -/
theorem after_note {depth : Nat} {e : Expr} (hc : Counts c Q) :
    Counts (do Check.note depth e; c) Q := by
  intro σ a n'
  obtain ⟨notes, h⟩ := run_note depth e σ
  rw [run_bind_ok h]
  exact hc _ a n'

/-- A check after a requirement has the same results if the requirement holds, and else none. -/
theorem after_require {expected found : Ty} {inside : Expr} (hc : Counts c Q) :
    Counts (do Check.require expected found inside; c)
      fun n a n' => expected.agrees found = true ∧ Q n a n' := by
  intro σ a n'
  by_cases h : expected.agrees found = true
  · have hrun : (Check.require expected found inside).run σ = (.ok (), σ) := by
      rw [run_require, if_pos h]
    rw [run_bind_ok hrun, hc σ a n']
    exact (and_iff_right h).symm
  · have hrun : (Check.require expected found inside).run σ =
        (.error ⟨.mismatch expected found inside, inside.span⟩, σ) := by
      rw [run_require, if_neg h]
    rw [run_bind_error hrun]
    simp [h]

end Counts

/-- Looking up a name gives its type and no number out. -/
theorem counts_lookup (Γ : Scope) (name : String) (span : Span) :
    (lookup Γ name span).Counts fun n t n' => Γ.lookup name = some t ∧ n' = n := by
  unfold lookup
  cases Γ.lookup name with
  | none => exact .fault fun n t n' => by simp
  | some u => exact (Counts.pure u).congr fun n t n' => by rw [Option.some.injEq, eq_comm]

end Check

namespace Expr

open Check

/-! ## The rules -/

/-- The names that recursive bindings bring into scope, each with the type of its procedure, which
agrees with a declared type. -/
inductive DeclaresAgreeing : List (Decl × Expr) → List (String × Ty) → Prop
  | nil : DeclaresAgreeing [] []
  | cons {decl : Decl} {span : Span} {params : List Param} {result : Ty} {body : List Expr}
      {rest : List (Decl × Expr)} {βs : List (String × Ty)} :
      (∀ t, decl.ty? = some t → t.agrees (procType params result) = true) →
      DeclaresAgreeing rest βs →
      DeclaresAgreeing ((decl, lambda span params result body) :: rest)
        ((decl.name, procType params result) :: βs)

section Rules

variable (Keeps : Ty → Ty → Prop)

mutual

/-- An expression gets a type in a scope, from one number of a type variable to another. -/
inductive Derives : Scope → Nat → Expr → Ty → Nat → Prop
  | number {Γ : Scope} {n : Nat} {t : Token} {v : Binary64} :
      Derives Γ n (number t v) (.base .number) n
  | boolean {Γ : Scope} {n : Nat} {t : Token} {b : Bool} :
      Derives Γ n (boolean t b) (.base .boolean) n
  | string {Γ : Scope} {n : Nat} {t : Token} {s : Text.Pieces} :
      Derives Γ n (string t s) (.base .string) n
  | quoted {Γ : Scope} {n : Nat} {t : Token} {v : Value} {span : Span} {τ : Ty} :
      v.typeOf true = .ok τ → Derives Γ n (quoted t v span) τ n
  | primitive {Γ : Scope} {n : Nat} {t : Token} {signature : Ty} :
      Primitive.signature? t.text = some signature →
      Derives Γ n (primitive t) (Primitive.instantiate n signature).1
        (Primitive.instantiate n signature).2
  | var {Γ : Scope} {n : Nat} {t : Token} {τ : Ty} :
      Γ.lookup t.text = some τ → Derives Γ n (var t) τ n
  | cond {Γ : Scope} {n n₁ n₂ n' : Nat} {span : Span} {test consequent alternative : Expr}
      {testType kept computed : Ty} :
      Derives Γ n test testType n₁ → Ty.agrees (.base .boolean) testType = true →
      Derives Γ n₁ consequent kept n₂ → Derives Γ n₂ alternative computed n' →
      Keeps kept computed → Derives Γ n (cond span test consequent alternative) kept n'
  | lambda {Γ : Scope} {n n' : Nat} {span : Span} {params : List Param} {result computed : Ty}
      {body : List Expr} :
      BodyDerives (Γ.extend (Param.bindings params)) n body computed n' → Keeps result computed →
      Derives Γ n (lambda span params result body) (procType params result) n'
  | app {Γ : Scope} {n n₁ n' : Nat} {span : Span} {operator : Expr} {operands : List Expr}
      {params : List Ty} {result : Ty} {s : Substitution} :
      Derives Γ n operator (.proc params result) n₁ → params.length = operands.length →
      OperandsMatch Γ ((Ty.proc params result).freshVars n₁).2 []
        (Ty.bindAll ((Ty.proc params result).freshVars n₁).1 params) operands s n' →
      Derives Γ n (app span operator operands)
        (s.apply (result.bind ((Ty.proc params result).freshVars n₁).1)) n'
  | letin {Γ : Scope} {n n₁ n' : Nat} {span : Span} {bindings : List (Decl × Expr)}
      {body : List Expr} {βs : List (String × Ty)} {τ : Ty} :
      BindingsDerive Γ n bindings βs n₁ → BodyDerives (Γ.extend βs) n₁ body τ n' →
      Derives Γ n (letin span bindings body) τ n'
  | letrec {Γ : Scope} {n n₁ n' : Nat} {span : Span} {bindings : List (Decl × Expr)}
      {body : List Expr} {βs : List (String × Ty)} {τ : Ty} :
      DeclaresAgreeing bindings βs → ProceduresDerive (Γ.extend βs) n bindings n₁ →
      BodyDerives (Γ.extend βs) n₁ body τ n' → Derives Γ n (letrec span bindings body) τ n'
  | program {Γ Γ' : Scope} {n n' : Nat} {forms : List Expr} {τ : Ty} :
      FormsDerive Γ n forms τ Γ' n' → Derives Γ n (program forms) τ n'

/-- The expressions of a body get types in order, and the last one that of the body. -/
inductive BodyDerives : Scope → Nat → List Expr → Ty → Nat → Prop
  | last {Γ : Scope} {n n' : Nat} {e : Expr} {τ : Ty} :
      Derives Γ n e τ n' → BodyDerives Γ n [e] τ n'
  | cons {Γ : Scope} {n n₁ n' : Nat} {e : Expr} {es : List Expr} {σ τ : Ty} :
      Derives Γ n e σ n₁ → BodyDerives Γ n₁ es τ n' → BodyDerives Γ n (e :: es) τ n'

/-- The types of operands match those of parameters one by one, each after the bindings of the matches
before it. -/
inductive OperandsMatch :
    Scope → Nat → Substitution → List Ty → List Expr → Substitution → Nat → Prop
  | nil {Γ : Scope} {n : Nat} {s : Substitution} : OperandsMatch Γ n s [] [] s n
  | cons {Γ : Scope} {n n₁ n' : Nat} {s s' : Substitution} {param τ : Ty} {params : List Ty}
      {e : Expr} {es : List Expr} :
      Derives Γ n e τ n₁ → (s.unify param τ).1 = true →
      OperandsMatch Γ n₁ (s.unify param τ).2 params es s' n' →
      OperandsMatch Γ n s (param :: params) (e :: es) s' n'

/-- The values of bindings get types in the scope outside, for which their declared types are kept. -/
inductive BindingsDerive : Scope → Nat → List (Decl × Expr) → List (String × Ty) → Nat → Prop
  | nil {Γ : Scope} {n : Nat} : BindingsDerive Γ n [] [] n
  | cons {Γ : Scope} {n n₁ n' : Nat} {decl : Decl} {value : Expr} {rest : List (Decl × Expr)}
      {computed : Ty} {βs : List (String × Ty)} :
      Derives Γ n value computed n₁ → Keeps decl.boundType computed →
      BindingsDerive Γ n₁ rest βs n' →
      BindingsDerive Γ n ((decl, value) :: rest) ((decl.name, decl.boundType) :: βs) n'

/-- The bodies of recursively bound procedures get types, for which their result types are kept. -/
inductive ProceduresDerive : Scope → Nat → List (Decl × Expr) → Nat → Prop
  | nil {Γ : Scope} {n : Nat} : ProceduresDerive Γ n [] n
  | cons {Γ : Scope} {n n₁ n' : Nat} {decl : Decl} {span : Span} {params : List Param}
      {result computed : Ty} {body : List Expr} {rest : List (Decl × Expr)} :
      BodyDerives (Γ.extend (Param.bindings params)) n body computed n₁ → Keeps result computed →
      ProceduresDerive Γ n₁ rest n' →
      ProceduresDerive Γ n ((decl, lambda span params result body) :: rest) n'

/-- A form of a program gets a type in a scope and leaves a scope. -/
inductive FormDerives : Scope → Nat → Expr → Ty → Scope → Nat → Prop
  | define {Γ : Scope} {n n' : Nat} {span : Span} {decl : Decl} {value : Expr} {computed : Ty} :
      Derives Γ n value computed n' → Keeps decl.boundType computed →
      FormDerives Γ n (define span decl value) (.base .void)
        (Γ.extend [(decl.name, decl.boundType)]) n'
  | expression {Γ : Scope} {n n' : Nat} {e : Expr} {τ : Ty} :
      Derives Γ n e τ n' → FormDerives Γ n e τ Γ n'

/-- The forms of a program get types, each in the scope that the one before leaves. -/
inductive FormsDerive : Scope → Nat → List Expr → Ty → Scope → Nat → Prop
  | last {Γ Γ' : Scope} {n n' : Nat} {e : Expr} {τ : Ty} :
      FormDerives Γ n e τ Γ' n' → FormsDerive Γ n [e] τ Γ' n'
  | cons {Γ Γ' Γ'' : Scope} {n n₁ n' : Nat} {e : Expr} {es : List Expr} {σ τ : Ty} :
      FormDerives Γ n e σ Γ' n₁ → FormsDerive Γ' n₁ es τ Γ'' n' →
      FormsDerive Γ n (e :: es) τ Γ'' n'

end

end Rules

/-! ## The checker follows the rules -/

/-- What is asked of two types that the checker keeps for each other: it only matches them. -/
def Matching (kept computed : Ty) : Prop := kept.agrees computed = true

theorem counts_recursiveBinding (b : Decl × Expr) :
    (recursiveBinding b).Counts fun n β n' => DeclaresAgreeing [b] [β] ∧ n' = n := by
  obtain ⟨decl, value⟩ := b
  cases value with
  | lambda span params result body =>
    rw [recursiveBinding]
    cases hd : decl.ty? with
    | none =>
      -- Without a declared type nothing is compared.
      refine (Counts.pure _).congr fun n β n' => ⟨?_, ?_⟩
      · rintro ⟨rfl, rfl⟩
        exact ⟨.cons (by simp [hd]) .nil, rfl⟩
      · rintro ⟨h, rfl⟩
        cases h
        exact ⟨rfl, rfl⟩
    | some declared =>
      refine (Counts.after_require (.pure _)).congr fun n β n' => ⟨?_, ?_⟩
      · rintro ⟨h, rfl, rfl⟩
        exact ⟨.cons (by simpa [hd] using h) .nil, rfl⟩
      · rintro ⟨h, rfl⟩
        cases h with
        | cons h _ => exact ⟨h declared hd, rfl, rfl⟩
  | missing | number | boolean | string | quoted | primitive | var | cond | app | letin | letrec
  | define | program =>
    refine .fault ?_
    rintro n β n' ⟨h, -⟩
    cases h

/-- The types of recursive bindings are those that they declare, and no number is given out. -/
theorem counts_recursiveBindings (bs : List (Decl × Expr)) :
    (recursiveBindings bs).Counts fun n βs n' => DeclaresAgreeing bs βs ∧ n' = n := by
  induction bs with
  | nil =>
    refine (Counts.pure _).congr fun n βs n' => ⟨?_, ?_⟩
    · rintro ⟨rfl, rfl⟩
      exact ⟨.nil, rfl⟩
    · rintro ⟨h, rfl⟩
      cases h
      exact ⟨rfl, rfl⟩
  | cons b bs ih =>
    refine ((counts_recursiveBinding b).bind fun β _ => ih.bind fun βs _ => .pure _).congr
      fun n βs n' => ⟨?_, ?_⟩
    · rintro ⟨β, n₁, ⟨hβ, rfl⟩, βs, n₂, ⟨hβs, rfl⟩, rfl, rfl⟩
      cases hβ with
      | cons h _ => exact ⟨.cons h hβs, rfl⟩
    · rintro ⟨h, rfl⟩
      cases h with
      | cons h hβs => exact ⟨_, _, ⟨.cons h .nil, rfl⟩, _, _, ⟨hβs, rfl⟩, rfl, rfl⟩

/-- A quoted value has its own type and no other, and takes no number. -/
theorem derives_quoted_iff {Γ : Scope} {n n' : Nat} {t : Token} {v : Value} {span : Span} {τ : Ty} :
    Derives Matching Γ n (quoted t v span) τ n' ↔ v.typeOf true = .ok τ ∧ n' = n := by
  constructor
  · intro h
    cases h with
    | quoted h => exact ⟨h, rfl⟩
  · rintro ⟨h, rfl⟩
    exact .quoted h

/-- An operator has a new copy of its signature, numbered from the last number on. -/
theorem derives_primitive_iff {Γ : Scope} {n n' : Nat} {t : Token} {τ : Ty} :
    Derives Matching Γ n (primitive t) τ n' ↔ ∃ signature,
      Primitive.signature? t.text = some signature ∧
        τ = (Primitive.instantiate n signature).1 ∧ n' = (Primitive.instantiate n signature).2 := by
  constructor
  · intro h
    cases h with
    | primitive h => exact ⟨_, h, rfl, rfl⟩
  · rintro ⟨signature, h, rfl, rfl⟩
    exact .primitive h

/-- The type of an application whose operator is a procedure with as many parameters as there are
operands: the result of a copy with new variables, after its parameters have been matched. -/
def ResultOfCopy (Γ : Scope) (params : List Ty) (result : Ty) (operands : List Expr) (n : Nat) (τ : Ty)
    (n' : Nat) : Prop :=
  ∃ s, OperandsMatch Matching Γ ((Ty.proc params result).freshVars n).2 []
      (Ty.bindAll ((Ty.proc params result).freshVars n).1 params) operands s n' ∧
    τ = s.apply (result.bind ((Ty.proc params result).freshVars n).1)

/-- The type of an application is computed from a new copy of the type of its operator. -/
theorem counts_copy {Γ : Scope} {d : Nat} {params : List Ty} {result : Ty} {operands : List Expr}
    (hmatch : ∀ ps : List Ty, ps.length = operands.length →
      (matchOperands Γ d [] ps operands).Counts (OperandsMatch Matching Γ · [] ps operands))
    (hlen : params.length = operands.length) :
    Counts (do
      let fresh ← Check.numbered fun last => (Ty.proc params result).freshVars last
      let s ← matchOperands Γ d [] (Ty.bindAll fresh params) operands
      Pure.pure (s.apply (result.bind fresh))) (ResultOfCopy Γ params result operands) := by
  have hcopies : ∀ fresh, (Ty.bindAll fresh params).length = operands.length := by
    intro fresh
    rw [Ty.bindAll_eq_map, List.length_map, hlen]
  refine ((Counts.numbered _).bind fun fresh _ => (hmatch _ (hcopies fresh)).bind fun s _ =>
    .pure _).congr fun n τ n' => ⟨?_, ?_⟩
  · rintro ⟨fresh, n₁, ⟨rfl, rfl⟩, s, n₂, hs, rfl, rfl⟩
    exact ⟨s, hs, rfl⟩
  · rintro ⟨s, hs, rfl⟩
    exact ⟨_, _, ⟨rfl, rfl⟩, s, _, hs, rfl, rfl⟩

/-- A definition counts what its value does. -/
theorem counts_define {Γ : Scope} {d : Nat} {span : Span} {decl : Decl} {value : Expr}
    (hvalue : (typeOf Γ (d + 1) value).Counts (Derives Matching Γ · value)) :
    (typeOfForm Γ d (define span decl value)).Counts fun n r n' =>
      FormDerives Matching Γ n (define span decl value) r.1 r.2 n' := by
  refine (Counts.after_note (hvalue.bind fun t _ => .after_require (.pure _))).congr
    fun n r n' => ⟨?_, fun h => ?_⟩
  · rintro ⟨t, m, ht, hagree, rfl, rfl⟩
    exact .define ht hagree
  · obtain ⟨τ, Γ'⟩ := r
    cases h with
    | define ht hagree => exact ⟨_, _, ht, hagree, rfl, rfl⟩
    | expression h =>
      -- No rule gives a type to a definition inside an expression.
      cases h

/-- A form that is no definition counts what it does as an expression, and leaves the scope as it is.
-/
theorem counts_expressionForm {Γ : Scope} {d : Nat} {e : Expr}
    (hne : ∀ span decl value, e ≠ define span decl value)
    (he : (typeOf Γ d e).Counts (Derives Matching Γ · e)) :
    (typeOfForm Γ d e).Counts fun n r n' => FormDerives Matching Γ n e r.1 r.2 n' := by
  rw [typeOfForm_of_ne_define hne]
  refine (he.bind fun t _ => .pure (t, Γ)).congr fun n r n' => ⟨?_, fun h => ?_⟩
  · rintro ⟨t, m, ht, rfl, rfl⟩
    exact .expression ht
  · obtain ⟨τ, Γ'⟩ := r
    cases h with
    | define => exact absurd rfl (hne _ _ _)
    | expression h => exact ⟨_, _, h, rfl, rfl⟩

mutual

/-- The types of an expression, with the numbers given out for them, are those of the rules. -/
theorem counts_typeOf (Γ : Scope) (d : Nat) (e : Expr) :
    (typeOf Γ d e).Counts (Derives Matching Γ · e) := by
  rw [typeOf.eq_def]
  refine .after_note ?_
  cases e with
  | missing => exact .fault fun n τ n' h => by cases h
  | number | boolean | string =>
    refine (Counts.pure _).congr fun n τ n' => ⟨?_, fun h => ?_⟩
    · rintro ⟨rfl, rfl⟩
      constructor
    · cases h
      exact ⟨rfl, rfl⟩
  | quoted t v span =>
    dsimp only
    cases hv : v.typeOf true with
    | error f => exact .fault fun n τ n' h => by simp [derives_quoted_iff, hv] at h
    | ok u => exact (Counts.pure u).congr fun n τ n' => by simp [derives_quoted_iff, hv, eq_comm]
  | primitive t =>
    dsimp only
    cases hs : Primitive.signature? t.text with
    | none => exact .fault fun n τ n' h => by simp [derives_primitive_iff, hs] at h
    | some signature =>
      exact (Counts.numbered _).congr fun n τ n' => by simp [derives_primitive_iff, hs]
  | var t =>
    refine (counts_lookup Γ t.text t.span).congr fun n τ n' => ⟨?_, fun h => ?_⟩
    · rintro ⟨h, rfl⟩
      exact .var h
    · cases h with
      | var h => exact ⟨h, rfl⟩
  | cond span test consequent alternative =>
    refine ((counts_typeOf Γ _ test).bind fun t _ => .after_require
      ((counts_typeOf Γ _ consequent).bind fun u _ => (counts_typeOf Γ _ alternative).bind fun v _ =>
        .after_require (.pure u))).congr fun n τ n' => ⟨?_, fun h => ?_⟩
    · rintro ⟨t, n₁, ht, hboolean, u, n₂, hu, v, n₃, hv, hkeeps, rfl, rfl⟩
      exact .cond ht hboolean hu hv hkeeps
    · cases h with
      | cond ht hboolean hu hv hkeeps =>
        exact ⟨_, _, ht, hboolean, _, _, hu, _, _, hv, hkeeps, rfl, rfl⟩
  | lambda span params result body =>
    refine ((counts_typeOfBody _ _ _ body).bind fun t _ => .after_require (.pure _)).congr
      fun n τ n' => ⟨?_, fun h => ?_⟩
    · rintro ⟨t, n₁, ht, hkeeps, rfl, rfl⟩
      exact .lambda ht hkeeps
    · cases h with
      | lambda ht hkeeps => exact ⟨_, _, ht, hkeeps, rfl, rfl⟩
  | app span operator operands =>
    have hmatch := fun ps hlen => counts_matchOperands Γ (d + 1) [] ps operands hlen
    refine ((counts_typeOf Γ _ operator).bind (R := fun t n₁ τ n' => ∃ params result,
      t = .proc params result ∧ params.length = operands.length ∧
        ResultOfCopy Γ params result operands n₁ τ n') fun t _ => ?_).congr
      fun n τ n' => ⟨?_, fun h => ?_⟩
    · cases t with
      | absent | base | var | pair =>
        refine .fault ?_
        rintro n τ n' ⟨params, result, h, -⟩
        cases h
      | proc params result =>
        dsimp only
        split
        · -- The copy is made once the number of operands is known to be right.
          rename_i hlen
          refine (counts_copy hmatch hlen).congr fun n τ n' => ⟨fun h => ⟨_, _, rfl, hlen, h⟩, ?_⟩
          rintro ⟨params, result, heq, -, h⟩
          cases heq
          exact h
        · rename_i hlen
          refine .fault ?_
          rintro n τ n' ⟨params', result', heq, hlen', -⟩
          cases heq
          exact hlen hlen'
    · rintro ⟨t, n₁, ht, params, result, rfl, hlen, s, hs, rfl⟩
      exact .app ht hlen hs
    · cases h with
      | app ht hlen hs => exact ⟨_, _, ht, _, _, rfl, hlen, _, hs, rfl⟩
  | letin span bindings body =>
    refine ((counts_typeOfBindings Γ _ bindings).bind fun βs _ =>
      counts_typeOfBody _ _ _ body).congr fun n τ n' => ⟨?_, fun h => ?_⟩
    · rintro ⟨βs, n₁, hβs, h⟩
      exact .letin hβs h
    · cases h with
      | letin hβs h => exact ⟨_, _, hβs, h⟩
  | letrec span bindings body =>
    -- All values are procedures once their names are in scope, so that none is passed over.
    refine ((counts_recursiveBindings bindings).bind fun βs ⟨_, _, hβs, _⟩ =>
      (counts_checkProcedures _ _ bindings hβs).bind fun _ _ =>
        counts_typeOfBody _ _ _ body).congr fun n τ n' => ⟨?_, fun h => ?_⟩
    · rintro ⟨βs, n₁, ⟨hβs, rfl⟩, -, n₂, hprocedures, h⟩
      exact .letrec hβs hprocedures h
    · cases h with
      | letrec hβs hprocedures h => exact ⟨_, _, ⟨hβs, rfl⟩, (), _, hprocedures, h⟩
  | define span decl value => exact .fault fun n τ n' h => by cases h
  | program forms =>
    refine ((counts_typeOfForms Γ _ forms).bind fun r _ => .pure r.1).congr
      fun n τ n' => ⟨?_, fun h => ?_⟩
    · rintro ⟨r, n₁, hr, rfl, rfl⟩
      exact .program hr
    · cases h with
      | program h => exact ⟨(τ, _), _, h, rfl, rfl⟩

/-- The checker derives the type of a body by the rules, with the numbers of the rules. -/
theorem counts_typeOfBody (Γ : Scope) (d : Nat) (owner : Expr) (es : List Expr) :
    (typeOfBody Γ d owner es).Counts (BodyDerives Matching Γ · es) := by
  match es with
  | [] => exact .fault fun n τ n' h => by cases h
  | [e] =>
    refine (counts_typeOf Γ d e).congr fun n τ n' => ⟨.last, fun h => ?_⟩
    cases h with
    | last h => exact h
    | cons _ h => cases h
  | e :: f :: es =>
    refine ((counts_typeOf Γ d e).bind fun _ _ => counts_typeOfBody Γ d owner (f :: es)).congr
      fun n τ n' => ⟨?_, fun h => ?_⟩
    · rintro ⟨σ, n₁, he, hes⟩
      exact .cons he hes
    · cases h with
      | cons he hes => exact ⟨_, _, he, hes⟩

/-- The checker matches operands by the rules, after the bindings it has. -/
theorem counts_matchOperands (Γ : Scope) (d : Nat) (s : Substitution) (params : List Ty)
    (es : List Expr) (hlen : params.length = es.length) :
    (matchOperands Γ d s params es).Counts
      (OperandsMatch Matching Γ · s params es) := by
  match params, es with
  | [], [] =>
    refine (Counts.pure s).congr fun n s' n' => ⟨?_, fun h => ?_⟩
    · rintro ⟨rfl, rfl⟩
      exact .nil
    · cases h
      exact ⟨rfl, rfl⟩
  | [], e :: es => simp at hlen
  | p :: params, [] => simp at hlen
  | p :: params, e :: es =>
    -- How the check goes on depends on whether the operand matches its parameter.
    refine ((counts_typeOf Γ d e).bind (R := fun t n₁ s' n' => (s.unify p t).1 = true ∧
      OperandsMatch Matching Γ n₁ (s.unify p t).2 params es s' n') fun t _ => ?_).congr
      fun n s' n' => ⟨?_, fun h => ?_⟩
    · dsimp only
      cases hok : (s.unify p t).1 with
      | true =>
        refine (counts_matchOperands Γ d _ params es (by simpa using hlen)).congr fun n s' n' => ?_
        simp
      | false => exact .fault fun n s' n' => by simp
    · rintro ⟨t, n₁, ht, hok, h⟩
      exact .cons ht hok h
    · cases h with
      | cons ht hok h => exact ⟨_, _, ht, hok, h⟩

/-- The checker derives the types of bindings by the rules. -/
theorem counts_typeOfBindings (Γ : Scope) (d : Nat) (bs : List (Decl × Expr)) :
    (typeOfBindings Γ d bs).Counts (BindingsDerive Matching Γ · bs) := by
  match bs with
  | [] =>
    refine (Counts.pure _).congr fun n βs n' => ⟨?_, fun h => ?_⟩
    · rintro ⟨rfl, rfl⟩
      exact .nil
    · cases h
      exact ⟨rfl, rfl⟩
  | (decl, value) :: rest =>
    refine ((counts_typeOf Γ d value).bind fun t _ => .after_require
      ((counts_typeOfBindings Γ d rest).bind fun βs _ => .pure _)).congr
      fun n βs n' => ⟨?_, fun h => ?_⟩
    · rintro ⟨t, n₁, ht, hkeeps, βs, n₂, hβs, rfl, rfl⟩
      exact .cons ht hkeeps hβs
    · cases h with
      | cons ht hkeeps hβs => exact ⟨_, _, ht, hkeeps, _, _, hβs, rfl, rfl⟩

/-- The checker derives the bodies of procedures by the rules, once their types are declared. -/
theorem counts_checkProcedures (Γ : Scope) (d : Nat) (bs : List (Decl × Expr))
    {βs : List (String × Ty)} (hβs : DeclaresAgreeing bs βs) :
    (checkProcedures Γ d bs).Counts fun n _ n' => ProceduresDerive Matching Γ n bs n' := by
  match bs with
  | [] =>
    refine (Counts.pure ()).congr fun n _ n' => ⟨?_, fun h => ?_⟩
    · rintro ⟨-, rfl⟩
      exact .nil
    · cases h
      exact ⟨rfl, rfl⟩
  | (decl, value) :: rest =>
    cases value with
    | lambda span params result body =>
      have hrest : ∃ βs, DeclaresAgreeing rest βs := by
        cases hβs with
        | cons _ hβs => exact ⟨_, hβs⟩
      obtain ⟨βs', hβs'⟩ := hrest
      refine ((counts_typeOfBody _ d _ body).bind fun t _ => .after_require
        (counts_checkProcedures Γ d rest hβs')).congr fun n _ n' => ⟨?_, fun h => ?_⟩
      · rintro ⟨t, n₁, ht, hkeeps, h⟩
        exact .cons ht hkeeps h
      · cases h with
        | cons ht hkeeps h => exact ⟨_, _, ht, hkeeps, h⟩
    | missing | number | boolean | string | quoted | primitive | var | cond | app | letin | letrec
    | define | program => cases hβs

/-- The checker derives the type of forms and the scope after them by the rules. -/
theorem counts_typeOfForms (Γ : Scope) (d : Nat) (forms : List Expr) :
    (typeOfForms Γ d forms).Counts fun n r n' => FormsDerive Matching Γ n forms r.1 r.2 n' := by
  match forms with
  | [] => exact .fault fun n r n' h => by cases h
  | e :: rest =>
    -- The first form gives its type and the scope in which the others are checked.
    have hform : (typeOfForm Γ d e).Counts fun n r n' =>
        FormDerives Matching Γ n e r.1 r.2 n' := by
      cases e with
      | define span decl value => exact counts_define (counts_typeOf Γ _ value)
      | missing | number | boolean | string | quoted | primitive | var | cond | lambda | app
      | letin | letrec | program =>
        exact counts_expressionForm (fun _ _ _ h => by cases h) (counts_typeOf Γ d _)
    match rest with
    | [] =>
      rw [typeOfForms_singleton]
      refine hform.congr fun n r n' => ⟨.last, fun h => ?_⟩
      cases h with
      | last h => exact h
      | cons _ h => cases h
    | f :: rest =>
      rw [typeOfForms_cons_cons]
      refine (hform.bind fun r _ => counts_typeOfForms r.2 d (f :: rest)).congr
        fun n r' n' => ⟨?_, fun h => ?_⟩
      · rintro ⟨r, n₁, hr, h⟩
        exact .cons hr h
      · cases h with
        | cons hr h => exact ⟨(_, _), _, hr, h⟩

end

/-! ## What is kept -/

section Mono

variable {P Q : Ty → Ty → Prop}

mutual

/-- A derivation asks of the types that are kept whatever follows from what it asks of them. -/
theorem Derives.mono {Γ : Scope} {n n' : Nat} {e : Expr} {τ : Ty}
    (hPQ : ∀ kept computed, P kept computed → Q kept computed) (h : Derives P Γ n e τ n') :
    Derives Q Γ n e τ n' := by
  match h with
  | .number => exact .number
  | .boolean => exact .boolean
  | .string => exact .string
  | .quoted hv => exact .quoted hv
  | .primitive hs => exact .primitive hs
  | .var hx => exact .var hx
  | .cond ht hboolean hu hv hkeeps =>
    exact .cond (ht.mono hPQ) hboolean (hu.mono hPQ) (hv.mono hPQ) (hPQ _ _ hkeeps)
  | .lambda hbody hkeeps => exact .lambda (hbody.mono hPQ) (hPQ _ _ hkeeps)
  | .app ht hlen hs => exact .app (ht.mono hPQ) hlen (hs.mono hPQ)
  | .letin hβs hbody => exact .letin (hβs.mono hPQ) (hbody.mono hPQ)
  | .letrec hβs hprocedures hbody => exact .letrec hβs (hprocedures.mono hPQ) (hbody.mono hPQ)
  | .program hforms => exact .program (hforms.mono hPQ)

theorem BodyDerives.mono {Γ : Scope} {n n' : Nat} {es : List Expr} {τ : Ty}
    (hPQ : ∀ kept computed, P kept computed → Q kept computed)
    (h : BodyDerives P Γ n es τ n') : BodyDerives Q Γ n es τ n' := by
  match h with
  | .last he => exact .last (he.mono hPQ)
  | .cons he hes => exact .cons (he.mono hPQ) (hes.mono hPQ)

theorem OperandsMatch.mono {Γ : Scope} {n n' : Nat} {s s' : Substitution} {params : List Ty}
    {es : List Expr} (hPQ : ∀ kept computed, P kept computed → Q kept computed)
    (h : OperandsMatch P Γ n s params es s' n') :
    OperandsMatch Q Γ n s params es s' n' := by
  match h with
  | .nil => exact .nil
  | .cons he hok hes => exact .cons (he.mono hPQ) hok (hes.mono hPQ)

theorem BindingsDerive.mono {Γ : Scope} {n n' : Nat} {bs : List (Decl × Expr)}
    {βs : List (String × Ty)} (hPQ : ∀ kept computed, P kept computed → Q kept computed)
    (h : BindingsDerive P Γ n bs βs n') : BindingsDerive Q Γ n bs βs n' := by
  match h with
  | .nil => exact .nil
  | .cons hvalue hkeeps hrest => exact .cons (hvalue.mono hPQ) (hPQ _ _ hkeeps) (hrest.mono hPQ)

theorem ProceduresDerive.mono {Γ : Scope} {n n' : Nat} {bs : List (Decl × Expr)}
    (hPQ : ∀ kept computed, P kept computed → Q kept computed)
    (h : ProceduresDerive P Γ n bs n') : ProceduresDerive Q Γ n bs n' := by
  match h with
  | .nil => exact .nil
  | .cons hbody hkeeps hrest => exact .cons (hbody.mono hPQ) (hPQ _ _ hkeeps) (hrest.mono hPQ)

theorem FormDerives.mono {Γ Γ' : Scope} {n n' : Nat} {e : Expr} {τ : Ty}
    (hPQ : ∀ kept computed, P kept computed → Q kept computed)
    (h : FormDerives P Γ n e τ Γ' n') : FormDerives Q Γ n e τ Γ' n' := by
  match h with
  | .define hvalue hkeeps => exact .define (hvalue.mono hPQ) (hPQ _ _ hkeeps)
  | .expression he => exact .expression (he.mono hPQ)

theorem FormsDerive.mono {Γ Γ' : Scope} {n n' : Nat} {forms : List Expr} {τ : Ty}
    (hPQ : ∀ kept computed, P kept computed → Q kept computed)
    (h : FormsDerive P Γ n forms τ Γ' n') : FormsDerive Q Γ n forms τ Γ' n' := by
  match h with
  | .last he => exact .last (he.mono hPQ)
  | .cons he hrest => exact .cons (he.mono hPQ) (hrest.mono hPQ)

end

end Mono

end Expr

end TypedScheme
