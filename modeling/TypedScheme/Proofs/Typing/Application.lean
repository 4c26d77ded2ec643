import TypedScheme.Proofs.Ty.Equations
import TypedScheme.Proofs.Ty.Instances
import TypedScheme.Proofs.Typing.History
import TypedScheme.Proofs.Typing.Layout
import TypedScheme.Proofs.Typing.Shift

/-!
# Applications

The parameter types of an operator are matched with the types of its operands one after the other, and
an operand is only typed once those before it match. What comes of it is the same as if all operands
were typed first and all equations between parameters and operands were solved at once.

## What this module delivers

- `Expr.typeOfAll`: the types of expressions in a row.
- `Expr.run_matchOperands`: matching the operands comes to typing all of them and matching the
  equations in order, or it stops at the first equation that fails.
- `Expr.over_typeOfAll`: the variables of the operands are those from before and new ones, so the
  copy of the operator type shares none of its variables with them.
- `Expr.typeOf_app_simultaneous`: an application is typed by simultaneous unification.
-/

set_option autoImplicit false

namespace TypedScheme

open Check Substitution

/-! ## Types that are instances of each other -/

/-- Two types that are instances of each other are equal up to the names of their variables. -/
theorem Ty.variant_of_bind_eq {t u : Ty} {δ ε : Nat → Ty} (hδ : t.bind δ = u) (hε : u.bind ε = t) :
    t.Variant u := by
  have hback : ∀ x ∈ t.vars, (δ x).bind ε = .var x := by
    apply eqOn_vars_of_bind_eq
    rw [← bind_bind, hδ, hε, bind_var]
  have hvar : ∀ x ∈ t.vars, ∃ y, δ x = .var y := by
    intro x hx
    have hx := hback x hx
    cases hy : δ x with
    | var y => exact ⟨y, rfl⟩
    | absent | base | pair | proc => simp [hy] at hx
  choose! ρ hρ using hvar
  refine ⟨ρ, fun x hx y hy hxy => ?_, ?_⟩
  · -- Both variables come back from the one type that replaces them.
    have heq : (Ty.var x) = .var y := by
      rw [← hback x hx, ← hback y hy, hρ x hx, hρ y hy, hxy]
    exact Ty.var.inj heq
  · rw [← hδ]
    exact bind_congr hρ

/-- A type under two most general solutions is the same up to the names of variables. -/
theorem Substitution.MostGeneral.variant {E : List (Ty × Ty)} {θ θ' : Nat → Ty}
    (h : MostGeneral E θ) (h' : MostGeneral E θ') (t : Ty) : (t.bind θ).Variant (t.bind θ') := by
  obtain ⟨δ, hδ⟩ := h.exists_bind_eq h' t
  obtain ⟨ε, hε⟩ := h'.exists_bind_eq h t
  exact Ty.variant_of_bind_eq hδ hε

namespace Expr

variable {Γ : Scope} {d : Nat}

/-! ## Operands typed before they are matched -/

/-- The types of expressions in a row. -/
def typeOfAll (Γ : Scope) (d : Nat) : List Expr → Check (List Ty)
  | [] => pure []
  | e :: es => do
    let t ← typeOf Γ d e
    let ts ← typeOfAll Γ d es
    pure (t :: ts)

theorem run_typeOfAll_cons {e : Expr} {es : List Expr} {ts : List Ty} {σ σ' : CheckState}
    (h : (typeOfAll Γ d (e :: es)).run σ = (.ok ts, σ')) :
    ∃ t rest σ₁, ts = t :: rest ∧ (typeOf Γ d e).run σ = (.ok t, σ₁) ∧
      (typeOfAll Γ d es).run σ₁ = (.ok rest, σ') := by
  obtain ⟨t, σ₁, ht, h⟩ := run_bind_eq_ok_iff.1 h
  obtain ⟨rest, σ₂, hrest, h⟩ := run_bind_eq_ok_iff.1 h
  rw [run_pure] at h
  cases h
  exact ⟨t, rest, σ₁, rfl, ht, hrest⟩

/-- Matching operands one step at a time. -/
theorem run_matchOperands_cons {s : Substitution} {p t : Ty} {ps : List Ty} {e : Expr}
    {es : List Expr} {σ σ₁ : CheckState} (ht : (typeOf Γ d e).run σ = (.ok t, σ₁)) :
    (matchOperands Γ d s (p :: ps) (e :: es)).run σ =
      if (s.unify p t).1 = true then (matchOperands Γ d (s.unify p t).2 ps es).run σ₁
      else (.error ⟨.mismatch ((s.unify p t).2.apply p) ((s.unify p t).2.apply t) e, e.span⟩, σ₁) := by
  rw [matchOperands, run_bind_ok ht]
  rcases s.unify p t with ⟨_ | _, s'⟩
  · rfl
  · rfl

/-- How matching the operands from bindings `s` ends, if all operands have types: either all
equations match, or the first of them that fails is reported at its operand. -/
inductive Matched (s : Substitution) (es : List Expr) (E : List (Ty × Ty)) (σ' : CheckState) :
    Except TypeError Substitution × CheckState → Prop
  | all : (matchEquations s E).1 = true → Matched s es E σ' (.ok (matchEquations s E).2, σ')
  | upTo {i : Nat} {e : Expr} {expected found : Ty} {σ : CheckState} : es[i]? = some e →
      (matchEquations s (E.take i)).1 = true → (matchEquations s (E.take (i + 1))).1 = false →
      Matched s es E σ' (.error ⟨.mismatch expected found e, e.span⟩, σ)

/-- Matching operands is typing them all and matching the equations in order. The induction is on the
operands, with the bindings so far generalised. -/
theorem run_matchOperands {es : List Expr} {ps ts : List Ty} {s : Substitution} {σ σ' : CheckState}
    (hts : (typeOfAll Γ d es).run σ = (.ok ts, σ')) (hlen : ps.length = es.length) :
    Matched s es (ps.zip ts) σ' ((matchOperands Γ d s ps es).run σ) := by
  induction es generalizing ps ts s σ with
  | nil =>
    obtain rfl := List.length_eq_zero_iff.1 hlen
    rw [typeOfAll, run_pure] at hts
    cases hts
    exact .all rfl
  | cons e es ih =>
    obtain ⟨p, ps, rfl⟩ := List.exists_cons_of_length_eq_add_one hlen
    obtain ⟨t, ts, σ₁, rfl, ht, hts⟩ := run_typeOfAll_cons hts
    rw [run_matchOperands_cons ht, List.zip_cons_cons]
    split
    · rename_i hfirst
      -- The first equation holds, and the others are matched under its bindings.
      have hrest := ih (s := (s.unify p t).2) hts (by simpa using hlen)
      generalize (matchOperands Γ d (s.unify p t).2 ps es).run σ₁ = r at hrest
      cases hrest with
      | all hall =>
        rw [← matchEquations_cons_of_true hfirst] at hall ⊢
        exact .all hall
      | @upTo i _ _ _ _ hi hbefore hfails =>
        rw [← matchEquations_cons_of_true hfirst] at hbefore hfails
        exact .upTo (i := i + 1) hi hbefore hfails
    · rename_i hfirst
      rw [Bool.not_eq_true] at hfirst
      refine .upTo (i := 0) rfl rfl ?_
      rw [List.take_succ_cons, matchEquations_cons_of_false hfirst]
      exact hfirst

/-! ## Runs that differ in their notes -/

theorem reported_typeOf (Γ : Scope) (d : Nat) (e : Expr) :
    Reported (typeOf Γ d e) (typeOf Γ d e) :=
  (reported_outline Γ d e).trans (reported_outline Γ d e).symm

theorem reported_typeOfAll (Γ : Scope) (d : Nat) (es : List Expr) :
    Reported (typeOfAll Γ d es) (typeOfAll Γ d es) := by
  induction es with
  | nil => exact .pure rfl
  | cons e es ih =>
    refine .bind (reported_typeOf Γ d e) fun t _ ht => .bind ih fun ts _ hts => ?_
    exact .pure (by rw [ht, hts])

/-- A check that has a result in a run of its own has it from every state with the same last
number. -/
theorem exists_run_of_runFrom {α : Type} {c : Check α} (hc : Reported c c) {a : α} {tracing : Bool}
    {σ : CheckState} (h : (c.runFrom σ.last tracing).result = .ok a) :
    ∃ σ', c.run σ = (.ok a, σ') ∧ σ'.last = (c.runFrom σ.last tracing).last := by
  obtain ⟨hlast, halike⟩ := hc ⟨σ.last, tracing, []⟩ σ rfl
  obtain ⟨b, hb, rfl⟩ := halike.exists_of_ok h
  exact ⟨_, Prod.ext hb rfl, hlast.symm⟩

/-! ## New variables -/

/-- The variables of a fresh copy of a type are numbered after the last number before it, up to the last
number after it. -/
theorem mem_vars_fresh {t : Ty} {last y : Nat} (hy : y ∈ (t.bind (t.freshVars last).1).vars) :
    last < y ∧ y ≤ (t.freshVars last).2 := by
  obtain ⟨x, hx, hy⟩ := Ty.mem_vars_bind.1 hy
  have hidx : t.distinctVars.idxOf x < t.distinctVars.length :=
    List.idxOf_lt_length_of_mem (Ty.mem_distinctVars.2 hx)
  simp only [Ty.freshVars, Ty.vars, List.mem_singleton] at hy ⊢
  omega

/-- A fresh copy of a type is equal to it up to the names of variables. -/
theorem variant_fresh (t : Ty) (last : Nat) : t.Variant (t.bind (t.freshVars last).1) :=
  ⟨_, t.freshVars_injOn last, rfl⟩

/-- The types of expressions in a row have variables from before and new ones only. -/
theorem over_typeOfAll {k n : Nat} (hk : k ≤ n) (hΓ : Γ.Numbered k) {es : List Expr}
    (hes : NumberedAll k es) :
    Parallel n n (fun ts _ => ∀ t ∈ ts, t.Over {x | x ≤ k ∨ n < x}) (typeOfAll Γ d es)
      (typeOfAll Γ d es) := by
  induction es with
  | nil => exact .pure (by simp)
  | cons e es ih =>
    obtain ⟨he, hes⟩ := carriesAll_cons.1 hes
    refine .bind (shifted_typeOf hk hk hΓ d d he) fun t _ ht => .bind (ih hes) fun ts _ hts => ?_
    exact .pure (List.forall_mem_cons.2 ⟨ht.1, hts⟩)

/-- The variables of the copy of an operator type are in no type of the scope and in none of the
operands: the former are numbered before the copy, the latter before it or after it. -/
theorem fresh_apart {operator : Expr} {operands : List Expr} {last n₁ : Nat} {tracing : Bool}
    {t : Ty} {ts : List Ty} (hΓ : Γ.Numbered last) (hoperator : operator.Carries (Ty.Numbered last))
    (hoperands : NumberedAll last operands)
    (hn₁ : ((operator.typeOf Γ d).runFrom last tracing).last = n₁)
    (hts : ((typeOfAll Γ d operands).runFrom (t.freshVars n₁).2 tracing).result = .ok ts) {x : Nat}
    (hx : x ∈ (t.bind (t.freshVars n₁).1).vars) : x ∉ Γ.typeVars ∧ ∀ u ∈ ts, x ∉ u.vars := by
  obtain ⟨hafter, hupTo⟩ := mem_vars_fresh hx
  have hle : last ≤ n₁ := by
    obtain ⟨m, hm, -⟩ := (shifted_typeOf (Nat.le_refl last) (Nat.le_refl last) hΓ d d
      hoperator).runFrom tracing tracing
    omega
  refine ⟨fun hmem => ?_, fun u hu hmem => ?_⟩
  · have := Scope.numbered_iff.1 hΓ x hmem
    omega
  · obtain ⟨-, -, -, halike⟩ := (over_typeOfAll (d := d) (n := (t.freshVars n₁).2) (by omega) hΓ
      hoperands).runFrom tracing tracing
    obtain ⟨-, -, hover⟩ := halike.exists_of_ok hts
    rcases hover u hu x hmem with hbefore | hlater
    · have : x ≤ last := hbefore
      omega
    · have : (t.freshVars n₁).2 < x := hlater
      omega

/-! ## The rule for applications -/

/-- Once the operator has a procedure type with as many parameters as there are operands, an
application matches the operands with a fresh copy of it. -/
theorem run_app {span : Span} {operator : Expr} {operands : List Expr} {params : List Ty}
    {result : Ty} {σ σ₀ σ₁ : CheckState}
    (hnote : (note d (app span operator operands)).run σ = (.ok (), σ₀))
    (hop : (typeOf Γ (d + 1) operator).run σ₀ = (.ok (.proc params result), σ₁))
    (hlen : params.length = operands.length) :
    let fresh := (Ty.proc params result).freshVars σ₁.last
    (typeOf Γ d (app span operator operands)).run σ =
      (matchOperands Γ (d + 1) [] (params.map (Ty.bind fresh.1)) operands >>= fun s =>
        pure (s.apply (result.bind fresh.1))).run { σ₁ with last := fresh.2 } := by
  intro fresh
  rw [typeOf, run_bind_ok hnote, run_bind_ok hop]
  dsimp only
  rw [if_pos hlen, run_bind_ok (run_numbered _ σ₁), Ty.bindAll_eq_map]

/-- How an application ends when its operator and its operands have types: with the result type under
the bindings that the equations make, or at the first operand whose equation fails. -/
theorem result_app {operator : Expr} {operands : List Expr} {last n₁ : Nat} {tracing : Bool}
    {params ts : List Ty} {result : Ty} (span : Span)
    (hop : ((operator.typeOf Γ (d + 1)).runFrom last tracing).result = .ok (.proc params result))
    (hn₁ : ((operator.typeOf Γ (d + 1)).runFrom last tracing).last = n₁)
    (hlen : params.length = operands.length)
    (hts : ((typeOfAll Γ (d + 1) operands).runFrom ((Ty.proc params result).freshVars n₁).2
      tracing).result = .ok ts) :
    let fresh := ((Ty.proc params result).freshVars n₁).1
    let E := (params.map (Ty.bind fresh)).zip ts
    let o := ((app span operator operands).typeOf Γ d).runFrom last tracing
    ((matchEquations [] E).1 = true ∧
        o.result = .ok ((matchEquations [] E).2.apply (result.bind fresh))) ∨
      ∃ i e expected found, operands[i]? = some e ∧ (matchEquations [] (E.take i)).1 = true ∧
        (matchEquations [] (E.take (i + 1))).1 = false ∧
        o.result = .error ⟨.mismatch expected found e, e.span⟩ := by
  intro fresh E o
  obtain ⟨notes, hnote⟩ := run_note d (app span operator operands) ⟨last, tracing, []⟩
  obtain ⟨σ₁, hrun, hlast⟩ := exists_run_of_runFrom (reported_typeOf Γ (d + 1) operator)
    (σ := ⟨last, tracing, notes⟩) hop
  obtain rfl : σ₁.last = n₁ := hlast.trans hn₁
  -- The operands are typed after the copy of the operator type has taken its numbers.
  obtain ⟨σ₂, hoperands, -⟩ := exists_run_of_runFrom (reported_typeOfAll Γ (d + 1) operands)
    (σ := { σ₁ with last := ((Ty.proc params result).freshVars σ₁.last).2 }) hts
  have ho : o.result = ((typeOf Γ d (app span operator operands)).run ⟨last, tracing, []⟩).1 := rfl
  rw [ho, run_app hnote hrun hlen, run_bind]
  have hcopies : (params.map (Ty.bind fresh)).length = operands.length := by
    rw [List.length_map, hlen]
  have hmatched := run_matchOperands (s := []) hoperands hcopies
  generalize (matchOperands Γ (d + 1) [] (params.map (Ty.bind fresh)) operands).run _ = r at hmatched
  cases hmatched with
  | all hall => exact .inl ⟨hall, rfl⟩
  | upTo hi hbefore hfails => exact .inr ⟨_, _, _, _, hi, hbefore, hfails, rfl⟩

/-- An application is typed by simultaneous unification. The operator has a procedure type with as many
parameters as there are operands, and the operands have types; the copy of the operator type shares no
variable with the scope or with the types of the operands. Then the application has a type exactly when
the equations between the copied parameters and the operands have a common solution, and its type is
the copied result under a most general one. Otherwise it is a mismatch at the operand whose equation is
the first that has no solution in common with those before it. The order of the equations does not
matter for whether there is a type. -/
theorem typeOf_app_simultaneous {span : Span} {operator : Expr} {operands : List Expr}
    {last n₁ : Nat} {tracing : Bool} {params ts : List Ty} {result : Ty}
    (hΓ : ∀ x ∈ Γ.typeVars, x ≤ last)
    (he : ∀ x ∈ (app span operator operands).typeVars, x ≤ last)
    (hop : ((operator.typeOf Γ (d + 1)).runFrom last tracing).result = .ok (.proc params result))
    (hn₁ : ((operator.typeOf Γ (d + 1)).runFrom last tracing).last = n₁)
    (hlen : params.length = operands.length)
    (hts : ((typeOfAll Γ (d + 1) operands).runFrom ((Ty.proc params result).freshVars n₁).2
      tracing).result = .ok ts)
    (hparams : ∀ p ∈ params, p.isWhole = true) (hwhole : ∀ t ∈ ts, t.isWhole = true) :
    let fresh := ((Ty.proc params result).freshVars n₁).1
    let params' := params.map (Ty.bind fresh)
    let result' := result.bind fresh
    let E := params'.zip ts
    let o := ((app span operator operands).typeOf Γ d).runFrom last tracing
    (Ty.proc params result).Variant (.proc params' result') ∧
      (∀ x ∈ (Ty.proc params' result').vars, x ∉ Γ.typeVars ∧ ∀ t ∈ ts, x ∉ t.vars) ∧
      ((∃ t, o.result = .ok t) ↔ Solvable E) ∧
      (∀ t, o.result = .ok t → (∃ θ, MostGeneral E θ ∧ t = result'.bind θ) ∧
        ∀ θ, MostGeneral E θ → (result'.bind θ).Variant t) ∧
      (∀ err, o.result = .error err → ∃ i e, operands[i]? = some e ∧ err.kind = .typeMismatch ∧
        err.span = e.span ∧ (∃ expected found, err.fault = .mismatch expected found e) ∧
        IsLeast {k | ¬Solvable (E.take k)} (i + 1)) ∧
      ∀ F, F.Perm E → ((matchEquations [] F).1 = true ↔ ∃ t, o.result = .ok t) := by
  intro fresh params' result' E o
  have hcopy : (Ty.proc params result).bind fresh = .proc params' result' := Ty.bind_proc ..
  have hE : AllWhole E := by
    refine allWhole_zip (fun p hp => ?_) hwhole
    obtain ⟨q, hq, rfl⟩ := List.mem_map.1 hp
    exact Ty.isWhole_bind (hparams q hq) fun x _ => rfl
  -- Acceptance is success of matching in order, which is simultaneous unification.
  have hcases := result_app span hop hn₁ hlen hts
  have haccepts : (∃ t, o.result = .ok t) ↔ (matchEquations [] E).1 = true := by
    rcases hcases with ⟨hall, ho⟩ | ⟨i, e, expected, found, -, -, hfails, ho⟩
    · exact iff_of_true ⟨_, ho⟩ hall
    · refine iff_of_false ?_ fun hall => ?_
      · rintro ⟨t, ht⟩
        rw [ho] at ht
        cases ht
      · have hprefix := ((matchEquations_iff_solvable hE).1 hall).of_subset
          (List.take_subset (i + 1) E)
        rw [(matchEquations_iff_solvable (hE.of_subset (List.take_subset _ _))).2 hprefix] at hfails
        cases hfails
  refine ⟨hcopy ▸ variant_fresh _ n₁, ?_, haccepts.trans (matchEquations_iff_solvable hE), ?_, ?_, ?_⟩
  · intro x hx
    obtain ⟨hoperator, hoperands⟩ := carries_app.1 (carries_numbered_iff.2 he)
    exact fresh_apart (Scope.numbered_iff.2 hΓ) hoperator hoperands hn₁ hts (hcopy ▸ hx)
  · intro t ht
    rcases hcases with ⟨hall, ho⟩ | ⟨i, e, expected, found, -, -, -, ho⟩
    · have hmost := mostGeneral_of_matchEquations hall
      rw [ho] at ht
      cases ht
      rw [apply_eq_bind]
      exact ⟨⟨_, hmost, rfl⟩, fun θ hθ => hθ.variant hmost result'⟩
    · rw [ho] at ht
      cases ht
  · intro err herr
    rcases hcases with ⟨-, ho⟩ | ⟨i, e, expected, found, hi, hbefore, hfails, ho⟩
    · rw [ho] at herr
      cases herr
    · rw [ho] at herr
      cases herr
      have hsub : ∀ j, AllWhole (E.take j) := fun j => hE.of_subset (List.take_subset j E)
      refine ⟨i, e, hi, rfl, rfl, ⟨expected, found, rfl⟩, isLeast_of_first_failure ?_ ?_⟩
      · exact (matchEquations_iff_solvable (hsub i)).1 hbefore
      · rw [← matchEquations_iff_solvable (hsub (i + 1)), Bool.not_eq_true]
        exact hfails
  · intro F hF
    rw [matchEquations_perm hE hF, haccepts]

/-- An operator whose two parameters share a variable, applied to a variable of the scope and either to
a pair that a procedure makes of new variables, or to a truth value. -/
theorem typeOf_app_simultaneous_sharedParameter :
    let name (text : String) : Token := ⟨.symbol, .absent, text⟩
    let Γ : Scope := [[("f", .proc [.var 1, .pair (.var 1) (.var 2)] (.var 2)), ("x", .var 3),
      ("g", .proc [.var 4] (.pair (.var 4) (.var 5)))]]
    let pair := app .absent (var (name "g")) [var (name "x")]
    let truth := boolean (name "#t") true
    let outcome (e : Expr) :=
      ((app .absent (var (name "f")) [var (name "x"), e]).typeOf Γ 0).runFrom 5 false
    let E (t : Ty) : List (Ty × Ty) := [(.var 6, .var 3), (.pair (.var 6) (.var 7), t)]
    ((outcome pair).result = .ok (.var 9) ∧ Solvable (E (.pair (.var 3) (.var 9)))) ∧
      ((∃ err, (outcome truth).result = .error err) ∧
        IsLeast {k | ¬Solvable ((E (.base .boolean)).take k)} 2) := by
  intro name Γ pair truth outcome E
  have hΓ : ∀ x ∈ Γ.typeVars, x ≤ 5 := by decide
  have hpair := @typeOf_app_simultaneous Γ 0 .absent (var (name "f")) [var (name "x"), pair] 5 5 false
    [.var 1, .pair (.var 1) (.var 2)] [.var 3, .pair (.var 3) (.var 9)] (.var 2)
    hΓ (by decide) rfl rfl rfl rfl (by decide) (by decide)
  have htruth := @typeOf_app_simultaneous Γ 0 .absent (var (name "f")) [var (name "x"), truth] 5 5
    false [.var 1, .pair (.var 1) (.var 2)] [.var 3, .base .boolean] (.var 2)
    hΓ (by decide) rfl rfl rfl rfl (by decide) (by decide)
  refine ⟨⟨rfl, hpair.2.2.1.1 ⟨_, rfl⟩⟩, ⟨_, rfl⟩, ?_⟩
  obtain ⟨i, e, hi, -, -, ⟨expected, found, hfault⟩, hleast⟩ := htruth.2.2.2.2.1 _ rfl
  -- The fault names the second operand, so it is not the first one that fails.
  rcases i with _ | _ | i
  · cases hi
    simp [truth] at hfault
  · exact hleast
  · cases hi

end Expr

end TypedScheme
