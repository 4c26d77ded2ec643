import TypedScheme.Proofs.Ty.Instances
import TypedScheme.Proofs.Typing.Forms
import TypedScheme.Proofs.Typing.Rules

/-!
# The checker decides the rules of typing

On expressions without type variables the checker finds exactly the types that the rules give, from
every state. The numbers that it gives out cannot matter: an operator of ground type has no variables
to copy, and a primitive operator is applied to operands of ground types, which fix the instance of
its signature.

## What this module delivers

- `Expr.decides_typeOf` and its companions for the parts of expressions.
- `Expr.typeOf_eq_ok_iff_hasType`: a check has a type as its result exactly when the rules give it,
  and the type is unique and ground.
-/

set_option autoImplicit false

namespace TypedScheme

open Check Ty

/-- A declaration agrees with a ground type exactly when it declares that type. -/
theorem Decl.agrees_boundType_iff {decl : Decl} (hdecl : ∀ t, decl.ty? = some t → t.IsGround)
    {t : Ty} (ht : t.IsGround) : decl.boundType.agrees t = true ↔ decl.ty? = some t := by
  cases h : decl.ty? with
  | none => simp [Decl.boundType, h, agrees_absent ht]
  | some u => simp [Decl.boundType, h, agrees_iff_eq (hdecl u h) ht]

/-- Looking up a name decides which type it has. -/
theorem Check.decides_lookup (Γ : Scope) (name : String) (span : Span) :
    (lookup Γ name span).Decides fun t => Γ.lookup name = some t := by
  unfold lookup
  cases Γ.lookup name with
  | none => exact .fault fun t => by simp
  | some u => exact (Decides.pure u).congr fun t => by rw [Option.some.injEq, eq_comm]

theorem Substitution.andThen_eq_true_iff {r : Bool × Substitution} {s : Substitution}
    {k : Substitution → Bool × Substitution} :
    andThen r k = (true, s) ↔ r.1 = true ∧ k r.2 = (true, s) := by
  obtain ⟨ok, s'⟩ := r
  cases ok <;> simp [andThen]

namespace Expr

/-! ## Applications -/

/-- The type of an application whose operator has the type `t`. -/
def typeOfApplication (Γ : Scope) (d : Nat) (span : Span) (operator : Expr) (operands : List Expr)
    (t : Ty) : Check Ty :=
  match t with
  | .proc params result =>
    if params.length = operands.length then do
      let fresh ← numbered fun last => (Ty.proc params result).freshVars last
      let s ← matchOperands Γ (d + 1) [] (Ty.bindAll fresh params) operands
      pure (s.apply (result.bind fresh))
    else
      fault (.arity (.proc params result) params.length operands.length
        (app span operator operands)) span
  | t => fault (.notProcedure operator t (app span operator operands)) operator.span

/-- Some instance of a procedure type takes operands of the types that the rules give them, and has
the result `τ`. -/
def Applies (Γ : Scope) (params : List Ty) (result : Ty) (operands : List Expr) (τ : Ty) : Prop :=
  ∃ θ, HaveTypes Γ operands (params.map (Ty.bind θ)) ∧ τ = result.bind θ

/-- A procedure of ground type has itself as its only instance. -/
theorem applies_iff_of_isGround {Γ : Scope} {params : List Ty} {result : Ty}
    (h : (Ty.proc params result).IsGround) {operands : List Expr} {τ : Ty} :
    Applies Γ params result operands τ ↔ HaveTypes Γ operands params ∧ τ = result := by
  obtain ⟨hparams, hresult⟩ := isGround_proc.1 h
  simp only [Applies, map_bind_of_isGround hparams, bind_of_vars_eq_nil hresult.vars_eq_nil]
  exact ⟨fun ⟨_, h⟩ => h, fun h => ⟨.var, h⟩⟩

/-- An instance of an instance is an instance, and a renaming of variables loses none. -/
theorem applies_map_rename_iff {Γ : Scope} {params : List Ty} {result : Ty} (n : Nat)
    {operands : List Expr} {τ : Ty} :
    Applies Γ (params.map (Ty.bind fun x => .var (n + x))) (result.bind fun x => .var (n + x))
      operands τ ↔ Applies Γ params result operands τ := by
  unfold Applies
  simp only [List.map_map, Function.comp_def, bind_bind, bind_var_apply]
  constructor
  · rintro ⟨θ, h⟩
    exact ⟨fun x => θ (n + x), h⟩
  · rintro ⟨θ, h⟩
    refine ⟨fun y => θ (y - n), ?_⟩
    simpa only [Nat.add_sub_cancel_left] using h

section Application

-- The operands have ground types only, and matching them in order decides whether they have types that
-- the parameters match. Both are known when the rule for an application is reached.
variable {Γ : Scope} {d : Nat} {span : Span} {operator : Expr} {operands : List Expr}
  (hground : ∀ τs, HaveTypes Γ operands τs → ∀ τ ∈ τs, τ.IsGround)
  (hmatch : ∀ ps : List Ty, ps.length = operands.length →
    (matchOperands Γ (d + 1) [] ps operands).Decides fun s => ∃ τs, HaveTypes Γ operands τs ∧
      Substitution.matchLists Substitution.unify [] ps τs = (true, s))
include hground hmatch

/-- Applying an operator to operands of ground types decides whether an instance of its type takes
them. -/
theorem decides_application {params : List Ty} {result : Ty}
    (hparams : ∀ p ∈ params, p.isWhole = true) (hresult : ∀ x ∈ result.vars, x ∈ varsAll params) :
    (typeOfApplication Γ d span operator operands (.proc params result)).Decides
      (Applies Γ params result operands) := by
  rw [typeOfApplication]
  split
  · rename_i hlen
    refine .numbered_bind fun last => ?_
    -- The copy of the operator's type is the type itself, renamed by `g`.
    let g : Nat → Nat := fun x => last + 1 + (Ty.proc params result).distinctVars.idxOf x
    have hg : Set.InjOn g {x | x ∈ varsAll params} :=
      (freshVars_injOn last (.proc params result)).mono fun x hx => List.mem_append_left _ hx
    change Decides
      (do
        let s ← matchOperands Γ (d + 1) [] (Ty.bindAll (fun x => .var (g x)) params) operands
        pure (s.apply (result.rename g))) _
    rw [Ty.bindAll_eq_map]
    refine ((hmatch _ (by rw [List.length_map, hlen])).bind fun s _ => .pure _).congr
      fun τ => ⟨?_, ?_⟩
    · rintro ⟨s, ⟨τs, hτs, hs⟩, rfl⟩
      obtain ⟨θ, rfl, hθ⟩ := (Substitution.matchLists_rename_iff hg hparams hresult
        (hground τs hτs) (by rw [hlen, hτs.length_eq])).1 ⟨s, hs, rfl⟩
      exact ⟨θ, hτs, hθ⟩
    · rintro ⟨θ, hτs, rfl⟩
      obtain ⟨s, hs, hτ⟩ := (Substitution.matchLists_rename_iff hg hparams hresult
        (hground _ hτs) (by rw [List.length_map])).2 ⟨θ, rfl, rfl⟩
      exact ⟨s, ⟨_, hτs, hs⟩, hτ⟩
  · -- No instance takes another number of operands.
    rename_i hlen
    refine .fault ?_
    rintro τ ⟨θ, hτs, -⟩
    exact hlen (by rw [hτs.length_eq, List.length_map])

/-- Applying an operator of ground type decides whether it is a procedure whose parameters have the
types of the operands. -/
theorem decides_groundApplication {t : Ty} (ht : t.IsGround) :
    (typeOfApplication Γ d span operator operands t).Decides fun τ =>
      ∃ params, t = .proc params τ ∧ HaveTypes Γ operands params := by
  cases t with
  | absent | base | var | pair =>
    refine .fault ?_
    rintro τ ⟨params, hparams, -⟩
    cases hparams
  | proc params result =>
    obtain ⟨hparams, hresult⟩ := isGround_proc.1 ht
    refine (decides_application hground hmatch (fun p hp => (hparams p hp).whole)
      (by simp [hresult.vars_eq_nil])).congr fun τ => ?_
    rw [applies_iff_of_isGround ht]
    constructor
    · rintro ⟨h, rfl⟩
      exact ⟨params, rfl, h⟩
    · rintro ⟨_, heq, h⟩
      obtain ⟨rfl, rfl⟩ := Ty.proc.inj heq
      exact ⟨h, rfl⟩

/-- Applying a primitive operator decides whether an instance of its signature takes the operands,
whatever the numbers that the signature gets for its variables. -/
theorem decides_primitiveApplication {t : Token} :
    Decides
      (typeOf Γ (d + 1) (primitive t) >>= typeOfApplication Γ d span (primitive t) operands)
      (HasType Γ (app span (primitive t) operands)) := by
  have hiff : ∀ τ, HasType Γ (app span (primitive t) operands) τ ↔
      ∃ params result, Primitive.signature? t.text = some (.proc params result) ∧
        Applies Γ params result operands τ := by
    intro τ
    constructor
    · intro h
      cases h with
      | app h => cases h
      | appPrimitive θ hsig hτs => exact ⟨_, _, hsig, θ, hτs, rfl⟩
    · rintro ⟨params, result, hsig, θ, hτs, rfl⟩
      exact .appPrimitive θ hsig hτs
  rw [typeOf.eq_def, bind_assoc]
  refine .after_note ?_
  dsimp only
  cases hsig : Primitive.signature? t.text with
  | none => exact .fault_bind fun τ h => by simp [hiff, hsig] at h
  | some signature =>
    obtain ⟨params, result, rfl, hs⟩ := Primitive.signature?_eq_some hsig
    -- The signature is copied twice, once as a constant and once as an operator.
    refine .numbered_bind fun n => ?_
    rw [Primitive.instantiate, bind_proc]
    refine (decides_application hground hmatch ?_ ?_).congr fun τ => ?_
    · intro q hq
      obtain ⟨p, hp, rfl⟩ := List.mem_map.1 hq
      exact isWhole_bind ((isWhole_proc.1 hs.whole).1 p hp) fun _ _ => rfl
    · exact mem_varsAll_map_bind hs.result_vars
    · rw [applies_map_rename_iff, hiff]
      simp [hsig]

end Application

/-! ## Recursive bindings -/

theorem decides_recursiveBinding {decl : Decl} {span : Span} {params : List Param} {result : Ty}
    {body : List Expr} (hdecl : ∀ t, decl.ty? = some t → t.IsGround)
    (hproc : (procType params result).IsGround) :
    (recursiveBinding (decl, lambda span params result body)).Decides fun b =>
      (∀ t, decl.ty? = some t → t = procType params result) ∧
        b = (decl.name, procType params result) := by
  rw [recursiveBinding]
  cases hd : decl.ty? with
  | none =>
    refine (Decides.pure _).congr fun b => ?_
    simp
  | some t =>
    refine (Decides.after_require fun _ => .pure _).congr fun b => ?_
    rw [agrees_iff_eq (hdecl t hd) hproc]
    simp

/-- The declarations of recursive bindings are accepted exactly by the rules. -/
theorem decides_recursiveBindings {bs : List (Decl × Expr)} (hbs : CarriesBound IsGround bs) :
    (recursiveBindings bs).Decides (DeclaresProcedures bs) := by
  induction bs with
  | nil =>
    refine (Decides.pure _).congr fun βs => ⟨?_, fun h => ?_⟩
    · rintro rfl
      exact .nil
    · cases h
      rfl
  | cons b rest ih =>
    obtain ⟨decl, value⟩ := b
    obtain ⟨hdecl, hvalue, hrest⟩ := carriesBound_cons.1 hbs
    cases value with
    | lambda span params result body =>
      obtain ⟨hparams, hresult, -⟩ := carries_lambda.1 hvalue
      refine ((decides_recursiveBinding hdecl (isGround_procType hparams hresult)).bind fun b _ =>
        (ih hrest).bind fun βs _ => .pure _).congr fun βs => ⟨?_, fun h => ?_⟩
      · rintro ⟨b, ⟨hagree, rfl⟩, βs, hβs, rfl⟩
        exact .cons hagree hβs
      · cases h with
        | cons hagree hβs => exact ⟨_, ⟨hagree, rfl⟩, _, hβs, rfl⟩
    | missing | number | boolean | string | quoted | primitive | var | cond | app | letin | letrec
    | define | program =>
      exact .fault_bind fun βs h => by cases h

/-! ## Forms of a program -/

theorem decides_define {Γ : Scope} {d : Nat} {span : Span} {decl : Decl} {value : Expr}
    (hdecl : ∀ t, decl.ty? = some t → t.IsGround) (hground : ∀ τ, HasType Γ value τ → τ.IsGround)
    (hvalue : (typeOf Γ (d + 1) value).Decides (HasType Γ value)) :
    (typeOfForm Γ d (define span decl value)).Decides fun r =>
      FormHasType Γ (define span decl value) r.1 r.2 := by
  refine (Decides.after_note (hvalue.bind fun t _ => .after_require fun _ => .pure _)).congr
    fun r => ⟨?_, fun h => ?_⟩
  · rintro ⟨t, ht, hagree, rfl⟩
    have hd := (Decl.agrees_boundType_iff hdecl (hground t ht)).1 hagree
    rw [Decl.boundType, hd]
    exact .define hd ht
  · obtain ⟨τ, Γ'⟩ := r
    cases h with
    | define hd ht =>
      refine ⟨_, ht, (Decl.agrees_boundType_iff hdecl (hground _ ht)).2 hd, ?_⟩
      rw [Decl.boundType, hd]
      rfl
    | expression h => cases h

/-- A form that is not a definition leaves the scope as it is. -/
theorem decides_expressionForm {Γ : Scope} {d : Nat} {e : Expr}
    (hne : ∀ span decl value, e ≠ define span decl value)
    (he : (typeOf Γ d e).Decides (HasType Γ e)) :
    (typeOfForm Γ d e).Decides fun r => FormHasType Γ e r.1 r.2 := by
  rw [typeOfForm_of_ne_define hne]
  refine (he.bind fun t _ => .pure (t, Γ)).congr fun r => ⟨?_, fun h => ?_⟩
  · rintro ⟨t, ht, rfl⟩
    exact .expression ht
  · obtain ⟨τ, Γ'⟩ := r
    cases h with
    | define => exact absurd rfl (hne _ _ _)
    | expression h => exact ⟨_, h, rfl⟩

/-! ## Expressions -/

theorem hasType_quoted_iff {Γ : Scope} {t : Token} {v : Value} {span : Span} {τ : Ty} :
    HasType Γ (quoted t v span) τ ↔ v.typeOf true = .ok τ := by
  rw [Value.typeOf_eq_ok_iff]
  constructor
  · intro h
    cases h with
    | quoted h => exact h
  · exact .quoted

mutual

/-- The types that the checker finds for an expression are those that the rules give it. -/
theorem decides_typeOf {Γ : Scope} (hΓ : Γ.Shows IsGround) (d : Nat) (e : Expr)
    (he : e.Carries IsGround) (hp : e.primitivesApplied = true) :
    (typeOf Γ d e).Decides (HasType Γ e) := by
  rw [typeOf.eq_def]
  refine .after_note ?_
  cases e with
  | missing => exact .fault fun τ h => by cases h
  | number | boolean | string =>
    refine (Decides.pure _).congr fun τ => ⟨?_, fun h => ?_⟩
    · rintro rfl
      constructor
    · cases h
      rfl
  | quoted t v span =>
    dsimp only
    cases hv : v.typeOf true with
    | error f => exact .fault fun τ h => by simp [hasType_quoted_iff, hv] at h
    | ok u => exact (Decides.pure u).congr fun τ => by simp [hasType_quoted_iff, hv, eq_comm]
  | primitive t => simp [primitivesApplied] at hp
  | var t =>
    refine (decides_lookup Γ t.text t.span).congr fun τ => ⟨.var, fun h => ?_⟩
    cases h with
    | var h => exact h
  | cond span test consequent alternative =>
    obtain ⟨htest, hconsequent, halternative⟩ := carries_cond.1 he
    simp only [primitivesApplied, Bool.and_eq_true] at hp
    obtain ⟨⟨hptest, hpconsequent⟩, hpalternative⟩ := hp
    refine ((decides_typeOf hΓ _ test htest hptest).bind fun t ht =>
      .after_require fun _ => (decides_typeOf hΓ _ consequent hconsequent hpconsequent).bind fun u hu =>
        (decides_typeOf hΓ _ alternative halternative hpalternative).bind fun v hv =>
          .after_require fun _ => .pure u).congr fun τ => ⟨?_, fun h => ?_⟩
    · rintro ⟨t, ht, htb, u, hu, v, hv, huv, rfl⟩
      obtain rfl := (agrees_iff_eq (isGround_base _) (ht.isGround hΓ htest)).1 htb
      obtain rfl := (agrees_iff_eq (hu.isGround hΓ hconsequent) (hv.isGround hΓ halternative)).1 huv
      exact .cond ht hu hv
    · cases h with
      | cond ht hu hv =>
        have hu' := hu.isGround hΓ hconsequent
        exact ⟨_, ht, (agrees_iff_eq (isGround_base _) (isGround_base _)).2 rfl, _, hu, _, hv,
          (agrees_iff_eq hu' hu').2 rfl, rfl⟩
  | lambda span params result body =>
    obtain ⟨hparams, hresult, hbody⟩ := carries_lambda.1 he
    have hΓ' := shows_params hΓ hparams
    refine ((decides_typeOfBody hΓ' _ _ body hbody hp).bind fun t ht =>
      .after_require fun _ => .pure _).congr fun τ => ⟨?_, fun h => ?_⟩
    · rintro ⟨t, ht, heq, rfl⟩
      obtain rfl := (agrees_iff_eq hresult (ht.isGround hΓ' hbody)).1 heq
      exact .lambda ht
    · cases h with
      | lambda h => exact ⟨_, h, (agrees_iff_eq hresult hresult).2 rfl, rfl⟩
  | app span operator operands =>
    obtain ⟨hoperator, hoperands⟩ := carries_app.1 he
    simp only [primitivesApplied, Bool.and_eq_true, Bool.or_eq_true] at hp
    obtain ⟨hpoperator, hpoperands⟩ := hp
    have hground : ∀ τs, HaveTypes Γ operands τs → ∀ τ ∈ τs, τ.IsGround :=
      fun τs h => h.isGround hΓ hoperands
    have hmatch := fun ps hlen =>
      decides_matchOperands hΓ (d + 1) [] ps operands hlen hoperands hpoperands
    -- A primitive operator has no type by the rules and is not typed on its own.
    by_cases hprim : operator.isPrimitive = true
    · obtain ⟨t, rfl⟩ := isPrimitive_iff.1 hprim
      exact decides_primitiveApplication hground hmatch
    · refine ((decides_typeOf hΓ _ operator hoperator (hpoperator.resolve_left hprim)).bind
        (R := fun t τ => ∃ params, t = .proc params τ ∧ HaveTypes Γ operands params)
        fun t ht => ?_).congr fun τ => ⟨?_, fun h => ?_⟩
      · exact decides_groundApplication hground hmatch (ht.isGround hΓ hoperator)
      · rintro ⟨t, ht, params, rfl, h⟩
        exact .app ht h
      · cases h with
        | app ht h => exact ⟨_, ht, _, rfl, h⟩
        | appPrimitive => exact absurd rfl hprim
  | letin span bindings body =>
    obtain ⟨hbs, hbody⟩ := carries_letin.1 he
    simp only [primitivesApplied, Bool.and_eq_true] at hp
    refine ((decides_typeOfBindings hΓ _ bindings hbs hp.1).bind fun βs hβs =>
      decides_typeOfBody (hΓ.extend (hβs.isGround hbs)) _ _ body hbody hp.2).congr
        fun τ => ⟨?_, fun h => ?_⟩
    · rintro ⟨βs, hβs, h⟩
      exact .letin hβs h
    · cases h with
      | letin hβs h => exact ⟨_, hβs, h⟩
  | letrec span bindings body =>
    obtain ⟨hbs, hbody⟩ := carries_letrec.1 he
    simp only [primitivesApplied, Bool.and_eq_true] at hp
    refine ((decides_recursiveBindings hbs).bind fun βs hβs =>
      have hΓ' := hΓ.extend (hβs.isGround hbs)
      (decides_checkProcedures hΓ' _ bindings hβs hbs hp.1).bind fun _ _ =>
        decides_typeOfBody hΓ' _ _ body hbody hp.2).congr fun τ => ⟨?_, fun h => ?_⟩
    · rintro ⟨βs, hβs, -, hprocedures, h⟩
      exact .letrec hβs hprocedures h
    · cases h with
      | letrec hβs hprocedures h => exact ⟨_, hβs, (), hprocedures, h⟩
  | define span decl value => exact .fault fun τ h => by cases h
  | program forms =>
    refine ((decides_typeOfForms hΓ _ forms he hp).bind fun r _ => .pure r.1).congr
      fun τ => ⟨?_, fun h => ?_⟩
    · rintro ⟨r, hr, rfl⟩
      exact .program hr
    · cases h with
      | program h => exact ⟨(τ, _), h, rfl⟩

/-- The check of a body decides which type it has by the rules. -/
theorem decides_typeOfBody {Γ : Scope} (hΓ : Γ.Shows IsGround) (d : Nat) (owner : Expr)
    (es : List Expr) (hes : CarriesAll IsGround es) (hp : primitivesAppliedAll es = true) :
    (typeOfBody Γ d owner es).Decides (BodyHasType Γ es) := by
  match es with
  | [] => exact .fault fun τ h => by cases h
  | [e] =>
    simp only [primitivesAppliedAll, Bool.and_eq_true] at hp
    refine (decides_typeOf hΓ d e (carriesAll_cons.1 hes).1 hp.1).congr
      fun τ => ⟨.last, fun h => ?_⟩
    cases h with
    | last h => exact h
    | cons _ h => cases h
  | e :: f :: es =>
    obtain ⟨he, hes⟩ := carriesAll_cons.1 hes
    rw [primitivesAppliedAll, Bool.and_eq_true] at hp
    refine ((decides_typeOf hΓ d e he hp.1).bind fun _ _ =>
      decides_typeOfBody hΓ d owner (f :: es) hes hp.2).congr fun τ => ⟨?_, fun h => ?_⟩
    · rintro ⟨σ, he, hes⟩
      exact .cons he hes
    · cases h with
      | cons he hes => exact ⟨_, he, hes⟩

theorem decides_matchOperands {Γ : Scope} (hΓ : Γ.Shows IsGround) (d : Nat) (s : Substitution)
    (params : List Ty) (es : List Expr) (hlen : params.length = es.length)
    (hes : CarriesAll IsGround es) (hp : primitivesAppliedAll es = true) :
    (matchOperands Γ d s params es).Decides fun s' => ∃ τs, HaveTypes Γ es τs ∧
      Substitution.matchLists Substitution.unify s params τs = (true, s') := by
  match params, es with
  | [], [] =>
    refine (Decides.pure s).congr fun s' => ⟨?_, ?_⟩
    · rintro rfl
      exact ⟨[], .nil, rfl⟩
    · rintro ⟨τs, hτs, h⟩
      cases hτs
      exact (Prod.mk.inj h).2.symm
  | [], e :: es => simp at hlen
  | p :: params, [] => simp at hlen
  | p :: params, e :: es =>
    obtain ⟨he, hes⟩ := carriesAll_cons.1 hes
    rw [primitivesAppliedAll, Bool.and_eq_true] at hp
    -- What is left after the first operand has the type `t`.
    have hnext : ∀ t, Decides
        (if (s.unify p t).1 then matchOperands Γ d (s.unify p t).2 params es
          else fault (.mismatch ((s.unify p t).2.apply p) ((s.unify p t).2.apply t) e) e.span)
        fun s' => ∃ τs, HaveTypes Γ es τs ∧
          Substitution.matchLists Substitution.unify s (p :: params) (t :: τs) = (true, s') := by
      intro t
      simp only [Substitution.matchLists, Substitution.andThen_eq_true_iff]
      cases hok : (s.unify p t).1 with
      | true =>
        refine (decides_matchOperands hΓ d _ params es (by simpa using hlen) hes hp.2).congr
          fun s' => ?_
        simp
      | false => exact .fault fun s' => by simp
    refine ((decides_typeOf hΓ d e he hp.1).bind fun t _ => hnext t).congr fun s' => ⟨?_, ?_⟩
    · rintro ⟨t, ht, τs, hτs, h⟩
      exact ⟨t :: τs, .cons ht hτs, h⟩
    · rintro ⟨τs, hτs, h⟩
      cases hτs with
      | cons ht hτs => exact ⟨_, ht, _, hτs, h⟩

theorem decides_typeOfBindings {Γ : Scope} (hΓ : Γ.Shows IsGround) (d : Nat)
    (bs : List (Decl × Expr)) (hbs : CarriesBound IsGround bs)
    (hp : primitivesAppliedBound bs = true) :
    (typeOfBindings Γ d bs).Decides (BindingsHaveTypes Γ bs) := by
  match bs with
  | [] =>
    refine (Decides.pure _).congr fun βs => ⟨?_, fun h => ?_⟩
    · rintro rfl
      exact .nil
    · cases h
      rfl
  | (decl, value) :: rest =>
    obtain ⟨hdecl, hvalue, hrest⟩ := carriesBound_cons.1 hbs
    rw [primitivesAppliedBound, Bool.and_eq_true] at hp
    refine ((decides_typeOf hΓ d value hvalue hp.1).bind fun t _ => .after_require fun _ =>
      (decides_typeOfBindings hΓ d rest hrest hp.2).bind fun βs _ => .pure _).congr
        fun βs => ⟨?_, fun h => ?_⟩
    · rintro ⟨t, ht, hagree, βs, hβs, rfl⟩
      have hd := (Decl.agrees_boundType_iff hdecl (ht.isGround hΓ hvalue)).1 hagree
      rw [Decl.boundType, hd]
      exact .cons hd ht hβs
    · cases h with
      | cons hd ht hβs =>
        refine ⟨_, ht, (Decl.agrees_boundType_iff hdecl (ht.isGround hΓ hvalue)).2 hd, _, hβs, ?_⟩
        rw [Decl.boundType, hd]
        rfl

theorem decides_checkProcedures {Γ : Scope} (hΓ : Γ.Shows IsGround) (d : Nat)
    (bs : List (Decl × Expr)) {βs : List (String × Ty)} (hβs : DeclaresProcedures bs βs)
    (hbs : CarriesBound IsGround bs) (hp : primitivesAppliedBound bs = true) :
    (checkProcedures Γ d bs).Decides fun _ => ProceduresHaveTypes Γ bs := by
  match bs with
  | [] => exact (Decides.pure ()).congr fun _ => ⟨fun _ => .nil, fun _ => rfl⟩
  | (decl, value) :: rest =>
    obtain ⟨-, hvalue, hrest⟩ := carriesBound_cons.1 hbs
    rw [primitivesAppliedBound, Bool.and_eq_true] at hp
    cases value with
    | lambda span params result body =>
      obtain ⟨hparams, hresult, hbody⟩ := carries_lambda.1 hvalue
      have hΓ' := shows_params hΓ hparams
      have hβs' : ∃ βs, DeclaresProcedures rest βs := by
        cases hβs with
        | cons _ hβs => exact ⟨_, hβs⟩
      obtain ⟨βs', hβs'⟩ := hβs'
      refine ((decides_typeOfBody hΓ' d _ body hbody hp.1).bind fun t _ => .after_require fun _ =>
        decides_checkProcedures hΓ d rest hβs' hrest hp.2).congr fun _ => ⟨?_, fun h => ?_⟩
      · rintro ⟨t, ht, hagree, h⟩
        obtain rfl := (agrees_iff_eq hresult (ht.isGround hΓ' hbody)).1 hagree
        exact .cons ht h
      · cases h with
        | cons ht h => exact ⟨_, ht, (agrees_iff_eq hresult hresult).2 rfl, h⟩
    | missing | number | boolean | string | quoted | primitive | var | cond | app | letin | letrec
    | define | program => cases hβs

/-- The check of forms decides which type they have, and which scope they leave, by the rules. -/
theorem decides_typeOfForms {Γ : Scope} (hΓ : Γ.Shows IsGround) (d : Nat) (forms : List Expr)
    (hforms : CarriesAll IsGround forms) (hp : primitivesAppliedAll forms = true) :
    (typeOfForms Γ d forms).Decides fun r => FormsHaveType Γ forms r.1 r.2 := by
  match forms with
  | [] => exact .fault fun r h => by cases h
  | e :: rest =>
    obtain ⟨he, hrest⟩ := carriesAll_cons.1 hforms
    rw [primitivesAppliedAll, Bool.and_eq_true] at hp
    -- The first form decides its type and the scope in which the others are checked.
    have hform : (typeOfForm Γ d e).Decides fun r => FormHasType Γ e r.1 r.2 := by
      cases e with
      | define span decl value =>
        obtain ⟨hdecl, hvalue⟩ := carries_define.1 he
        exact decides_define hdecl (fun τ h => h.isGround hΓ hvalue)
          (decides_typeOf hΓ _ value hvalue hp.1)
      | missing | number | boolean | string | quoted | primitive | var | cond | lambda | app
      | letin | letrec | program =>
        exact decides_expressionForm (fun _ _ _ h => by cases h) (decides_typeOf hΓ d _ he hp.1)
    match rest with
    | [] =>
      rw [typeOfForms_singleton]
      refine hform.congr fun r => ⟨.last, fun h => ?_⟩
      cases h with
      | last h => exact h
      | cons _ h => cases h
    | f :: rest =>
      rw [typeOfForms_cons_cons]
      refine (hform.bind fun r hr => decides_typeOfForms (hr.isGround hΓ he).2 d (f :: rest) hrest
        hp.2).congr fun r' => ⟨?_, fun h => ?_⟩
      · rintro ⟨r, hr, h⟩
        exact .cons hr h
      · cases h with
        | cons hr h => exact ⟨(_, _), hr, h⟩

end

/-! ## Whole checks -/

/-- The checker is sound and complete for the rules on expressions without type variables whose
primitive operators are all applied, in scopes without type variables: whatever the numbers given out
before, it has a type as its result exactly when the rules give this type, and that is one ground type
at most. -/
theorem typeOf_eq_ok_iff_hasType {Γ : Scope} {e : Expr} (hΓ : ∀ t ∈ Γ.types, t.IsGround)
    (he : ∀ t ∈ e.annotations, t.IsGround) (hp : e.primitivesApplied = true) :
    (∀ d last tracing τ,
      ((e.typeOf Γ d).runFrom last tracing).result = .ok τ ↔ HasType Γ e τ) ∧
    ∀ τ, HasType Γ e τ → τ.vars = [] ∧ ∀ τ', HasType Γ e τ' → τ' = τ := by
  have hshows := Scope.shows_of_forall_mem_types hΓ
  have hdecides := fun d => decides_typeOf hshows d e he hp
  refine ⟨fun d last tracing τ => hdecides d ⟨last, tracing, []⟩ τ, fun τ hτ => ⟨?_, ?_⟩⟩
  · exact (hτ.isGround hshows he).vars_eq_nil
  · intro τ' hτ'
    -- Both types are the result of the same check.
    have h := (hdecides 0 ⟨0, false, []⟩ τ).2 hτ
    rw [(hdecides 0 ⟨0, false, []⟩ τ').2 hτ', Except.ok.injEq] at h
    exact h

/-- A recursive procedure that applies itself and polymorphic operators, in a scope with one name. -/
theorem typeOf_eq_ok_iff_hasType_countdown :
    let name (text : String) : Token := ⟨.symbol, .absent, text⟩
    let step := app .absent (primitive (name "-")) [var (name "n"), var (name "k")]
    let e := letrec .absent
      [(⟨name "loop", none, .absent⟩,
        lambda .absent [⟨name "n", .base .number, .absent⟩] (.pair (.base .number) (.base .boolean))
          [cond .absent (app .absent (primitive (name "=")) [var (name "n"), var (name "k")])
            (app .absent (primitive (name "cons")) [var (name "n"), boolean (name "#t") true])
            (app .absent (var (name "loop")) [step])])]
      [app .absent (primitive (name "car")) [app .absent (var (name "loop")) [var (name "k")]]]
    let Γ : Scope := [[("k", .base .number)]]
    (∀ t ∈ Γ.types, t.IsGround) ∧ (∀ t ∈ e.annotations, t.IsGround) ∧
      e.primitivesApplied = true ∧ HasType Γ e (.base .number) := by
  intro name step e Γ
  have hΓ : ∀ t ∈ Γ.types, t.IsGround := by decide
  have he : ∀ t ∈ e.annotations, t.IsGround := by decide
  have hp : e.primitivesApplied = true := rfl
  have hrun : ((e.typeOf Γ 0).runFrom 0 false).result = .ok (.base .number) :=
    toOption_eq_some_iff.1 (by decide +kernel)
  exact ⟨hΓ, he, hp, ((typeOf_eq_ok_iff_hasType hΓ he hp).1 0 0 false _).1 hrun⟩

end Expr

end TypedScheme
