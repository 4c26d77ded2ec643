import TypedScheme.Proofs.Typing.Derivations
import TypedScheme.Proofs.Typing.FreeVariables
import TypedScheme.Proofs.Typing.Shift

/-!
# The order of independent bindings

The values of the bindings of a `let` form are typed one after the other, and so are the bodies of the
procedures of a `letrec` form and the definitions of a program. A different order gives out the numbers
of new type variables in a different order, and it lays out the new frame in a different order. Neither
can be seen from the outside: how many numbers a binding needs does not depend on where they start, and
no new variable gets into the types of the frame, which are all declared.

## What this module delivers

- `Steps`, `Movable`: steps in a row that each take some numbers, as many wherever they start, and
  `Steps.perm`, by which their order does not matter.
- `Expr.movable_value`, `Expr.movable_procedure`: bindings are such steps.
- `Scope.lookup_extend_perm`: a frame of distinct names can be laid out in any order.
- `Expr.FormsDerive.swap`: two definitions next to each other can change places.
- `Expr.typeOf_eq_of_reordered`: all of it about the checker. Types and the last numbers given out are
  equal, not only equal up to the names of new variables.
-/

set_option autoImplicit false

namespace TypedScheme

open Check

/-! ## Steps that take numbers -/

section Steps

variable {β : Type} {k n m : Nat}

/-- A step takes as many numbers wherever it starts from `k` on. -/
def Movable (k : Nat) (step : Nat → Nat → Prop) : Prop :=
  ∀ n n' m, k ≤ n → k ≤ n' → step n m → ∃ c, m = n + c ∧ step n' (n' + c)

/-- Steps in a row, each from the number at which the one before ends. -/
def Steps (step : β → Nat → Nat → Prop) : List β → Nat → Nat → Prop
  | [], n, m => m = n
  | b :: bs, n, m => ∃ n₁, step b n n₁ ∧ Steps step bs n₁ m

theorem Movable.le {step : Nat → Nat → Prop} (h : Movable k step) (hk : k ≤ n) (hstep : step n m) :
    n ≤ m := by
  obtain ⟨c, rfl, -⟩ := h n n m hk hk hstep
  exact Nat.le_add_right n c

/-- Movable steps end at the same number in every order. -/
theorem Steps.perm {step : β → Nat → Nat → Prop} {bs bs' : List β} (hperm : bs.Perm bs')
    (hmov : ∀ b ∈ bs, Movable k (step b)) (hk : k ≤ n) (h : Steps step bs n m) :
    Steps step bs' n m := by
  induction hperm generalizing n m with
  | nil => exact h
  | cons b _ ih =>
    obtain ⟨hb, hmov⟩ := List.forall_mem_cons.1 hmov
    obtain ⟨n₁, hstep, h⟩ := h
    exact ⟨n₁, hstep, ih hmov (Nat.le_trans hk (hb.le hk hstep)) h⟩
  | swap a b l =>
    obtain ⟨hb, hmov⟩ := List.forall_mem_cons.1 hmov
    obtain ⟨ha, -⟩ := List.forall_mem_cons.1 hmov
    obtain ⟨n₁, hstepb, n₂, hstepa, h⟩ := h
    have hn₁ := hb.le hk hstepb
    -- The second step starts at `n` instead, and the first one where the second then ends.
    obtain ⟨i, rfl, hmoveda⟩ := ha n₁ n n₂ (Nat.le_trans hk hn₁) hk hstepa
    obtain ⟨j, rfl, hmovedb⟩ := hb n (n + i) n₁ hk (by omega) hstepb
    refine ⟨n + i, hmoveda, n + i + j, hmovedb, ?_⟩
    rwa [show n + i + j = n + j + i by omega]
  | trans h₁ _ ih₁ ih₂ =>
    exact ih₂ (fun b hb => hmov b (h₁.mem_iff.2 hb)) hk (ih₁ hmov hk h)

end Steps

/-! ## Frames of distinct names -/

/-- A frame of distinct names can be laid out in any order. -/
theorem Scope.lookup_extend_perm {Γ : Scope} {βs βs' : List (String × Ty)} (hperm : βs.Perm βs')
    (hnodup : (βs.map Prod.fst).Nodup) (x : String) :
    (Γ.extend βs).lookup x = (Γ.extend βs').lookup x := by
  have hreverse : ∀ {γs : List (String × Ty)}, (γs.map Prod.fst).Nodup →
      (γs.reverse.map Prod.fst).Nodup := by
    intro γs h
    rwa [List.map_reverse, List.nodup_reverse]
  have hsame : βs.reverse.lookup x = βs'.reverse.lookup x := by
    ext t
    rw [lookup_eq_some_iff_mem (hreverse hnodup),
      lookup_eq_some_iff_mem (hreverse ((hperm.map Prod.fst).nodup_iff.1 hnodup)),
      List.mem_reverse, List.mem_reverse, hperm.mem_iff]
  rw [lookup_extend, lookup_extend, hsame]

/-! ## Derivations in other scopes and after other numbers -/

/-- An outcome is a result together with the last number given out. -/
def Check.Outcome.Gives {α : Type} (o : Check.Outcome α) (a : α) (last : Nat) : Prop :=
  o.result = .ok a ∧ o.last = last

namespace Check.Counts

variable {α : Type} {c : Check α} {P Q : Nat → α → Nat → Prop} {n m : Nat} {a : α}

/-- The outcome of a check is what it counts. -/
theorem gives_iff (hQ : Counts c Q) {tracing : Bool} :
    (c.runFrom n tracing).Gives a m ↔ Q n a m :=
  hQ ⟨n, tracing, []⟩ a m

/-- A check has one set of results. -/
theorem iff (hP : Counts c P) (hQ : Counts c Q) : P n a m ↔ Q n a m :=
  (hP ⟨n, false, []⟩ a m).symm.trans (hQ ⟨n, false, []⟩ a m)

/-- A check that is in step with itself has results after all numbers if it has one. -/
theorem exists_of_parallel (hQ : Counts c Q) {n' : Nat} {R : α → α → Prop}
    (hc : Parallel n n' R c c) (h : Q n a m) :
    ∃ b j, m = n + j ∧ Q n' b (n' + j) ∧ R a b := by
  obtain ⟨hrun, hlast⟩ := (hQ ⟨n, false, []⟩ a m).2 h
  obtain ⟨⟨j, h₁, h₂⟩, halike⟩ := hc ⟨n, false, []⟩ ⟨n', false, []⟩ ⟨0, rfl, rfl⟩
  obtain ⟨b, hb, hab⟩ := halike.exists_of_ok hrun
  exact ⟨b, j, hlast.symm.trans h₁, (hQ ⟨n', false, []⟩ b _).1 ⟨hb, h₂⟩, hab⟩

end Check.Counts

namespace Expr

variable {Γ Γ₁ Γ₂ : Scope} {k n m : Nat}

/-- A type is derived alike in scopes that agree on the free names. -/
theorem derives_congr {e : Expr} {τ : Ty} (h : Scope.AgreeOn e.freeVars Γ₁ Γ₂) :
    Derives Matching Γ₁ n e τ m ↔ Derives Matching Γ₂ n e τ m :=
  (counts_typeOf Γ₁ 0 e).iff (typeOf_congr 0 e h ▸ counts_typeOf Γ₂ 0 e)

theorem bodyDerives_congr {es : List Expr} {τ : Ty} (h : ∀ x, Γ₁.lookup x = Γ₂.lookup x) :
    BodyDerives Matching Γ₁ n es τ m ↔ BodyDerives Matching Γ₂ n es τ m :=
  (counts_typeOfBody Γ₁ 0 missing es).iff
    (typeOfBody_congr 0 missing es (fun x _ => h x) ▸ counts_typeOfBody Γ₂ 0 missing es)

theorem proceduresDerive_congr {bs : List (Decl × Expr)} {βs : List (String × Ty)}
    (hβs : DeclaresAgreeing bs βs) (h : ∀ x, Γ₁.lookup x = Γ₂.lookup x) :
    ProceduresDerive Matching Γ₁ n bs m ↔ ProceduresDerive Matching Γ₂ n bs m :=
  (counts_checkProcedures Γ₁ 0 bs hβs).iff (a := ())
    (checkProcedures_congr 0 bs (fun x _ => h x) ▸ counts_checkProcedures Γ₂ 0 bs hβs)

/-! ## Bindings as steps -/

/-- The value of a binding gets a type that agrees with the declared one. -/
def ValueFits (Γ : Scope) (b : Decl × Expr) (n m : Nat) : Prop :=
  ∃ computed, Derives Matching Γ n b.2 computed m ∧ Matching b.1.boundType computed

/-- The value of a binding is a procedure whose body gets a type that agrees with its result type. -/
def ProcedureFits (Γ : Scope) (b : Decl × Expr) (n m : Nat) : Prop :=
  ∃ span params result body computed, b.2 = lambda span params result body ∧
    BodyDerives Matching (Γ.extend (Param.bindings params)) n body computed m ∧
    Matching result computed

/-- Bindings are derived by steps, one for each value. -/
theorem bindingsDerive_iff {bs : List (Decl × Expr)} {βs : List (String × Ty)} :
    BindingsDerive Matching Γ n bs βs m ↔
      βs = bs.map (fun b => (b.1.name, b.1.boundType)) ∧ Steps (ValueFits Γ) bs n m := by
  induction bs generalizing n βs with
  | nil =>
    constructor
    · intro h
      cases h
      exact ⟨rfl, rfl⟩
    · rintro ⟨rfl, rfl⟩
      exact .nil
  | cons b bs ih =>
    obtain ⟨decl, value⟩ := b
    constructor
    · intro h
      cases h with
      | cons hvalue hkeeps hrest =>
        obtain ⟨rfl, hsteps⟩ := ih.1 hrest
        exact ⟨rfl, _, ⟨_, hvalue, hkeeps⟩, hsteps⟩
    · rintro ⟨rfl, n₁, ⟨computed, hvalue, hkeeps⟩, hrest⟩
      exact .cons hvalue hkeeps (ih.2 ⟨rfl, hrest⟩)

theorem proceduresDerive_iff {bs : List (Decl × Expr)} :
    ProceduresDerive Matching Γ n bs m ↔ Steps (ProcedureFits Γ) bs n m := by
  induction bs generalizing n with
  | nil =>
    constructor
    · intro h
      cases h
      rfl
    · rintro rfl
      exact .nil
  | cons b bs ih =>
    constructor
    · intro h
      cases h with
      | cons hbody hkeeps hrest =>
        exact ⟨_, ⟨_, _, _, _, _, rfl, hbody, hkeeps⟩, ih.1 hrest⟩
    · obtain ⟨decl, value⟩ := b
      rintro ⟨n₁, ⟨span, params, result, body, computed, rfl, hbody, hkeeps⟩, hrest⟩
      exact .cons hbody hkeeps (ih.2 hrest)

/-- Bindings carry what each of them carries. -/
theorem carriesBound_iff {Q : Ty → Prop} {bs : List (Decl × Expr)} :
    CarriesBound Q bs ↔ ∀ b ∈ bs, (∀ t, b.1.ty? = some t → Q t) ∧ b.2.Carries Q := by
  induction bs with
  | nil => simp [CarriesBound, annotationsBound]
  | cons b bs ih =>
    obtain ⟨decl, value⟩ := b
    rw [carriesBound_cons, List.forall_mem_cons, ih, and_assoc]

theorem carriesBound_perm {Q : Ty → Prop} {bs bs' : List (Decl × Expr)} (hperm : bs.Perm bs')
    (h : CarriesBound Q bs) : CarriesBound Q bs' :=
  carriesBound_iff.2 fun b hb => carriesBound_iff.1 h b (hperm.mem_iff.2 hb)

theorem nodup_boundNames_perm {bs bs' : List (Decl × Expr)} (hperm : bs.Perm bs')
    (h : (boundNames bs).Nodup) : (boundNames bs').Nodup :=
  (hperm.map (fun b : Decl × Expr => b.1.name)).nodup_iff.1 h

/-- Typing the value of a binding takes as many numbers wherever it starts. -/
theorem movable_value (hΓ : Γ.Numbered k) {b : Decl × Expr}
    (hb : (∀ t, b.1.ty? = some t → t.Numbered k) ∧ b.2.Carries (Ty.Numbered k)) :
    Movable k (ValueFits Γ b) := by
  obtain ⟨hdecl, hvalue⟩ := hb
  have hbound : b.1.boundType.Numbered k := boundType_of_forall hdecl Ty.over_absent
  rintro n n' m hk hk' ⟨computed, hderives, hkeeps⟩
  obtain ⟨computed', j, hm, hderives', hshifted⟩ :=
    (counts_typeOf Γ 0 b.2).exists_of_parallel (shifted_typeOf hk hk' hΓ 0 0 hvalue) hderives
  refine ⟨j, hm, computed', hderives', ?_⟩
  exact (hshifted.agrees_eq hbound hk hk').symm.trans hkeeps

/-- Typing the body of a procedure takes as many numbers wherever it starts. -/
theorem movable_procedure (hΓ : Γ.Numbered k) {b : Decl × Expr}
    (hvalue : b.2.Carries (Ty.Numbered k)) : Movable k (ProcedureFits Γ b) := by
  rintro n n' m hk hk' ⟨span, params, result, body, computed, hb, hderives, hkeeps⟩
  rw [hb] at hvalue
  obtain ⟨hparams, hresult, hbody⟩ := carries_lambda.1 hvalue
  have hscope : (Γ.extend (Param.bindings params)).Numbered k := by
    refine hΓ.extend fun β hβ => ?_
    obtain ⟨p, hp, rfl⟩ := List.mem_map.1 hβ
    exact hparams p hp
  obtain ⟨computed', j, hm, hderives', hshifted⟩ :=
    (counts_typeOfBody _ 0 _ body).exists_of_parallel
      (shifted_typeOfBody hk hk' hscope 0 0 hvalue hbody) hderives
  refine ⟨j, hm, span, params, result, body, computed', hb, hderives', ?_⟩
  exact (hshifted.agrees_eq hresult hk hk').symm.trans hkeeps

/-! ## Bindings in another order -/

/-- Bindings are derived in another order too, with as many numbers and the same types. -/
theorem BindingsDerive.perm {bs bs' : List (Decl × Expr)} {βs : List (String × Ty)}
    (hperm : bs.Perm bs') (hΓ : Γ.Numbered k) (hbs : CarriesBound (Ty.Numbered k) bs) (hk : k ≤ n)
    (h : BindingsDerive Matching Γ n bs βs m) :
    ∃ βs', BindingsDerive Matching Γ n bs' βs' m ∧ βs.Perm βs' := by
  obtain ⟨rfl, hsteps⟩ := bindingsDerive_iff.1 h
  have hmov : ∀ b ∈ bs, Movable k (ValueFits Γ b) := fun b hb =>
    movable_value hΓ (carriesBound_iff.1 hbs b hb)
  exact ⟨_, bindingsDerive_iff.2 ⟨rfl, hsteps.perm hperm hmov hk⟩, hperm.map _⟩

/-- Recursive bindings in another order declare the same types. -/
theorem DeclaresAgreeing.perm {bs bs' : List (Decl × Expr)} {βs : List (String × Ty)}
    (hperm : bs.Perm bs') (h : DeclaresAgreeing bs βs) :
    ∃ βs', DeclaresAgreeing bs' βs' ∧ βs.Perm βs' := by
  induction hperm generalizing βs with
  | nil => exact ⟨βs, h, .refl βs⟩
  | cons b _ ih =>
    cases h with
    | cons hb h =>
      obtain ⟨βs', h', hperm'⟩ := ih h
      exact ⟨_, .cons hb h', hperm'.cons _⟩
  | swap a b l =>
    cases h with
    | cons hb h =>
      cases h with
      | cons ha h => exact ⟨_, .cons ha (.cons hb h), .swap _ _ _⟩
  | trans _ _ ih₁ ih₂ =>
    obtain ⟨βs₁, h₁, hperm₁⟩ := ih₁ h
    obtain ⟨βs₂, h₂, hperm₂⟩ := ih₂ h₁
    exact ⟨βs₂, h₂, hperm₁.trans hperm₂⟩

theorem names_of_bindingsDerive {bs : List (Decl × Expr)} {βs : List (String × Ty)}
    (h : BindingsDerive Matching Γ n bs βs m) : βs.map Prod.fst = boundNames bs := by
  obtain ⟨rfl, -⟩ := bindingsDerive_iff.1 h
  rw [List.map_map]
  rfl

theorem names_of_declaresAgreeing {bs : List (Decl × Expr)} {βs : List (String × Ty)}
    (h : DeclaresAgreeing bs βs) : βs.map Prod.fst = boundNames bs := by
  induction h with
  | nil => rfl
  | cons _ _ ih => rw [List.map_cons, ih, boundNames, boundNames, List.map_cons]

theorem numbered_of_declaresAgreeing {bs : List (Decl × Expr)} {βs : List (String × Ty)}
    (h : DeclaresAgreeing bs βs) (hbs : CarriesBound (Ty.Numbered k) bs) :
    ∀ β ∈ βs, β.2.Numbered k := by
  induction h with
  | nil => simp
  | cons _ _ ih =>
    obtain ⟨-, hvalue, hbs⟩ := carriesBound_cons.1 hbs
    obtain ⟨hparams, hresult, -⟩ := carries_lambda.1 hvalue
    refine List.forall_mem_cons.2 ⟨?_, ih hbs⟩
    exact (renamed_procType (ρ := id) hparams hresult).1

/-- The bindings of a `let` form can be put in any order. -/
theorem derives_letin_perm {span : Span} {bs bs' : List (Decl × Expr)} {body : List Expr} {τ : Ty}
    (hperm : bs.Perm bs') (hnodup : (boundNames bs).Nodup) (hΓ : Γ.Numbered k)
    (hbs : CarriesBound (Ty.Numbered k) bs) (hk : k ≤ n)
    (h : Derives Matching Γ n (letin span bs body) τ m) :
    Derives Matching Γ n (letin span bs' body) τ m := by
  cases h with
  | letin hβs hbody =>
    obtain ⟨βs', hβs', hpermβ⟩ := hβs.perm hperm hΓ hbs hk
    rw [← names_of_bindingsDerive hβs] at hnodup
    exact .letin hβs' ((bodyDerives_congr (Scope.lookup_extend_perm hpermβ hnodup)).1 hbody)

/-- The bindings of a `letrec` form can be put in any order. The bodies of the procedures are put in
order first, in the scope as it was, and then the scope. -/
theorem derives_letrec_perm {span : Span} {bs bs' : List (Decl × Expr)} {body : List Expr} {τ : Ty}
    (hperm : bs.Perm bs') (hnodup : (boundNames bs).Nodup) (hΓ : Γ.Numbered k)
    (hbs : CarriesBound (Ty.Numbered k) bs) (hk : k ≤ n)
    (h : Derives Matching Γ n (letrec span bs body) τ m) :
    Derives Matching Γ n (letrec span bs' body) τ m := by
  cases h with
  | letrec hβs hprocedures hbody =>
    obtain ⟨βs', hβs', hpermβ⟩ := hβs.perm hperm
    rw [← names_of_declaresAgreeing hβs] at hnodup
    have hscope := hΓ.extend (numbered_of_declaresAgreeing hβs hbs)
    have hmov : ∀ b ∈ bs, Movable k (ProcedureFits (Γ.extend _) b) := fun b hb =>
      movable_procedure hscope (carriesBound_iff.1 hbs b hb).2
    have hreordered := proceduresDerive_iff.2
      ((proceduresDerive_iff.1 hprocedures).perm hperm hmov hk)
    have hsame := Scope.lookup_extend_perm (Γ := Γ) hpermβ hnodup
    exact .letrec hβs' ((proceduresDerive_congr hβs' hsame).1 hreordered)
      ((bodyDerives_congr hsame).1 hbody)

/-! ## Definitions in another order -/

/-- How a program goes on after a definition: it ends there without a value, or there are more
forms. -/
def FormsAfter (Γ : Scope) (n : Nat) (forms : List Expr) (τ : Ty) (Γ' : Scope) (m : Nat) : Prop :=
  (forms = [] ∧ τ = .base .void ∧ Γ' = Γ ∧ m = n) ∨ FormsDerive Matching Γ n forms τ Γ' m

theorem formsDerive_define {span : Span} {decl : Decl} {value : Expr} {forms : List Expr} {τ : Ty}
    {Γ' : Scope} : FormsDerive Matching Γ n (define span decl value :: forms) τ Γ' m ↔
      ∃ n₁, ValueFits Γ (decl, value) n n₁ ∧
        FormsAfter (Γ.extend [(decl.name, decl.boundType)]) n₁ forms τ Γ' m := by
  constructor
  · intro h
    cases h with
    | last h =>
      cases h with
      | define hvalue hkeeps => exact ⟨_, ⟨_, hvalue, hkeeps⟩, .inl ⟨rfl, rfl, rfl, rfl⟩⟩
      | expression h => cases h
    | cons h hforms =>
      cases h with
      | define hvalue hkeeps => exact ⟨_, ⟨_, hvalue, hkeeps⟩, .inr hforms⟩
      | expression h => cases h
  · rintro ⟨n₁, ⟨computed, hvalue, hkeeps⟩, ⟨rfl, rfl, rfl, rfl⟩ | hforms⟩
    · exact .last (.define hvalue hkeeps)
    · exact .cons (.define hvalue hkeeps) hforms

/-- A form is derived alike in scopes that agree, and leaves scopes that agree. -/
theorem FormDerives.congr {e : Expr} {τ : Ty} {Γ₁' : Scope} (h : ∀ x, Γ₁.lookup x = Γ₂.lookup x)
    (he : FormDerives Matching Γ₁ n e τ Γ₁' m) :
    ∃ Γ₂', FormDerives Matching Γ₂ n e τ Γ₂' m ∧ ∀ x, Γ₁'.lookup x = Γ₂'.lookup x := by
  cases he with
  | define hvalue hkeeps =>
    exact ⟨_, .define ((derives_congr fun x _ => h x).1 hvalue) hkeeps, fun x =>
      Scope.lookup_extend_congr fun _ => h x⟩
  | expression he => exact ⟨Γ₂, .expression ((derives_congr fun x _ => h x).1 he), h⟩

/-- Forms that get types in a scope get them in every scope with the same names, and leave scopes with
the same names. -/
theorem FormsDerive.congr {forms : List Expr} {τ : Ty} {Γ₁' : Scope}
    (h : ∀ x, Γ₁.lookup x = Γ₂.lookup x) (hforms : FormsDerive Matching Γ₁ n forms τ Γ₁' m) :
    ∃ Γ₂', FormsDerive Matching Γ₂ n forms τ Γ₂' m ∧ ∀ x, Γ₁'.lookup x = Γ₂'.lookup x := by
  induction forms generalizing Γ₁ Γ₂ n with
  | nil => cases hforms
  | cons e forms ih =>
    cases hforms with
    | last he =>
      obtain ⟨Γ₂', he', hsame⟩ := he.congr h
      exact ⟨Γ₂', .last he', hsame⟩
    | cons he hforms =>
      obtain ⟨Γ₂', he', hsame⟩ := he.congr h
      obtain ⟨Γ₂'', hforms', hsame'⟩ := ih hsame hforms
      exact ⟨Γ₂'', .cons he' hforms', hsame'⟩

theorem FormsAfter.congr {forms : List Expr} {τ : Ty} {Γ₁' : Scope}
    (h : ∀ x, Γ₁.lookup x = Γ₂.lookup x) (hforms : FormsAfter Γ₁ n forms τ Γ₁' m) :
    ∃ Γ₂', FormsAfter Γ₂ n forms τ Γ₂' m ∧ ∀ x, Γ₁'.lookup x = Γ₂'.lookup x := by
  rcases hforms with ⟨rfl, rfl, rfl, rfl⟩ | hforms
  · exact ⟨Γ₂, .inl ⟨rfl, rfl, rfl, rfl⟩, h⟩
  · obtain ⟨Γ₂', hforms', hsame⟩ := hforms.congr h
    exact ⟨Γ₂', .inr hforms', hsame⟩

/-- The frames of two definitions with different names can change places. -/
theorem lookup_extend_swap {β γ : String × Ty} (hne : β.1 ≠ γ.1) (x : String) :
    ((Γ.extend [β]).extend [γ]).lookup x = ((Γ.extend [γ]).extend [β]).lookup x := by
  rw [Scope.lookup_extend_extend, Scope.lookup_extend_extend]
  exact Scope.lookup_extend_perm (.swap γ β []) (by simpa using hne) x

/-- A definition does not change what a scope says about expressions that do not mention it. -/
theorem agreeOn_extend_singleton {names : List String} {name : String} (h : name ∉ names) (t : Ty) :
    Scope.AgreeOn names (Γ.extend [(name, t)]) Γ := fun x hx =>
  Scope.lookup_extend_of_not_mem (by
    simp only [List.map_cons, List.map_nil, List.mem_singleton]
    rintro rfl
    exact h hx)

section Swap

variable {span₁ span₂ : Span} {decl₁ decl₂ : Decl} {value₁ value₂ : Expr}
  {before after : List Expr} {τ : Ty} {Γ' : Scope}

/-- Two definitions at the head of a program that do not use each other can change places. -/
theorem FormsDerive.swap_head (hne : decl₁.name ≠ decl₂.name) (h₁ : decl₂.name ∉ value₁.freeVars)
    (h₂ : decl₁.name ∉ value₂.freeVars) (hΓ : Γ.Numbered k) (hk : k ≤ n)
    (hcarries : CarriesAll (Ty.Numbered k)
      (define span₁ decl₁ value₁ :: define span₂ decl₂ value₂ :: after))
    (h : FormsDerive Matching Γ n (define span₁ decl₁ value₁ :: define span₂ decl₂ value₂ :: after) τ
      Γ' m) :
    ∃ Γ'', FormsDerive Matching Γ n
        (define span₂ decl₂ value₂ :: define span₁ decl₁ value₁ :: after) τ Γ'' m ∧
      ∀ x, Γ'.lookup x = Γ''.lookup x := by
  obtain ⟨n₁, hvalue₁, hforms⟩ := formsDerive_define.1 h
  obtain ⟨hnil, -⟩ | hforms := hforms
  · cases hnil
  obtain ⟨n₂, ⟨computed₂, hvalue₂, hkeeps₂⟩, hafter⟩ := formsDerive_define.1 hforms
  -- The second value is typed in the scope before both definitions as well, and the two change places.
  have hvalue₂ := (derives_congr (agreeOn_extend_singleton h₂ _)).1 hvalue₂
  obtain ⟨hcarries₁, hcarries₂⟩ := carriesAll_cons.1 hcarries
  have hmov : ∀ b ∈ [(decl₁, value₁), (decl₂, value₂)], Movable k (ValueFits Γ b) := by
    simp only [List.forall_mem_cons]
    refine ⟨movable_value hΓ (carries_define.1 hcarries₁), movable_value hΓ ?_, by simp⟩
    exact carries_define.1 (carriesAll_cons.1 hcarries₂).1
  have hsteps : Steps (ValueFits Γ) [(decl₁, value₁), (decl₂, value₂)] n n₂ :=
    ⟨n₁, hvalue₁, n₂, ⟨computed₂, hvalue₂, hkeeps₂⟩, rfl⟩
  obtain ⟨n₁', hvalue₂', n₂', ⟨computed₁, hvalue₁', hkeeps₁⟩, rfl⟩ :=
    hsteps.perm (.swap _ _ []) hmov hk
  have hvalue₁' := (derives_congr (agreeOn_extend_singleton (Γ := Γ) h₁ decl₂.boundType)).2 hvalue₁'
  obtain ⟨Γ'', hafter', hsame⟩ := hafter.congr (lookup_extend_swap hne)
  exact ⟨Γ'', formsDerive_define.2 ⟨n₁', hvalue₂', .inr (formsDerive_define.2
    ⟨_, ⟨computed₁, hvalue₁', hkeeps₁⟩, hafter'⟩)⟩, hsame⟩

theorem FormDerives.le {e : Expr} (hΓ : Γ.Numbered k) (hk : k ≤ n) (he : e.Carries (Ty.Numbered k))
    (h : FormDerives Matching Γ n e τ Γ' m) : n ≤ m ∧ Γ'.Numbered k := by
  cases h with
  | define hvalue hkeeps =>
    obtain ⟨hdecl, hcarries⟩ := carries_define.1 he
    have hmov := movable_value (b := (_, _)) hΓ ⟨hdecl, hcarries⟩
    refine ⟨hmov.le hk ⟨_, hvalue, hkeeps⟩, hΓ.extend ?_⟩
    exact List.forall_mem_singleton.2 (boundType_of_forall hdecl Ty.over_absent)
  | expression hderives =>
    obtain ⟨-, j, hm, -⟩ :=
      (counts_typeOf Γ 0 e).exists_of_parallel (shifted_typeOf hk hk hΓ 0 0 he) hderives
    exact ⟨by omega, hΓ⟩

/-- Two definitions next to each other that do not use each other can change places. The induction is
on the forms before them. -/
theorem FormsDerive.swap (hne : decl₁.name ≠ decl₂.name) (h₁ : decl₂.name ∉ value₁.freeVars)
    (h₂ : decl₁.name ∉ value₂.freeVars) (hΓ : Γ.Numbered k) (hk : k ≤ n)
    (hcarries : CarriesAll (Ty.Numbered k)
      (before ++ define span₁ decl₁ value₁ :: define span₂ decl₂ value₂ :: after))
    (h : FormsDerive Matching Γ n
      (before ++ define span₁ decl₁ value₁ :: define span₂ decl₂ value₂ :: after) τ Γ' m) :
    ∃ Γ'', FormsDerive Matching Γ n
        (before ++ define span₂ decl₂ value₂ :: define span₁ decl₁ value₁ :: after) τ Γ'' m ∧
      ∀ x, Γ'.lookup x = Γ''.lookup x := by
  induction before generalizing Γ n with
  | nil => exact h.swap_head hne h₁ h₂ hΓ hk hcarries
  | cons e before ih =>
    obtain ⟨he, hcarries⟩ := carriesAll_cons.1 hcarries
    rw [List.cons_append] at h
    generalize hrest : before ++ define span₁ decl₁ value₁ :: define span₂ decl₂ value₂ :: after =
      rest at h
    cases h with
    | last _ => simp at hrest
    | cons hform hforms =>
      subst hrest
      obtain ⟨hle, hscope⟩ := hform.le hΓ hk he
      obtain ⟨Γ'', hforms', hsame⟩ := ih hscope (Nat.le_trans hk hle) hcarries hforms
      exact ⟨Γ'', .cons hform hforms', hsame⟩

/-- A program in which two definitions change places gives the same type after the same numbers. -/
theorem gives_swap {t : Ty} {Γ₁ : Scope} {tracing : Bool} (hne : decl₁.name ≠ decl₂.name)
    (h₁ : decl₂.name ∉ value₁.freeVars) (h₂ : decl₁.name ∉ value₂.freeVars) (hΓ : Γ.Numbered k)
    (hcarries : CarriesAll (Ty.Numbered k)
      (before ++ define span₁ decl₁ value₁ :: define span₂ decl₂ value₂ :: after))
    (h : ((Program.check Γ ⟨before ++ define span₁ decl₁ value₁ :: define span₂ decl₂ value₂ ::
      after⟩).runFrom k tracing).Gives (t, Γ₁) m) :
    ∃ Γ₂, ((Program.check Γ ⟨before ++ define span₂ decl₂ value₂ :: define span₁ decl₁ value₁ ::
        after⟩).runFrom k tracing).Gives (t, Γ₂) m ∧ ∀ x, Γ₁.lookup x = Γ₂.lookup x := by
  have hforms := (counts_typeOfForms Γ 0 _).gives_iff.1 h
  obtain ⟨Γ₂, hswapped, hsame⟩ := hforms.swap hne h₁ h₂ hΓ (Nat.le_refl k) hcarries
  exact ⟨Γ₂, (counts_typeOfForms Γ 0 _).gives_iff.2 hswapped, hsame⟩

end Swap

/-! ## The checker -/

/-- The order of independent bindings does not matter: in every scope, the bindings of a `let` or
`letrec` form with distinct names can be put in any order, and two definitions of a program with
different names, neither of whose values mentions the name of the other, can change places. The form or
program has the same type, after the same numbers of new variables, or it is rejected in both orders.
The scopes after the two programs say the same about every name. -/
theorem typeOf_eq_of_reordered {last : Nat} (hΓ : ∀ x ∈ Γ.typeVars, x ≤ last) (d : Nat)
    (tracing : Bool) :
    (∀ (span : Span) (bs bs' : List (Decl × Expr)) (body : List Expr),
      (∀ x ∈ (letin span bs body).typeVars, x ≤ last) → (boundNames bs).Nodup → bs.Perm bs' →
        let outcome (bs : List (Decl × Expr)) :=
          ((letin span bs body).typeOf Γ d).runFrom last tracing
        ∀ t n, (outcome bs).Gives t n ↔ (outcome bs').Gives t n) ∧
    (∀ (span : Span) (bs bs' : List (Decl × Expr)) (body : List Expr),
      (∀ x ∈ (letrec span bs body).typeVars, x ≤ last) → (boundNames bs).Nodup → bs.Perm bs' →
        let outcome (bs : List (Decl × Expr)) :=
          ((letrec span bs body).typeOf Γ d).runFrom last tracing
        ∀ t n, (outcome bs).Gives t n ↔ (outcome bs').Gives t n) ∧
    ∀ (span₁ span₂ : Span) (decl₁ decl₂ : Decl) (value₁ value₂ : Expr) (before after : List Expr),
      let define₁ := define span₁ decl₁ value₁
      let define₂ := define span₂ decl₂ value₂
      (∀ x ∈ (program (before ++ define₁ :: define₂ :: after)).typeVars, x ≤ last) →
      decl₁.name ≠ decl₂.name → decl₂.name ∉ value₁.freeVars → decl₁.name ∉ value₂.freeVars →
        let outcome (forms : List Expr) := (Program.check Γ ⟨forms⟩).runFrom last tracing
        let o₁ := outcome (before ++ define₁ :: define₂ :: after)
        let o₂ := outcome (before ++ define₂ :: define₁ :: after)
        (∀ t n, (∃ Γ₁, o₁.Gives (t, Γ₁) n) ↔ ∃ Γ₂, o₂.Gives (t, Γ₂) n) ∧
          ∀ r₁ r₂, o₁.result = .ok r₁ → o₂.result = .ok r₂ → ∀ x, r₁.2.lookup x = r₂.2.lookup x := by
  have hscope := Scope.numbered_iff.2 hΓ
  refine ⟨?_, ?_, ?_⟩
  · intro span bs bs' body he hnodup hperm outcome t n
    have hbs := (carries_letin.1 (carries_numbered_iff.2 he)).1
    rw [(counts_typeOf Γ d _).gives_iff, (counts_typeOf Γ d _).gives_iff]
    exact ⟨derives_letin_perm hperm hnodup hscope hbs (Nat.le_refl last),
      derives_letin_perm hperm.symm (nodup_boundNames_perm hperm hnodup) hscope
        (carriesBound_perm hperm hbs) (Nat.le_refl last)⟩
  · intro span bs bs' body he hnodup hperm outcome t n
    have hbs := (carries_letrec.1 (carries_numbered_iff.2 he)).1
    rw [(counts_typeOf Γ d _).gives_iff, (counts_typeOf Γ d _).gives_iff]
    exact ⟨derives_letrec_perm hperm hnodup hscope hbs (Nat.le_refl last),
      derives_letrec_perm hperm.symm (nodup_boundNames_perm hperm hnodup) hscope
        (carriesBound_perm hperm hbs) (Nat.le_refl last)⟩
  · intro span₁ span₂ decl₁ decl₂ value₁ value₂ before after define₁ define₂ he hne h₁ h₂ outcome o₁ o₂
    have hall : CarriesAll (Ty.Numbered last) (before ++ define₁ :: define₂ :: after) :=
      carries_numbered_iff.2 he
    have hall' : CarriesAll (Ty.Numbered last) (before ++ define₂ :: define₁ :: after) := by
      simp only [carriesAll_append, carriesAll_cons] at hall ⊢
      exact ⟨hall.1, hall.2.2.1, hall.2.1, hall.2.2.2⟩
    have hthere : ∀ {t Γ₁ n}, o₁.Gives (t, Γ₁) n →
        ∃ Γ₂, o₂.Gives (t, Γ₂) n ∧ ∀ x, Γ₁.lookup x = Γ₂.lookup x :=
      gives_swap hne h₁ h₂ hscope hall
    have hback : ∀ {t Γ₂ n}, o₂.Gives (t, Γ₂) n →
        ∃ Γ₁, o₁.Gives (t, Γ₁) n ∧ ∀ x, Γ₂.lookup x = Γ₁.lookup x :=
      gives_swap hne.symm h₂ h₁ hscope hall'
    refine ⟨fun t n => ⟨?_, ?_⟩, ?_⟩
    · rintro ⟨Γ₁, h⟩
      obtain ⟨Γ₂, h, -⟩ := hthere h
      exact ⟨Γ₂, h⟩
    · rintro ⟨Γ₂, h⟩
      obtain ⟨Γ₁, h, -⟩ := hback h
      exact ⟨Γ₁, h⟩
    · rintro ⟨t₁, Γ₁⟩ ⟨t₂, Γ₂⟩ hr₁ hr₂ x
      obtain ⟨Γ₂', ⟨hr₂', -⟩, hsame⟩ := hthere ⟨hr₁, rfl⟩
      -- The second program leaves one scope.
      obtain ⟨-, rfl⟩ : t₁ = t₂ ∧ Γ₂' = Γ₂ := by simpa [hr₂] using hr₂'.symm
      exact hsame x

/-- Two bindings whose values need different numbers of new variables, in both orders of a `let` form
and of a program, and two procedures of a `letrec` form that call each other. -/
theorem typeOf_eq_of_reordered_pairMaker :
    let name (text : String) : Token := ⟨.symbol, .absent, text⟩
    let Γ : Scope := [[("f", .proc [.var 1] (.pair (.var 1) (.var 2))), ("x", .var 3)]]
    let a : Decl × Expr := (⟨name "a", some (.pair (.var 3) (.var 4)), .absent⟩,
      app .absent (var (name "f")) [var (name "x")])
    let b : Decl × Expr := (⟨name "b", some (.base .boolean), .absent⟩, boolean (name "#t") true)
    let body := [app .absent (var (name "f")) [var (name "a")]]
    let calling (p q : String) : Decl × Expr := (⟨name p, none, .absent⟩, lambda .absent
      [⟨name "y", .var 4, .absent⟩] (.base .number) [app .absent (var (name q)) [var (name "y")]])
    let τ : Ty := .pair (.pair (.var 3) (.var 4)) (.var 8)
    let value (c : Decl × Expr) := define .absent c.1 c.2
    (((letin .absent [a, b] body).typeOf Γ 0).runFrom 4 false).Gives τ 8 ∧
      (((letin .absent [b, a] body).typeOf Γ 0).runFrom 4 false).Gives τ 8 ∧
      (((letrec .absent [calling "q" "p", calling "p" "q"] [var (name "p")]).typeOf Γ 0).runFrom 4
        false).Gives (.proc [.var 4] (.base .number)) 6 ∧
      ∃ Γ', ((Program.check Γ ⟨[value b, value a] ++ body⟩).runFrom 4 false).Gives (τ, Γ') 8 := by
  intro name Γ a b body calling τ value
  have hΓ : ∀ x ∈ Γ.typeVars, x ≤ 4 := by decide
  have h := typeOf_eq_of_reordered hΓ 0 false
  have hfirst : (((letin .absent [a, b] body).typeOf Γ 0).runFrom 4 false).Gives τ 8 := ⟨rfl, rfl⟩
  refine ⟨hfirst, ?_, ?_, ?_⟩
  · exact (h.1 .absent [a, b] [b, a] body (by decide) (by decide) (.swap _ _ _) τ 8).1 hfirst
  · exact (h.2.1 .absent [calling "p" "q", calling "q" "p"] [calling "q" "p", calling "p" "q"]
      [var (name "p")] (by decide) (by decide) (.swap _ _ _) _ 6).1 ⟨rfl, rfl⟩
  · exact ((h.2.2 .absent .absent a.1 b.1 a.2 b.2 [] body (by decide) (by decide) (by decide)
      (by decide)).1 τ 8).1 ⟨_, rfl, rfl⟩

end Expr

end TypedScheme
