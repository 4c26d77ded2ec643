import TypedScheme.Proofs.Expr.WellFormed
import TypedScheme.Proofs.Typing.FreeVariables

/-!
# Accepted trees and reported names

Typing an expression goes through all of it. So if an expression has a type, nothing that stands
anywhere inside it can be wrong by itself: no name is unknown, no definition stands inside another form,
no body is empty, and all that is bound recursively are procedures. If it fails because a name is
unknown, then the name does occur where the error points, and nothing there binds it.

## What this module delivers

- `Expr.OccursFree t e`: the token `t` is a free occurrence of its name in `e`, by one rule for every
  form that may hold it, with `Expr.mem_freeVars_iff`: the free variables are the names of free
  occurrences.
- `Expr.Orderly`, what acceptance says about one form apart from its names, and `Expr.Covered Γ e`, what
  it says about a whole tree, with one lemma for every form.
- `Check.Reports c P E`: a result of the check `c` makes sure of `P`, and an unbound name is reported at
  an occurrence in `E`.
- `Expr.reports_typeOf` and its companions, one rule of typing at a time.
- `Expr.covered_or_occursFree_of_typeOf`: the two together, for whole checks.
-/

set_option autoImplicit false

namespace TypedScheme

namespace Expr

/-! ## Free occurrences -/

/-- A token is a free occurrence of its name in an expression: no form around it binds the name in the
part of the form that the token stands in. -/
inductive OccursFree (t : Token) : Expr → Prop
  | var : OccursFree t (var t)
  | cond {span : Span} {test consequent alternative c : Expr} :
      c ∈ [test, consequent, alternative] → OccursFree t c →
      OccursFree t (cond span test consequent alternative)
  | lambda {span : Span} {params : List Param} {result : Ty} {body : List Expr} {c : Expr} :
      c ∈ body → OccursFree t c → t.text ∉ params.map Param.name →
      OccursFree t (lambda span params result body)
  | app {span : Span} {operator c : Expr} {operands : List Expr} :
      c ∈ operator :: operands → OccursFree t c → OccursFree t (app span operator operands)
  | letValue {span : Span} {bindings : List (Decl × Expr)} {body : List Expr} {b : Decl × Expr} :
      b ∈ bindings → OccursFree t b.2 → OccursFree t (letin span bindings body)
  | letBody {span : Span} {bindings : List (Decl × Expr)} {body : List Expr} {c : Expr} :
      c ∈ body → OccursFree t c → t.text ∉ boundNames bindings →
      OccursFree t (letin span bindings body)
  | letrecValue {span : Span} {bindings : List (Decl × Expr)} {body : List Expr} {b : Decl × Expr} :
      b ∈ bindings → OccursFree t b.2 → t.text ∉ boundNames bindings →
      OccursFree t (letrec span bindings body)
  | letrecBody {span : Span} {bindings : List (Decl × Expr)} {body : List Expr} {c : Expr} :
      c ∈ body → OccursFree t c → t.text ∉ boundNames bindings →
      OccursFree t (letrec span bindings body)
  | define {span : Span} {decl : Decl} {value : Expr} :
      OccursFree t value → OccursFree t (define span decl value)
  | program {before after : List Expr} {c : Expr} :
      OccursFree t c → t.text ∉ before.flatMap definedNames →
      OccursFree t (program (before ++ c :: after))

theorem occursFree_program_nil {t : Token} : OccursFree t (program []) ↔ False := by
  rw [iff_false]
  generalize hforms : ([] : List Expr) = forms
  intro h
  cases h with
  | program => simp at hforms

/-- A free occurrence in a program stands in its first form, or in the forms after it with a name that
the first form does not define. -/
theorem occursFree_program_cons {t : Token} {e : Expr} {rest : List Expr} :
    OccursFree t (program (e :: rest)) ↔
      OccursFree t e ∨ OccursFree t (program rest) ∧ t.text ∉ e.definedNames := by
  constructor
  · intro h
    generalize hforms : e :: rest = forms at h
    cases h with
    | @program before after c ht hx =>
      rcases before with _ | ⟨f, before⟩
      · obtain ⟨rfl, -⟩ := List.cons.inj hforms
        exact .inl ht
      · obtain ⟨rfl, rfl⟩ := List.cons.inj hforms
        rw [List.flatMap_cons, List.mem_append, not_or] at hx
        exact .inr ⟨.program ht hx.2, hx.1⟩
  · rintro (ht | ⟨ht, hx⟩)
    · exact @OccursFree.program t [] rest e ht (by simp)
    · cases ht with
      | @program before after c ht hbefore =>
        refine @OccursFree.program t (e :: before) after c ht ?_
        rw [List.flatMap_cons, List.mem_append, not_or]
        exact ⟨hx, hbefore⟩

mutual

/-- The free variables of an expression are the names of its free occurrences. -/
theorem mem_freeVars_iff (e : Expr) {x : String} :
    x ∈ e.freeVars ↔ ∃ t, OccursFree t e ∧ t.text = x := by
  cases e with
  | missing | number | boolean | string | quoted | primitive =>
    refine ⟨fun h => absurd h List.not_mem_nil, ?_⟩
    rintro ⟨t, h, -⟩
    cases h
  | var token =>
    rw [freeVars, List.mem_singleton]
    constructor
    · rintro rfl
      exact ⟨token, .var, rfl⟩
    · rintro ⟨t, h, rfl⟩
      cases h
      rfl
  | cond span test consequent alternative =>
    rw [freeVars, List.mem_append, List.mem_append, mem_freeVars_iff test,
      mem_freeVars_iff consequent, mem_freeVars_iff alternative]
    constructor
    · rintro ((⟨t, ht, rfl⟩ | ⟨t, ht, rfl⟩) | ⟨t, ht, rfl⟩)
      · exact ⟨t, .cond (by simp) ht, rfl⟩
      · exact ⟨t, .cond (by simp) ht, rfl⟩
      · exact ⟨t, .cond (by simp) ht, rfl⟩
    · rintro ⟨t, h, rfl⟩
      cases h with
      | cond hc ht =>
        simp only [List.mem_cons, List.not_mem_nil, or_false] at hc
        rcases hc with rfl | rfl | rfl
        · exact .inl (.inl ⟨t, ht, rfl⟩)
        · exact .inl (.inr ⟨t, ht, rfl⟩)
        · exact .inr ⟨t, ht, rfl⟩
  | lambda span params result body =>
    -- An occurrence of a parameter in the body is not free, and `without` takes out those names.
    rw [freeVars, mem_without, mem_freeVarsAll_iff body]
    constructor
    · rintro ⟨⟨c, hc, t, ht, rfl⟩, hx⟩
      exact ⟨t, .lambda hc ht hx, rfl⟩
    · rintro ⟨t, h, rfl⟩
      cases h with
      | lambda hc ht hx => exact ⟨⟨_, hc, t, ht, rfl⟩, hx⟩
  | app span operator operands =>
    rw [freeVars, List.mem_append, mem_freeVars_iff operator, mem_freeVarsAll_iff operands]
    constructor
    · rintro (⟨t, ht, rfl⟩ | ⟨c, hc, t, ht, rfl⟩)
      · exact ⟨t, .app List.mem_cons_self ht, rfl⟩
      · exact ⟨t, .app (List.mem_cons_of_mem _ hc) ht, rfl⟩
    · rintro ⟨t, h, rfl⟩
      cases h with
      | app hc ht =>
        rcases List.mem_cons.1 hc with rfl | hc
        · exact .inl ⟨t, ht, rfl⟩
        · exact .inr ⟨_, hc, t, ht, rfl⟩
  | letin span bindings body =>
    rw [freeVars, List.mem_append, mem_without, mem_freeVarsBound_iff bindings,
      mem_freeVarsAll_iff body]
    constructor
    · rintro (⟨b, hb, t, ht, rfl⟩ | ⟨⟨c, hc, t, ht, rfl⟩, hx⟩)
      · exact ⟨t, .letValue hb ht, rfl⟩
      · exact ⟨t, .letBody hc ht hx, rfl⟩
    · rintro ⟨t, h, rfl⟩
      cases h with
      | letValue hb ht => exact .inl ⟨_, hb, t, ht, rfl⟩
      | letBody hc ht hx => exact .inr ⟨⟨_, hc, t, ht, rfl⟩, hx⟩
  | letrec span bindings body =>
    -- Here the values stand inside of the bound names too, as the body does.
    rw [freeVars, mem_without, List.mem_append, mem_freeVarsBound_iff bindings,
      mem_freeVarsAll_iff body]
    constructor
    · rintro ⟨⟨b, hb, t, ht, rfl⟩ | ⟨c, hc, t, ht, rfl⟩, hx⟩
      · exact ⟨t, .letrecValue hb ht hx, rfl⟩
      · exact ⟨t, .letrecBody hc ht hx, rfl⟩
    · rintro ⟨t, h, rfl⟩
      cases h with
      | letrecValue hb ht hx => exact ⟨.inl ⟨_, hb, t, ht, rfl⟩, hx⟩
      | letrecBody hc ht hx => exact ⟨.inr ⟨_, hc, t, ht, rfl⟩, hx⟩
  | define span decl value =>
    rw [freeVars, mem_freeVars_iff value]
    constructor
    · rintro ⟨t, ht, rfl⟩
      exact ⟨t, .define ht, rfl⟩
    · rintro ⟨t, h, rfl⟩
      cases h with
      | define ht => exact ⟨t, ht, rfl⟩
  | program forms => rw [freeVars, mem_freeVarsOfForms_iff forms]

/-- A name is free in expressions if it occurs free in one of them. -/
theorem mem_freeVarsAll_iff (es : List Expr) {x : String} :
    x ∈ freeVarsAll es ↔ ∃ e ∈ es, ∃ t, OccursFree t e ∧ t.text = x := by
  match es with
  | [] => simp [freeVarsAll]
  | e :: es => simp [freeVarsAll, mem_freeVars_iff e, mem_freeVarsAll_iff es]

theorem mem_freeVarsBound_iff (bs : List (Decl × Expr)) {x : String} :
    x ∈ freeVarsBound bs ↔ ∃ b ∈ bs, ∃ t, OccursFree t b.2 ∧ t.text = x := by
  match bs with
  | [] => simp [freeVarsBound]
  | (decl, value) :: rest =>
    rw [freeVarsBound, List.mem_append, mem_freeVars_iff value, mem_freeVarsBound_iff rest]
    simp only [List.mem_cons, exists_eq_or_imp]

-- A definition hides its name from the forms after it, so the rule for a program follows its forms.
/-- A name is free in forms if it occurs free in their program. -/
theorem mem_freeVarsOfForms_iff (forms : List Expr) {x : String} :
    x ∈ freeVarsOfForms forms ↔ ∃ t, OccursFree t (program forms) ∧ t.text = x := by
  match forms with
  | [] =>
    refine ⟨fun h => absurd h List.not_mem_nil, ?_⟩
    rintro ⟨t, h, -⟩
    rw [occursFree_program_nil] at h
    exact h.elim
  | e :: rest =>
    simp only [freeVarsOfForms, List.mem_append, mem_without, mem_freeVars_iff e,
      mem_freeVarsOfForms_iff rest, occursFree_program_cons]
    constructor
    · rintro (⟨t, ht, rfl⟩ | ⟨⟨t, ht, rfl⟩, hx⟩)
      · exact ⟨t, .inl ht, rfl⟩
      · exact ⟨t, .inr ⟨ht, hx⟩, rfl⟩
    · rintro ⟨t, ht | ⟨ht, hx⟩, rfl⟩
      · exact .inl ⟨t, ht, rfl⟩
      · exact .inr ⟨⟨t, ht, rfl⟩, hx⟩

end

end Expr

/-! ## Names that a scope does not know -/

namespace Scope

variable {Γ : Scope} {x : String}

/-- A name is unknown in an extended scope if it is neither bound there nor known before. -/
theorem lookup_extend_eq_none_iff {bindings : List (String × Ty)} :
    (Γ.extend bindings).lookup x = none ↔ x ∉ bindings.map Prod.fst ∧ Γ.lookup x = none := by
  rw [lookup_extend, Option.or_eq_none_iff, lookup_reverse_eq_none_iff]

/-- A name is unknown after a form if the form does not define it and it was unknown before. -/
theorem lookup_scopeAfter_eq_none_iff {e : Expr} :
    (e.scopeAfter Γ).lookup x = none ↔ x ∉ e.definedNames ∧ Γ.lookup x = none := by
  cases e with
  | define span decl value => exact lookup_extend_eq_none_iff
  | missing | number | boolean | string | quoted | primitive | var | cond | lambda | app | letin
  | letrec | program => exact (and_iff_right List.not_mem_nil).symm

end Scope

/-! ## What acceptance says about a tree -/

namespace Expr

/-- Whether a form is a definition. -/
def isDefine : Expr → Bool
  | define _ _ _ => true
  | _ => false

/-- A form has definitions only if it is a program, has a body that is not empty if it has one at all,
and binds procedures only if it binds recursively. -/
structure Orderly (f : Expr) : Prop where
  defines : ∀ c ∈ f.children, c.isDefine = true → ∃ forms, f = program forms
  body : f.body? ≠ some []
  recursive : ∀ span bindings body, f = letrec span bindings body →
    ∀ b ∈ bindings, b.2.isLambda = true

/-- A scope knows every name that occurs free in a tree, and all forms of the tree are orderly. -/
structure Covered (Γ : Scope) (e : Expr) : Prop where
  bound : ∀ t, OccursFree t e → Γ.lookup t.text ≠ none
  orderly : ∀ f, Inside f e → f.Orderly

/-- What acceptance says about an expression: it is covered and is no definition. -/
structure Accepted (Γ : Scope) (e : Expr) : Prop extends Covered Γ e where
  not_define : e.isDefine = false

/-- A token is a free occurrence of a name that the scope does not know. -/
structure UnboundAt (Γ : Scope) (e : Expr) (t : Token) : Prop where
  occurs : OccursFree t e
  unbound : Γ.lookup t.text = none

section Covered

variable {Γ : Scope} {span : Span}

/-- The forms inside a form are itself and those inside the forms that it consists of. -/
theorem orderly_inside {e : Expr} (he : e.Orderly)
    (hchildren : ∀ c ∈ e.children, ∀ f, Inside f c → f.Orderly) : ∀ f, Inside f e → f.Orderly := by
  intro f hf
  cases hf with
  | refl => exact he
  | child hc hf => exact hchildren _ hc f hf

/-- A part that may stand in a form which is not a program: it is no definition and holds orderly forms
only. -/
structure IsPart (c : Expr) : Prop where
  not_define : c.isDefine = false
  orderly : ∀ f, Inside f c → f.Orderly

theorem Accepted.isPart {c : Expr} (h : Accepted Γ c) : IsPart c := ⟨h.not_define, h.orderly⟩

/-- A form that is not a program is covered if what it consists of are parts, besides what the form
itself must satisfy. -/
theorem covered_of_children {e : Expr} (hchildren : ∀ c ∈ e.children, IsPart c)
    (hbody : e.body? ≠ some [])
    (hrecursive : ∀ span bindings body, e = letrec span bindings body →
      ∀ b ∈ bindings, b.2.isLambda = true)
    (hbound : ∀ t, OccursFree t e → Γ.lookup t.text ≠ none) : Covered Γ e := by
  refine ⟨hbound, orderly_inside ⟨fun c hc hdefine => ?_, hbody, hrecursive⟩ fun c hc => ?_⟩
  · rw [(hchildren c hc).not_define] at hdefine
    cases hdefine
  · exact (hchildren c hc).orderly

/-- An expression without parts is covered if its own name is known. -/
theorem covered_leaf {e : Expr} (hchildren : e.children = []) (hbody : e.body? = none)
    (hbound : ∀ t, OccursFree t e → Γ.lookup t.text ≠ none) : Covered Γ e := by
  refine covered_of_children (by simp [hchildren]) (by simp [hbody]) ?_ hbound
  rintro _ _ _ rfl
  cases hbody

theorem covered_cond {test consequent alternative : Expr} (htest : Accepted Γ test)
    (hconsequent : Accepted Γ consequent) (halternative : Accepted Γ alternative) :
    Covered Γ (cond span test consequent alternative) := by
  have hparts : ∀ c ∈ [test, consequent, alternative], Accepted Γ c := by
    simp only [List.forall_mem_cons, List.not_mem_nil, false_imp_iff, implies_true, and_true]
    exact ⟨htest, hconsequent, halternative⟩
  refine covered_of_children (fun c hc => (hparts c hc).isPart) (by simp [body?]) ?_ fun t ht => ?_
  · rintro _ _ _ ⟨⟩
  · cases ht with
    | cond hc ht => exact (hparts _ hc).bound t ht

/-- An application is covered if its operator and its operands are accepted. -/
theorem covered_app {operator : Expr} {operands : List Expr} (hoperator : Accepted Γ operator)
    (hoperands : ∀ c ∈ operands, Accepted Γ c) : Covered Γ (app span operator operands) := by
  have hparts : ∀ c ∈ operator :: operands, Accepted Γ c :=
    List.forall_mem_cons.2 ⟨hoperator, hoperands⟩
  refine covered_of_children (fun c hc => (hparts c hc).isPart) (by simp [body?]) ?_ fun t ht => ?_
  · rintro _ _ _ ⟨⟩
  · cases ht with
    | app hc ht => exact (hparts _ hc).bound t ht

/-- What acceptance says about a body: it has an expression, and all its expressions are accepted. -/
structure BodyAccepted (Γ : Scope) (es : List Expr) : Prop where
  nonempty : es ≠ []
  accepted : ∀ c ∈ es, Accepted Γ c

/-- A name that is known inside a new frame and is not one of its names is known outside. -/
theorem lookup_ne_none_of_extend {bindings : List (String × Ty)} {names : List String} {x : String}
    (hnames : bindings.map Prod.fst = names) (hx : x ∉ names)
    (h : (Γ.extend bindings).lookup x ≠ none) : Γ.lookup x ≠ none := by
  intro hnone
  exact h (Scope.lookup_extend_eq_none_iff.2 ⟨hnames ▸ hx, hnone⟩)

/-- A procedure is covered if its body is accepted under its parameters. -/
theorem covered_lambda {params : List Param} {result : Ty} {body : List Expr}
    (hbody : BodyAccepted (Γ.extend (Param.bindings params)) body) :
    Covered Γ (lambda span params result body) := by
  refine covered_of_children (fun c hc => (hbody.accepted c hc).isPart) ?_ ?_ fun t ht => ?_
  · simpa [body?] using hbody.nonempty
  · rintro _ _ _ ⟨⟩
  · cases ht with
    | lambda hc ht hx =>
      exact lookup_ne_none_of_extend (Param.map_fst_bindings params) hx
        ((hbody.accepted _ hc).bound t ht)

/-- The values of bindings and a body in a row are parts if all of them are. -/
theorem isPart_bindings_body {Γ' : Scope} {bindings : List (Decl × Expr)} {body : List Expr}
    (hvalues : ∀ b ∈ bindings, IsPart b.2) (hbody : BodyAccepted Γ' body) :
    ∀ c ∈ bindings.map (·.2) ++ body, IsPart c :=
  List.forall_mem_append.2
    ⟨List.forall_mem_map.2 hvalues, fun c hc => (hbody.accepted c hc).isPart⟩

/-- Bindings are covered if their values are accepted outside of them, and the body under them. -/
theorem covered_letin {bindings : List (Decl × Expr)} {body : List Expr} {βs : List (String × Ty)}
    (hnames : βs.map Prod.fst = boundNames bindings) (hvalues : ∀ b ∈ bindings, Accepted Γ b.2)
    (hbody : BodyAccepted (Γ.extend βs) body) : Covered Γ (letin span bindings body) := by
  refine covered_of_children
    (isPart_bindings_body (fun b hb => (hvalues b hb).isPart) hbody) ?_ ?_ fun t ht => ?_
  · simpa [body?] using hbody.nonempty
  · rintro _ _ _ ⟨⟩
  · cases ht with
    | letValue hb ht => exact (hvalues _ hb).bound t ht
    | letBody hc ht hx => exact lookup_ne_none_of_extend hnames hx ((hbody.accepted _ hc).bound t ht)

theorem isDefine_of_isLambda {e : Expr} (h : e.isLambda = true) : e.isDefine = false := by
  cases e with
  | lambda => rfl
  | missing | number | boolean | string | quoted | primitive | var | cond | app | letin | letrec
  | define | program => cases h

/-- Recursive bindings are covered if they are procedures that are covered under all of them. -/
theorem covered_letrec {bindings : List (Decl × Expr)} {body : List Expr} {βs : List (String × Ty)}
    (hnames : βs.map Prod.fst = boundNames bindings) (hlambda : ∀ b ∈ bindings, b.2.isLambda = true)
    (hvalues : ∀ b ∈ bindings, Covered (Γ.extend βs) b.2) (hbody : BodyAccepted (Γ.extend βs) body) :
    Covered Γ (letrec span bindings body) := by
  have hparts : ∀ b ∈ bindings, IsPart b.2 :=
    fun b hb => ⟨isDefine_of_isLambda (hlambda b hb), (hvalues b hb).orderly⟩
  refine covered_of_children (isPart_bindings_body hparts hbody) ?_ ?_ fun t ht => ?_
  · simpa [body?] using hbody.nonempty
  · rintro _ _ _ ⟨⟩
    exact hlambda
  · -- The procedures are inside of the new frame, as the body is.
    cases ht with
    | letrecValue hb ht hx => exact lookup_ne_none_of_extend hnames hx ((hvalues _ hb).bound t ht)
    | letrecBody hc ht hx =>
      exact lookup_ne_none_of_extend hnames hx ((hbody.accepted _ hc).bound t ht)

theorem covered_define {decl : Decl} {value : Expr} (hvalue : Accepted Γ value) :
    Covered Γ (define span decl value) := by
  refine covered_of_children (List.forall_mem_singleton.2 hvalue.isPart) (by simp [body?]) ?_
    fun t ht => ?_
  · rintro _ _ _ ⟨⟩
  · cases ht with
    | define ht => exact hvalue.bound t ht

theorem orderly_program (forms : List Expr) : Orderly (program forms) := by
  refine ⟨fun _ _ _ => ⟨forms, rfl⟩, by simp [body?], ?_⟩
  rintro _ _ _ ⟨⟩

theorem covered_program_nil : Covered Γ (program []) := by
  refine ⟨fun t ht => (occursFree_program_nil.1 ht).elim, orderly_inside (orderly_program []) ?_⟩
  simp [children]

/-- A program is covered if its first form is, and the rest of it in the scope after that form. -/
theorem covered_program_cons {e : Expr} {rest : List Expr} (he : Covered Γ e)
    (hrest : Covered (scopeAfter Γ e) (program rest)) : Covered Γ (program (e :: rest)) := by
  refine ⟨fun t ht => ?_, orderly_inside (orderly_program _) (List.forall_mem_cons.2 ⟨?_, ?_⟩)⟩
  · rcases occursFree_program_cons.1 ht with ht | ⟨ht, hx⟩
    · exact he.bound t ht
    · intro hnone
      exact hrest.bound t ht (Scope.lookup_scopeAfter_eq_none_iff.2 ⟨hx, hnone⟩)
  · exact he.orderly
  · intro c hc f hf
    exact hrest.orderly f (.child (e := program rest) hc hf)

end Covered

end Expr

/-! ## Checks that report unbound names -/

namespace Check

variable {α β : Type}

/-- From every state, a check that has a result makes sure of `P`, and one that reports an unbound name
does so at the place of an occurrence of the name in `E`. -/
def Reports (c : Check α) (P : Prop) (E : Token → Prop) : Prop :=
  ∀ σ, (∀ a, (c.run σ).1 = .ok a → P) ∧
    ∀ x span, (c.run σ).1 = .error ⟨.unbound x, span⟩ → ∃ t, E t ∧ t.text = x ∧ t.span = span

namespace Reports

variable {c : Check α} {P Q : Prop} {E E' : Token → Prop}

theorem pure {a : α} (h : P) : Reports (Pure.pure a) P E := by
  intro σ
  refine ⟨fun _ _ => h, fun x span he => ?_⟩
  simp at he

/-- A fault that is no unbound name reports none. -/
theorem fault {f : TypeFault} {span : Span} (hf : ∀ x, f ≠ .unbound x) :
    Reports (Check.fault f span : Check α) P E := by
  intro σ
  refine ⟨fun a ha => by simp at ha, fun x span' he => ?_⟩
  rw [run_fault, Except.error.injEq, TypeError.mk.injEq] at he
  exact absurd he.1 (hf x)

/-- A bind reports what its first part reports, and what its second part does after a result that
satisfies `R`. -/
theorem bind {R : α → Prop} {f : α → Check β} (hR : Ensures c R) (hc : Reports c P E)
    (hf : ∀ a, R a → P → Reports (f a) Q E) : Reports (c >>= f) Q E := by
  intro σ
  rcases hr : c.run σ with ⟨e | a, σ'⟩
  · rw [run_bind_error hr]
    refine ⟨fun b hb => by simp at hb, fun x span he => ?_⟩
    obtain rfl : e = _ := Except.error.inj he
    exact (hc σ).2 x span (by rw [hr])
  · rw [run_bind_ok hr]
    have ha : (c.run σ).1 = .ok a := by rw [hr]
    exact hf a (hR σ a ha) ((hc σ).1 a ha) σ'

/-- A bind whose second part reports the same after every result. -/
theorem andThen {f : α → Check β} (hc : Reports c P E) (hf : ∀ a, P → Reports (f a) Q E) :
    Reports (c >>= f) Q E :=
  bind (.any c) hc fun a _ => hf a

/-- What a check reports can be said in weaker words. -/
theorem mono (hc : Reports c P E) (hP : P → Q) (hE : ∀ t, E t → E' t) : Reports c Q E' := by
  intro σ
  refine ⟨fun a ha => hP ((hc σ).1 a ha), fun x span he => ?_⟩
  obtain ⟨t, ht, hx, hspan⟩ := (hc σ).2 x span he
  exact ⟨t, hE t ht, hx, hspan⟩

theorem after_note {depth : Nat} {e : Expr} (hc : Reports c P E) :
    Reports (do Check.note depth e; c) P E := by
  intro σ
  obtain ⟨notes, h⟩ := run_note depth e σ
  rw [run_bind_ok h]
  exact hc _

theorem require {expected found : Ty} {inside : Expr} :
    Reports (Check.require expected found inside) True E := by
  unfold Check.require
  split
  · exact pure trivial
  · exact fault fun x h => by cases h

theorem numbered {make : Nat → α × Nat} : Reports (Check.numbered make) True E := by
  intro σ
  rw [run_numbered]
  exact ⟨fun _ _ => trivial, fun x span he => by simp at he⟩

end Reports

end Check

/-- A quoted value has a type, unless a part of it is missing. -/
theorem Value.eq_missingValue_of_typeOf {v : Value} {top : Bool} {f : TypeFault}
    (h : v.typeOf top = .error f) : f = .missingValue := by
  induction v generalizing top with
  | missing =>
    cases h
    rfl
  | number | boolean | string | symbol | empty => cases h
  | pair a d iha ihd =>
    rw [typeOf] at h
    cases ha : a.typeOf false with
    | error g =>
      rw [ha] at h
      cases h
      exact iha ha
    | ok car =>
      cases hd : d.typeOf false with
      | error g =>
        rw [ha, hd] at h
        cases h
        exact ihd hd
      | ok cdr =>
        rw [ha, hd] at h
        cases h

namespace Expr

open Check

/-! ## One rule of typing at a time -/

/-- A name that is unknown inside a new frame is not one of its names and is unknown outside. -/
theorem UnboundAt.outside {Γ : Scope} {βs : List (String × Ty)} {names : List String} {e : Expr}
    {t : Token} (h : UnboundAt (Γ.extend βs) e t) (hnames : βs.map Prod.fst = names) :
    t.text ∉ names ∧ Γ.lookup t.text = none :=
  hnames ▸ Scope.lookup_extend_eq_none_iff.1 h.unbound

/-- A name that is unknown in a body is unknown around it, and no parameter. -/
theorem unboundAt_lambda {Γ : Scope} {span : Span} {params : List Param} {result : Ty}
    {body : List Expr} {c : Expr} {t : Token} (hc : c ∈ body)
    (h : UnboundAt (Γ.extend (Param.bindings params)) c t) :
    UnboundAt Γ (lambda span params result body) t := by
  obtain ⟨hx, hnone⟩ := h.outside (Param.map_fst_bindings params)
  exact ⟨.lambda hc h.occurs hx, hnone⟩

theorem reports_recursiveBinding {E : Token → Prop} (b : Decl × Expr) :
    Reports (recursiveBinding b) (b.2.isLambda = true) E := by
  obtain ⟨decl, value⟩ := b
  cases value with
  | lambda span params result body =>
    rw [recursiveBinding]
    cases decl.ty? with
    | none => exact .pure rfl
    | some declared => exact .andThen .require fun _ _ => .pure rfl
  | missing | number | boolean | string | quoted | primitive | var | cond | app | letin | letrec
  | define | program => exact .fault fun x h => by cases h

/-- Names are brought into scope recursively only if all values are procedures. -/
theorem reports_recursiveBindings {E : Token → Prop} (bs : List (Decl × Expr)) :
    Reports (recursiveBindings bs) (∀ b ∈ bs, b.2.isLambda = true) E := by
  induction bs with
  | nil => exact .pure (by simp)
  | cons b bs ih =>
    refine .andThen (reports_recursiveBinding b) fun _ hb => .andThen ih fun _ hbs => ?_
    exact .pure (List.forall_mem_cons.2 ⟨hb, hbs⟩)

mutual

/-- An expression with a type is accepted, and an unbound name is reported at an occurrence that the
scope does not know. -/
theorem reports_typeOf (Γ : Scope) (d : Nat) (e : Expr) :
    Reports (typeOf Γ d e) (Accepted Γ e) (UnboundAt Γ e) := by
  rw [typeOf.eq_def]
  refine .after_note ?_
  cases e with
  | missing => exact .fault fun x h => by cases h
  | number | boolean | string =>
    refine .pure ⟨covered_leaf rfl rfl fun t ht => ?_, rfl⟩
    cases ht
  | quoted mark v span =>
    dsimp only
    cases hv : v.typeOf true with
    | ok t =>
      refine .pure ⟨covered_leaf rfl rfl fun t ht => ?_, rfl⟩
      cases ht
    | error f =>
      obtain rfl := Value.eq_missingValue_of_typeOf hv
      exact .fault fun x h => by cases h
  | primitive token =>
    have hleaf : Covered Γ (primitive token) := covered_leaf rfl rfl fun t ht => by cases ht
    dsimp only
    cases Primitive.signature? token.text with
    | some signature => exact .mono .numbered (fun _ => ⟨hleaf, rfl⟩) fun _ ht => ht
    | none => exact .fault fun x h => by cases h
  | var token =>
    intro σ
    simp only [Check.lookup]
    cases hlookup : Γ.lookup token.text with
    | some t =>
      refine ⟨fun _ _ => ⟨covered_leaf rfl rfl fun t ht => ?_, rfl⟩, fun x span he => by simp at he⟩
      cases ht
      simp [hlookup]
    | none =>
      -- The only place that reports an unbound name: the occurrence is this one.
      refine ⟨fun a ha => by simp at ha, fun x span he => ?_⟩
      rw [run_fault, Except.error.injEq, TypeError.mk.injEq, TypeFault.unbound.injEq] at he
      exact ⟨token, ⟨.var, hlookup⟩, he.1, he.2⟩
  | cond span test consequent alternative =>
    have hpart : ∀ c ∈ [test, consequent, alternative], ∀ t, UnboundAt Γ c t →
        UnboundAt Γ (cond span test consequent alternative) t :=
      fun c hc t ht => ⟨.cond hc ht.occurs, ht.unbound⟩
    refine .andThen ((reports_typeOf Γ _ test).mono id (hpart _ (by simp))) fun _ htest => ?_
    refine .andThen .require fun _ _ => ?_
    refine .andThen ((reports_typeOf Γ _ consequent).mono id (hpart _ (by simp)))
      fun _ hconsequent => ?_
    refine .andThen ((reports_typeOf Γ _ alternative).mono id (hpart _ (by simp)))
      fun _ halternative => ?_
    exact .andThen .require fun _ _ => .pure ⟨covered_cond htest hconsequent halternative, rfl⟩
  | lambda span params result body =>
    refine .andThen ((reports_typeOfBody _ _ _ body).mono id ?_) fun _ hbody => ?_
    · rintro t ⟨c, hc, ht⟩
      exact unboundAt_lambda hc ht
    · exact .andThen .require fun _ _ => .pure ⟨covered_lambda hbody, rfl⟩
  | app span operator operands =>
    have hpart : ∀ c ∈ operator :: operands, ∀ t, UnboundAt Γ c t →
        UnboundAt Γ (app span operator operands) t :=
      fun c hc t ht => ⟨.app hc ht.occurs, ht.unbound⟩
    refine .andThen ((reports_typeOf Γ _ operator).mono id (hpart _ List.mem_cons_self))
      fun t hoperator => ?_
    cases t with
    | absent | base | var | pair => exact .fault fun x h => by cases h
    | proc params result =>
      dsimp only
      split
      · rename_i hlen
        refine .andThen .numbered fun fresh _ => ?_
        -- There are as many parameters as operands, so that no operand is passed over.
        have hlen' : (Ty.bindAll fresh params).length = operands.length := by
          rw [Ty.bindAll_eq_map, List.length_map, hlen]
        refine .andThen ((reports_matchOperands Γ _ [] _ operands hlen').mono id ?_) fun _ h => ?_
        · rintro t ⟨c, hc, ht⟩
          exact hpart c (List.mem_cons_of_mem _ hc) t ht
        · exact .pure ⟨covered_app hoperator h, rfl⟩
      · exact .fault fun x h => by cases h
  | letin span bindings body =>
    refine .bind (names_of_typeOfBindings Γ _ bindings)
      ((reports_typeOfBindings Γ _ bindings).mono id ?_) fun βs hβs hvalues => ?_
    · rintro t ⟨b, hb, ht⟩
      exact ⟨.letValue hb ht.occurs, ht.unbound⟩
    · refine (reports_typeOfBody _ _ _ body).mono
        (fun hbody => ⟨covered_letin hβs hvalues hbody, rfl⟩) ?_
      rintro t ⟨c, hc, ht⟩
      obtain ⟨hx, hnone⟩ := ht.outside hβs
      exact ⟨.letBody hc ht.occurs hx, hnone⟩
  | letrec span bindings body =>
    refine .bind (names_of_recursiveBindings bindings) (reports_recursiveBindings bindings)
      fun βs hβs hlambda => ?_
    refine .andThen ((reports_checkProcedures _ _ bindings hlambda).mono id ?_) fun _ hvalues => ?_
    · rintro t ⟨b, hb, ht⟩
      obtain ⟨hx, hnone⟩ := ht.outside hβs
      exact ⟨.letrecValue hb ht.occurs hx, hnone⟩
    · refine (reports_typeOfBody _ _ _ body).mono
        (fun hbody => ⟨covered_letrec hβs hlambda hvalues hbody, rfl⟩) ?_
      rintro t ⟨c, hc, ht⟩
      obtain ⟨hx, hnone⟩ := ht.outside hβs
      exact ⟨.letrecBody hc ht.occurs hx, hnone⟩
  | define span decl value => exact .fault fun x h => by cases h
  | program forms =>
    exact .andThen (reports_typeOfForms Γ _ forms) fun _ hforms => .pure ⟨hforms, rfl⟩

/-- The check of a body accepts all its forms, or reports a name that is unknown in one of them. -/
theorem reports_typeOfBody (Γ : Scope) (d : Nat) (owner : Expr) (es : List Expr) :
    Reports (typeOfBody Γ d owner es) (BodyAccepted Γ es) fun t => ∃ e ∈ es, UnboundAt Γ e t := by
  match es with
  | [] => exact .fault fun x h => by cases h
  | [e] =>
    refine (reports_typeOf Γ d e).mono (fun he => ⟨by simp, ?_⟩)
      fun t ht => ⟨e, List.mem_cons_self, ht⟩
    exact List.forall_mem_singleton.2 he
  | e :: f :: es =>
    refine .andThen ((reports_typeOf Γ d e).mono id fun t ht => ⟨e, List.mem_cons_self, ht⟩)
      fun _ he => ?_
    refine (reports_typeOfBody Γ d owner (f :: es)).mono (fun hes => ⟨by simp, ?_⟩) ?_
    · exact List.forall_mem_cons.2 ⟨he, hes.accepted⟩
    · rintro t ⟨c, hc, ht⟩
      exact ⟨c, List.mem_cons_of_mem e hc, ht⟩

/-- The check of operands accepts all of them, or reports a name that is unknown in one of them. -/
theorem reports_matchOperands (Γ : Scope) (d : Nat) (s : Substitution) (params : List Ty)
    (es : List Expr) (hlen : params.length = es.length) :
    Reports (matchOperands Γ d s params es) (∀ e ∈ es, Accepted Γ e)
      fun t => ∃ e ∈ es, UnboundAt Γ e t := by
  match params, es with
  | [], [] => exact .pure (by simp)
  | [], _ :: _ => simp at hlen
  | _ :: _, [] => simp at hlen
  | p :: params, e :: es =>
    refine .andThen ((reports_typeOf Γ d e).mono id fun t ht => ⟨e, List.mem_cons_self, ht⟩)
      fun t he => ?_
    rcases s.unify p t with ⟨ok, s'⟩
    cases ok with
    | true =>
      refine (reports_matchOperands Γ d s' params es (by simpa using hlen)).mono
        (fun hes => List.forall_mem_cons.2 ⟨he, hes⟩) ?_
      rintro t ⟨c, hc, ht⟩
      exact ⟨c, List.mem_cons_of_mem e hc, ht⟩
    | false => exact .fault fun x h => by cases h

theorem reports_typeOfBindings (Γ : Scope) (d : Nat) (bs : List (Decl × Expr)) :
    Reports (typeOfBindings Γ d bs) (∀ b ∈ bs, Accepted Γ b.2)
      fun t => ∃ b ∈ bs, UnboundAt Γ b.2 t := by
  match bs with
  | [] => exact .pure (by simp)
  | (decl, value) :: rest =>
    refine .andThen ((reports_typeOf Γ d value).mono id
      fun t ht => ⟨(decl, value), List.mem_cons_self, ht⟩) fun _ hvalue => ?_
    refine .andThen .require fun _ _ => ?_
    refine .andThen ((reports_typeOfBindings Γ d rest).mono id ?_) fun _ hrest => ?_
    · rintro t ⟨b, hb, ht⟩
      exact ⟨b, List.mem_cons_of_mem _ hb, ht⟩
    · exact .pure (List.forall_mem_cons.2 ⟨hvalue, hrest⟩)

/-- The check of procedures covers all of them, or reports a name that is unknown in one of them. -/
theorem reports_checkProcedures (Γ : Scope) (d : Nat) (bs : List (Decl × Expr))
    (hbs : ∀ b ∈ bs, b.2.isLambda = true) :
    Reports (checkProcedures Γ d bs) (∀ b ∈ bs, Covered Γ b.2)
      fun t => ∃ b ∈ bs, UnboundAt Γ b.2 t := by
  match bs with
  | [] => exact .pure (by simp)
  | (decl, value) :: rest =>
    obtain ⟨hlambda, hbs⟩ := List.forall_mem_cons.1 hbs
    have ih := reports_checkProcedures Γ d rest hbs
    cases value with
    | lambda span params result body =>
      -- The procedure itself is not typed, but its body is, as if it were.
      refine .andThen ((reports_typeOfBody _ d _ body).mono id ?_) fun _ hbody => ?_
      · rintro t ⟨c, hc, ht⟩
        exact ⟨_, List.mem_cons_self, unboundAt_lambda hc ht⟩
      · refine .andThen .require fun _ _ => ih.mono
          (fun hrest => List.forall_mem_cons.2 ⟨covered_lambda hbody, hrest⟩) ?_
        rintro t ⟨b, hb, ht⟩
        exact ⟨b, List.mem_cons_of_mem _ hb, ht⟩
    | missing | number | boolean | string | quoted | primitive | var | cond | app | letin | letrec
    | define | program => cases hlambda

/-- The check of forms covers their program, or reports a name that is unknown in it. -/
theorem reports_typeOfForms (Γ : Scope) (d : Nat) (forms : List Expr) :
    Reports (typeOfForms Γ d forms) (Covered Γ (program forms)) (UnboundAt Γ (program forms)) := by
  match forms with
  | [] => exact .fault fun x h => by cases h
  | e :: rest =>
    have hform : Reports (typeOfForm Γ d e) (Covered Γ e) (UnboundAt Γ e) := by
      cases e with
      | define span decl value =>
        refine .after_note (.andThen ((reports_typeOf Γ _ value).mono id ?_) fun _ hvalue => ?_)
        · exact fun t ht => ⟨.define ht.occurs, ht.unbound⟩
        · exact .andThen .require fun _ _ => .pure (covered_define hvalue)
      | missing | number | boolean | string | quoted | primitive | var | cond | lambda | app
      | letin | letrec | program =>
        exact .andThen (reports_typeOf Γ d _) fun _ he => .pure he.toCovered
    have hhead : Reports (typeOfForm Γ d e) (Covered Γ e) (UnboundAt Γ (program (e :: rest))) :=
      hform.mono id fun t ht => ⟨occursFree_program_cons.2 (.inl ht.occurs), ht.unbound⟩
    match rest with
    | [] =>
      rw [typeOfForms_singleton]
      exact hhead.mono (fun he => covered_program_cons he covered_program_nil) fun _ ht => ht
    | f :: rest =>
      rw [typeOfForms_cons_cons]
      refine .bind (scope_of_typeOfForm e) hhead fun r hr he => ?_
      rw [hr]
      refine (reports_typeOfForms _ d (f :: rest)).mono (covered_program_cons he) fun t ht => ?_
      -- The name is unknown after the first form, so it is not the one that the form defines.
      obtain ⟨hx, hnone⟩ := Scope.lookup_scopeAfter_eq_none_iff.1 ht.unbound
      exact ⟨occursFree_program_cons.2 (.inr ⟨ht.occurs, hx⟩), hnone⟩

end

/-! ## Whole checks -/

/-- If an expression has a type, then the scope knows all its free variables, it is no definition and
holds definitions only as the forms of programs, no body in it is empty, and all that is bound
recursively in it are procedures. If it fails because a name is unbound, then the scope does not know the
name, and the error has the place of a free occurrence of it. -/
theorem covered_or_occursFree_of_typeOf (Γ : Scope) (d : Nat) (e : Expr) (last : Nat)
    (tracing : Bool) :
    let outcome := (typeOf Γ d e).runFrom last tracing
    (∀ τ, outcome.result = .ok τ →
      (∀ x ∈ e.freeVars, ∃ t, Γ.lookup x = some t) ∧
      (e.isDefine = false ∧ ∀ f, Inside f e → ∀ c ∈ f.children, c.isDefine = true →
        ∃ forms, f = program forms) ∧
      (∀ f, Inside f e → f.body? ≠ some []) ∧
      ∀ span bindings body, Inside (letrec span bindings body) e →
        ∀ b ∈ bindings, b.2.isLambda = true) ∧
    ∀ x span, outcome.result = .error ⟨.unbound x, span⟩ →
      Γ.lookup x = none ∧ ∃ t, OccursFree t e ∧ t.text = x ∧ t.span = span := by
  intro outcome
  obtain ⟨hok, herror⟩ := reports_typeOf Γ d e ⟨last, tracing, []⟩
  constructor
  · intro τ h
    have haccepted := hok τ h
    refine ⟨fun x hx => ?_, ⟨haccepted.not_define, ?_⟩, ?_, ?_⟩
    · -- A free variable is the name of an occurrence, and those are known.
      obtain ⟨t, ht, rfl⟩ := (mem_freeVars_iff e).1 hx
      exact Option.ne_none_iff_exists'.1 (haccepted.bound t ht)
    · exact fun f hf => (haccepted.orderly f hf).defines
    · exact fun f hf => (haccepted.orderly f hf).body
    · exact fun span bindings body hf => (haccepted.orderly _ hf).recursive span bindings body rfl
  · intro x span h
    obtain ⟨t, ht, rfl, hspan⟩ := herror x span h
    exact ⟨ht.unbound, t, ht.occurs, rfl, hspan⟩

/-- A recursive procedure whose parameter has the name of a variable that the form takes from outside:
with that variable the form has a type, and without it the error is at the second occurrence. -/
theorem covered_or_occursFree_of_typeOf_sameName :
    let name (text : String) (column : Int) : Token :=
      ⟨.symbol, ⟨⟨column - 1, 1, column⟩, ⟨column - 1, 1, column⟩⟩, text⟩
    let number := Ty.base .number
    let loop := lambda .absent [⟨name "k" 22, number, .absent⟩] number
      [app .absent (var (name "f" 45)) [var (name "k" 47)]]
    let e := letrec .absent [(⟨name "f" 11, none, .absent⟩, loop)]
      [app .absent (var (name "f" 53)) [var (name "k" 55)]]
    let outcome (Γ : Scope) := (typeOf Γ 0 e).runFrom 0 false
    (outcome [[("k", number)]]).result = .ok number ∧ e.freeVars = ["k"] ∧
      (∀ x ∈ e.freeVars, ∃ t, Scope.lookup [[("k", number)]] x = some t) ∧
      (∀ f, Inside f e → f.body? ≠ some []) ∧
      (outcome .empty).result = .error ⟨.unbound "k", (name "k" 55).span⟩ ∧
      ∃ t, OccursFree t e ∧ t.text = "k" ∧ t.span = (name "k" 55).span := by
  intro name number loop e outcome
  have hok : (outcome [[("k", number)]]).result = .ok number := rfl
  have herror : (outcome .empty).result = .error ⟨.unbound "k", (name "k" 55).span⟩ := rfl
  obtain ⟨hbound, -, hbody, -⟩ :=
    (covered_or_occursFree_of_typeOf [[("k", number)]] 0 e 0 false).1 number hok
  obtain ⟨-, hoccurs⟩ := (covered_or_occursFree_of_typeOf .empty 0 e 0 false).2 _ _ herror
  exact ⟨hok, rfl, hbound, hbody, herror, hoccurs⟩

end Expr

end TypedScheme
