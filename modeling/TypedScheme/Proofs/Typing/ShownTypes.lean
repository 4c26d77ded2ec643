import TypedScheme.Proofs.Ty.Rendering
import TypedScheme.Proofs.Typing.Faults
import TypedScheme.Proofs.Typing.History

/-!
# The types that a check shows

A check that is made of a text shows types in its answers: the type of an expression or of a program,
and the two types of a mismatch. All of them are whole, so each can be read back from what is shown, as
far as its concrete form tells, and the two types of a mismatch are never the same.

## What this module delivers

- `Answered r`: the outcome `r` is what the check of some text ends in.
- `Ty.IsSpellable`, the types that can be written as annotations.
- `Answered.isWhole` and `Answered.ne_of_mismatch?`: what an answer shows.
- `Answered.render_faithful`: what the concrete forms in the answers stand for, and
  `Answered.render_not_injective`: two types that are shown alike.
-/

set_option autoImplicit false

namespace TypedScheme

/-- The outcomes of checking a text in a scope of whole types: an expression, or a program, whose type
is that of its last form. -/
inductive Answered : Except TypeError Ty → Prop
  | expr {source : String} {k k' : Nat} {e : Expr} {Γ : Scope} (depth : Nat) (σ : CheckState) :
      (Expr.parse source).runFrom k = (.ok e, k') → Γ.IsWhole →
      Answered ((Expr.typeOf Γ depth e).run σ).1
  | program {source : String} {k k' : Nat} {p : Program} {Γ : Scope} (σ : CheckState) :
      (Program.parse source).runFrom k = (.ok p, k') → Γ.IsWhole →
      Answered (((p.check Γ).run σ).1.map Prod.fst)

/-- Some text spells the type, up to the names of its variables. -/
def Ty.IsSpellable (t : Ty) : Prop :=
  ∃ source k t' k', (parse source).runFrom k = (.ok t', k') ∧ t.Variant t'

/-- The two types that an outcome shows if it is a mismatch: the expected one and the one found. -/
def mismatch? : Except TypeError Ty → Option (Ty × Ty)
  | .error ⟨.mismatch expected found _, _⟩ => some (expected, found)
  | _ => none

namespace Answered

/-- What an answer is: a whole type, or an error that is located in the text. -/
theorem cases_outcome {r : Except TypeError Ty} (h : Answered r) :
    (∃ t, r = .ok t ∧ t.isWhole = true) ∨
      ∃ e, r = .error e ∧ (e.fault = .emptyProgram ∨ ∃ root, e.LocatedIn root) := by
  cases h with
  | @expr source k k' e Γ depth σ hparse hΓ =>
    obtain ⟨d, -, hreads⟩ := Expr.parse_eq_ok_iff.1 hparse
    obtain ⟨hok, herror⟩ := Expr.ends_typeOf hreads.wellFormed hΓ depth e .refl σ
    cases hresult : ((Expr.typeOf Γ depth e).run σ).1 with
    | ok t => exact .inl ⟨t, rfl, hok t hresult⟩
    | error err => exact .inr ⟨err, rfl, .inr ⟨e, herror err hresult⟩⟩
  | @program source k k' p Γ σ hparse hΓ =>
    obtain ⟨ds, -, hreads⟩ := Program.parse_eq_ok_iff.1 hparse
    obtain ⟨hok, herror⟩ := Expr.ends_typeOfForms hreads.wellFormed hΓ 0 σ
    cases hresult : ((p.check Γ).run σ).1 with
    | ok r => exact .inl ⟨r.1, rfl, (hok r hresult).1⟩
    | error err =>
      refine .inr ⟨err, rfl, ?_⟩
      -- Without forms the program has no type, and else the error is in one of the forms.
      rcases herror err hresult with ⟨-, rfl⟩ | ⟨form, -, hlocated⟩
      · exact .inl rfl
      · exact .inr ⟨form.subject, hlocated⟩

theorem isWhole {t : Ty} (h : Answered (.ok t)) : t.isWhole = true := by
  rcases h.cases_outcome with ⟨_, hok, ht⟩ | ⟨_, herror, -⟩
  · cases hok
    exact ht
  · cases herror

/-- The two types of a mismatch that is shown are whole, and different. -/
theorem ne_of_mismatch? {r : Except TypeError Ty} (h : Answered r) {a b : Ty}
    (hab : mismatch? r = some (a, b)) : a.isWhole = true ∧ b.isWhole = true ∧ a ≠ b := by
  rcases h.cases_outcome with ⟨t, rfl, -⟩ | ⟨⟨fault, span⟩, rfl, hfault⟩
  · cases hab
  · rcases hfault with rfl | ⟨root, hlocated⟩
    · cases hab
    · cases hlocated with
      | mismatch hin ha hb hne =>
        cases hab
        exact ⟨ha, hb, hne⟩
      | unbound | notProcedure | arity | nestedDefine | letrecValue | emptyBody => cases hab

/-- The concrete form of every type that a check finds is read as that type, up to the names of its
variables and up to the parameter of a procedure that has one parameter of the type `Empty`. Types with
the same concrete form differ in such parameters only, a type can be written as an annotation exactly
if it has none of them, and a mismatch is between two types that differ. -/
theorem render_faithful :
    (∀ t, Answered (.ok t) →
      (∀ k, ∃ t' k', (Ty.parse t.render).runFrom k = (.ok t', k') ∧ t.asRead.Variant t') ∧
      (∀ u, Answered (.ok u) → (t.render = u.render ↔ t.asRead = u.asRead)) ∧
      (t.IsSpellable ↔ t.asRead = t)) ∧
    ∀ r, Answered r → ∀ a b, mismatch? r = some (a, b) →
      a ≠ b ∧ (a.render = b.render ↔ a.asRead = b.asRead) := by
  refine ⟨fun t ht => ⟨?_, ?_, ?_⟩, ?_⟩
  · exact Ty.exists_parse_render ht.isWhole
  · intro u hu
    exact Ty.render_eq_render_iff ht.isWhole hu.isWhole
  · exact Ty.exists_parse_iff ht.isWhole
  · intro r hr a b hab
    obtain ⟨ha, hb, hne⟩ := hr.ne_of_mismatch? hab
    exact ⟨hne, Ty.render_eq_render_iff ha hb⟩

/-! ## Answers about given texts -/

theorem isWhole_empty : Scope.empty.IsWhole := by
  intro name t ht
  cases ht

theorem of_expr (source : String) {t : Ty}
    (h : ((Expr.parse source).runFrom 0).1.toOption.bind (fun e =>
      ((Expr.typeOf .empty 0 e).run ⟨9, false, []⟩).1.toOption) = some t) : Answered (.ok t) := by
  obtain ⟨e, k', hparse, ht⟩ := exists_of_toOption_bind h
  rw [← toOption_eq_some_iff.1 ht]
  exact expr 0 ⟨9, false, []⟩ hparse isWhole_empty

theorem exists_of_program (source : String) {a b : Ty}
    (h : ((Program.parse source).runFrom 0).1.toOption.bind (fun p =>
      mismatch? (((p.check .empty).run ⟨9, false, []⟩).1.map Prod.fst)) = some (a, b)) :
    ∃ r, Answered r ∧ mismatch? r = some (a, b) := by
  obtain ⟨p, k', hparse, hmismatch⟩ := exists_of_toOption_bind h
  exact ⟨_, program ⟨9, false, []⟩ hparse isWhole_empty, hmismatch⟩

/-- A type with two variables and a mismatch, neither with a parameter that is forgotten. -/
theorem render_faithful_paired :
    ∃ t r, Answered (.ok t) ∧
      t.render = "((T_2 * number -> T_1) * T_2 -> (Pair T_1 T_2))" ∧
      (∀ k, ∃ t' k', (Ty.parse t.render).runFrom k = (.ok t', k') ∧ t.asRead.Variant t') ∧
      t.IsSpellable ∧ Answered r ∧ mismatch? r = some (.base .boolean, .base .number) := by
  have ht := of_expr
    "(lambda ((f : (T * number -> U)) (x : T)) : (Pair U T) (cons (f x 5) x))"
    (t := .proc [.proc [.var 2, .base .number] (.var 1), .var 2] (.pair (.var 1) (.var 2)))
    (by decide +kernel)
  obtain ⟨r, hr, hmismatch⟩ := exists_of_program "(if 1 2 3)" (a := .base .boolean)
    (b := .base .number) (by decide +kernel)
  obtain ⟨hparse, -, hspellable⟩ := render_faithful.1 _ ht
  exact ⟨_, r, ht, by decide +kernel, hparse, hspellable.2 (by decide +kernel), hr, hmismatch⟩

/-- A procedure with one parameter of the type `Empty` and one without parameters have different types
with the same concrete form. So the first has a type that no annotation spells, and a check that expects
the one and finds the other shows the same form twice. -/
theorem render_not_injective :
    ∃ t u, Answered (.ok t) ∧ Answered (.ok u) ∧ t ≠ u ∧ t.render = u.render ∧ ¬t.IsSpellable ∧
      ∃ r, Answered r ∧ ∃ a b, mismatch? r = some (a, b) ∧ a.render = b.render := by
  have ht := of_expr "(lambda ((x : Empty)) : number 5)"
    (t := .proc [.base .empty] (.base .number)) (by decide +kernel)
  have hu := of_expr "(lambda () : number 5)" (t := .proc [] (.base .number)) (by decide +kernel)
  obtain ⟨r, hr, hmismatch⟩ := exists_of_program
    "(define (f : (Empty -> number)) (lambda ((x : Empty)) : number 5))"
    (a := .proc [] (.base .number)) (b := .proc [.base .empty] (.base .number)) (by decide +kernel)
  have hspellable : ¬(Ty.proc [.base .empty] (.base .number)).IsSpellable := by
    intro h
    -- A type that can be written is the one that its own concrete form is read as.
    have hread := (Ty.exists_parse_iff ht.isWhole).1 h
    exact absurd hread (by decide +kernel)
  exact ⟨_, _, ht, hu, by decide +kernel, by decide +kernel, hspellable, r, hr, _, _, hmismatch,
    by decide +kernel⟩

end Answered

end TypedScheme
