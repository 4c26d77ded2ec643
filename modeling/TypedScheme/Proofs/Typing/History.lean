import TypedScheme.Proofs.Expr.Numbering
import TypedScheme.Proofs.Typing.Forms
import TypedScheme.Proofs.Typing.Renaming
import TypedScheme.Typing.Session

/-!
# Sessions and their history

A session answers a submission as if all accepted submissions and the new one were a single program.
Rejected submissions leave no trace but the numbers that they used up, and these do not matter.

## What this module delivers

- `Expr.parallel_typeOfForms`: the same forms in the same scope after different numbers have the same
  types up to the names of variables, or the same fault.
- `Session.Reached accepted s`: the sessions that sequences of submissions lead to, with the forms of
  the accepted ones.
- `Session.Reached.replays`: checking the accepted forms before others comes to checking the others in
  the scope of the session.
- `Session.check_eq_history`: the answer to a submission is that of a single program, and the scope
  has one frame for every accepted definition.
-/

set_option autoImplicit false

namespace TypedScheme

open Check

/-- Two types are equal up to the names of their variables. -/
def Ty.Variant (t₁ t₂ : Ty) : Prop :=
  ∃ ρ : Nat → Nat, Set.InjOn ρ {x | x ∈ t₁.vars} ∧ t₂ = t₁.rename ρ

namespace Expr

/-! ## The numbers given out before do not matter -/

theorem types_scopeAfter {Q : Ty → Prop} {Γ : Scope} {e : Expr} (hΓ : ∀ t ∈ Γ.types, Q t)
    (he : e.Carries Q) (habsent : Q .absent) : ∀ t ∈ (scopeAfter Γ e).types, Q t := by
  cases e with
  | define span decl value =>
    have hbound : Q decl.boundType := boundType_of_forall (carries_define.1 he).1 habsent
    intro t ht
    rcases Scope.mem_types_extend.1 ht with ⟨p, hp, rfl⟩ | ht
    · obtain rfl := List.mem_singleton.1 hp
      exact hbound
    · exact hΓ t ht
  | missing | number | boolean | string | quoted | primitive | var | cond | lambda | app | letin
  | letrec | program => exact hΓ

/-- The types in the scope after forms are those before and those that the forms carry. -/
theorem types_foldl_scopeAfter {Q : Ty → Prop} {Γ : Scope} {forms : List Expr}
    (hΓ : ∀ t ∈ Γ.types, Q t) (hforms : CarriesAll Q forms) (habsent : Q .absent) :
    ∀ t ∈ (forms.foldl scopeAfter Γ).types, Q t := by
  induction forms generalizing Γ with
  | nil => exact hΓ
  | cons e forms ih =>
    obtain ⟨he, hforms⟩ := carriesAll_cons.1 hforms
    exact ih (types_scopeAfter hΓ he habsent) hforms

/-- Forms whose variables were numbered before two checks have types in both that are equal up to the
names of variables, or the same fault in both. -/
theorem parallel_typeOfForms {before forms : List Expr} {k₁ k₂ : Nat} (d₁ d₂ : Nat)
    (hbefore₁ : NumberedAll k₁ before) (hbefore₂ : NumberedAll k₂ before)
    (hforms₁ : NumberedAll k₁ forms) (hforms₂ : NumberedAll k₂ forms) :
    let Γ := before.foldl scopeAfter .empty
    Parallel k₁ k₂ (fun r₁ r₂ => r₁.1.Variant r₂.1) (typeOfForms Γ d₁ forms)
      (typeOfForms Γ d₂ forms) := by
  intro Γ
  have hΓ : ∀ t ∈ Γ.types, ∀ x ∈ t.vars, x ≤ k₁ ∧ x ≤ k₂ :=
    types_foldl_scopeAfter (by simp [Scope.empty, Scope.types])
      (fun t ht x hx => ⟨hbefore₁ t ht x hx, hbefore₂ t ht x hx⟩) (by simp [Ty.vars])
  have hforms : ∀ t ∈ annotationsAll forms, ∀ x ∈ t.vars, x ≤ k₁ ∧ x ≤ k₂ :=
    fun t ht x hx => ⟨hforms₁ t ht x hx, hforms₂ t ht x hx⟩
  -- The renaming leaves what was numbered before as it is and aligns the numbers that follow.
  let ρ := renameAfter id k₁ k₂
  have hself : ∀ x, x ≤ k₁ ∧ x ≤ k₂ → ρ x = x := fun x hx => if_pos hx.1
  have hcoupled : Coupled ρ {x | x ∈ {x | x ≤ k₁ ∧ x ≤ k₂} ∨ k₁ < x} k₁ k₂ :=
    coupled_renameAfter (Set.injOn_id _) (fun _ hx => hx.1) fun _ hx => hx.2
  have hscope : Γ.rename ρ = Γ :=
    Scope.rename_eq_self fun t ht x hx => hself x (hΓ t ht x hx)
  have hsame : renameAll ρ forms = forms :=
    renameAll_eq_self fun t ht x hx => hself x (hforms t ht x hx)
  have hparallel := renamed_typeOfForms hcoupled
    ⟨Scope.shows_of_forall_mem_types fun t ht x hx => .inl (hΓ t ht x hx), hscope.symm⟩ d₁ d₂ forms
    fun t ht x hx => .inl (hforms t ht x hx)
  rw [hsame] at hparallel
  exact hparallel.mono fun r₁ r₂ hr => ⟨ρ, hcoupled.injOn.mono hr.1.1, hr.1.2⟩

end Expr

namespace Session

open TypedScheme.Expr

/-! ## Submissions -/

/-- What the check of a submission does to a session. -/
theorem check_cases (s : Session) (p : Program) :
    let o := (p.check s.scope).runFrom s.last s.tracing
    (∃ t Γ, o.result = .ok (t, Γ) ∧ (s.check p).1.result = .ok t ∧
      (s.check p).2 = { s with scope := Γ, last := o.last }) ∨
    ∃ e, o.result = .error e ∧ (s.check p).1.result = .error (.illTyped e) ∧
      (s.check p).2 = s.after o.last := by
  unfold check
  generalize (p.check s.scope).runFrom s.last s.tracing = o
  obtain ⟨r, last, notes⟩ := o
  rcases r with e | ⟨t, Γ⟩
  · exact .inr ⟨e, rfl, rfl, rfl⟩
  · exact .inl ⟨t, Γ, rfl, rfl, rfl⟩

/-- A program can be submitted: it has a form, and its type variables have been numbered. -/
structure Admits (s : Session) (p : Program) : Prop where
  nonempty : p.forms ≠ []
  numbered : NumberedAll s.last p.forms

/-- The sessions that sequences of submissions lead to, with the forms of the accepted submissions in
order. Numbers may be given out between submissions, as reading a program does. -/
inductive Reached : List Expr → Session → Prop
  | start (last : Nat) (tracing : Bool) : Reached [] (startFrom last tracing)
  | number {accepted : List Expr} {s : Session} {n : Nat} :
      Reached accepted s → s.last ≤ n → Reached accepted (s.after n)
  | accept {accepted : List Expr} {s : Session} {p : Program} {t : Ty} :
      Reached accepted s → s.Admits p → (s.check p).1.result = .ok t →
      Reached (accepted ++ p.forms) (s.check p).2
  | reject {accepted : List Expr} {s : Session} {p : Program} {e : SourceError} :
      Reached accepted s → s.Admits p → (s.check p).1.result = .error e →
      Reached accepted (s.check p).2

/-- What the history of a session says about it: its scope is that of the accepted definitions, and to
check the accepted forms before others comes to checking the others in its scope, after some numbers. -/
structure Replays (accepted : List Expr) (s : Session) : Prop where
  scope_eq : s.scope = accepted.foldl scopeAfter .empty
  numbered : NumberedAll s.last accepted
  run_append : ∀ {rest : List Expr}, rest ≠ [] → ∀ {σ : CheckState}, NumberedAll σ.last accepted →
    ∃ σ' : CheckState, σ.last ≤ σ'.last ∧
      (typeOfForms .empty 0 (accepted ++ rest)).run σ = (typeOfForms s.scope 0 rest).run σ'

namespace Replays

variable {accepted : List Expr} {s : Session} {p : Program}

/-- A submission is answered in the same way after other numbers. -/
theorem parallel (h : Replays accepted s) (hp : s.Admits p) {k : Nat}
    (haccepted : NumberedAll k accepted) (hforms : NumberedAll k p.forms) :
    Parallel s.last k (fun r₁ r₂ => r₁.1.Variant r₂.1) (typeOfForms s.scope 0 p.forms)
      (typeOfForms s.scope 0 p.forms) := by
  rw [h.scope_eq]
  exact parallel_typeOfForms 0 0 h.numbered haccepted hp.numbered hforms

theorem last_le_check (h : Replays accepted s) (hp : s.Admits p) :
    s.last ≤ (s.check p).2.last := by
  obtain ⟨m, hm, -⟩ := (h.parallel hp h.numbered hp.numbered).runFrom s.tracing s.tracing
  have hlast : (s.check p).2.last = s.last + m := by
    rcases s.check_cases p with ⟨t, Γ, -, -, heq⟩ | ⟨e, -, -, heq⟩
    · rw [heq]
      exact hm
    · rw [heq]
      exact hm
  omega

/-- After an accepted submission its forms belong to the history: checked anew from any later state
they are accepted again, and the check goes on in the new scope. -/
theorem accept (h : Replays accepted s) (hp : s.Admits p) {t : Ty}
    (hok : (s.check p).1.result = .ok t) : Replays (accepted ++ p.forms) (s.check p).2 := by
  have hle := h.last_le_check hp
  rcases s.check_cases p with ⟨t', Γ, ho, -, heq⟩ | ⟨e, -, herror, -⟩
  · have hΓ : Γ = p.forms.foldl scopeAfter s.scope := scope_of_typeOfForms p.forms _ _ ho
    have hscope : (s.check p).2.scope = Γ := by rw [heq]
    refine ⟨?_, numberedAll_append.2 ⟨h.numbered.mono hle, hp.numbered.mono hle⟩, ?_⟩
    · rw [hscope, hΓ, List.foldl_append, ← h.scope_eq]
    · intro rest hrest σ hσ
      obtain ⟨hσ₁, hσ₂⟩ := numberedAll_append.1 hσ
      obtain ⟨σ', hσσ', hrun⟩ := h.run_append (List.append_ne_nil_of_left_ne_nil hp.nonempty rest) hσ₁
      -- The forms were accepted after other numbers, so they are accepted after these.
      have hparallel := h.parallel hp (hσ₁.mono hσσ') (hσ₂.mono hσσ')
      obtain ⟨⟨m, -, hm⟩, halike⟩ := hparallel ⟨s.last, s.tracing, []⟩ σ' ⟨0, rfl, rfl⟩
      obtain ⟨r, hr, -⟩ := halike.exists_of_ok ho
      have hr₂ : r.2 = Γ := (scope_of_typeOfForms p.forms σ' r hr).trans hΓ.symm
      refine ⟨((typeOfForms s.scope 0 p.forms).run σ').2, by omega, ?_⟩
      rw [List.append_assoc, hrun, typeOfForms_append hp.nonempty hrest,
        run_bind_ok (Prod.ext hr rfl), hr₂, hscope]
  · rw [herror] at hok
    cases hok

/-- A rejected submission leaves the scope as it is. -/
theorem scope_check_of_error {e : SourceError} (herror : (s.check p).1.result = .error e) :
    (s.check p).2.scope = s.scope := by
  rcases s.check_cases p with ⟨t, Γ, -, hok, -⟩ | ⟨e, -, -, heq⟩
  · rw [hok] at herror
    cases herror
  · rw [heq]
    rfl

theorem reject (h : Replays accepted s) (hp : s.Admits p) {e : SourceError}
    (herror : (s.check p).1.result = .error e) : Replays accepted (s.check p).2 := by
  have hscope := scope_check_of_error herror
  refine ⟨by rw [hscope, h.scope_eq], h.numbered.mono (h.last_le_check hp), ?_⟩
  rw [hscope]
  exact h.run_append

end Replays

theorem Reached.replays {accepted : List Expr} {s : Session} (h : Reached accepted s) :
    Replays accepted s := by
  induction h with
  | start last tracing =>
    refine ⟨rfl, fun t ht => absurd ht List.not_mem_nil, ?_⟩
    intro rest _ σ _
    exact ⟨σ, Nat.le_refl _, rfl⟩
  | number _ hn ih => exact ⟨ih.scope_eq, ih.numbered.mono hn, ih.run_append⟩
  | accept _ hp hok ih => exact ih.accept hp hok
  | reject _ hp herror ih => exact ih.reject hp herror

/-- A session answers a submission as if the accepted submissions and the new one were a single
program, checked after any numbers that cover its type variables: both are accepted, with types that
are equal up to the names of variables and with the same scope, or both have an error of the same kind
at the same place, and then the scope of the session stays as it was. The scope of a session is the
empty one with a frame for every definition among the accepted submissions, in order. -/
theorem check_eq_history {accepted : List Expr} {s : Session} (hs : Reached accepted s) {p : Program}
    (hp : s.Admits p) {k : Nat} (hk : NumberedAll k (accepted ++ p.forms)) (tracing : Bool) :
    let o := (Program.check .empty ⟨accepted ++ p.forms⟩).runFrom k tracing
    ((∃ t₁ t₂, (s.check p).1.result = .ok t₁ ∧ o.result = .ok (t₂, (s.check p).2.scope) ∧
        t₁.Variant t₂) ∨
      ∃ e₁ e₂, (s.check p).1.result = .error (.illTyped e₁) ∧ o.result = .error e₂ ∧
        SameFault e₁ e₂ ∧ (s.check p).2.scope = s.scope) ∧
    s.scope = accepted.foldl scopeAfter .empty := by
  intro o
  have h := hs.replays
  obtain ⟨hk₁, hk₂⟩ := numberedAll_append.1 hk
  obtain ⟨σ, hσ, hrun⟩ := h.run_append hp.nonempty (σ := ⟨k, tracing, []⟩) hk₁
  -- The single program gets to the new forms in the scope of the session, in some state `σ`.
  have ho : o.result = ((typeOfForms s.scope 0 p.forms).run σ).1 := congrArg Prod.fst hrun
  have hparallel := h.parallel hp (hk₁.mono hσ) (hk₂.mono hσ)
  obtain ⟨-, halike⟩ := hparallel ⟨s.last, s.tracing, []⟩ σ ⟨0, rfl, rfl⟩
  refine ⟨?_, h.scope_eq⟩
  rcases s.check_cases p with ⟨t, Γ, hcheck, hreply, hstate⟩ | ⟨e, hcheck, hreply, hstate⟩
  · obtain ⟨⟨t', Γ'⟩, hr, hvariant⟩ := halike.exists_of_ok hcheck
    -- Both scopes are that of the session with the definitions of the submission.
    have hΓ : Γ' = Γ := (scope_of_typeOfForms p.forms _ _ hr).trans
      (scope_of_typeOfForms p.forms _ _ hcheck).symm
    refine .inl ⟨t, t', hreply, ?_, hvariant⟩
    rw [ho, hr, hΓ, hstate]
  · obtain ⟨e', hr, hsame⟩ := halike.exists_of_error hcheck
    exact .inr ⟨e, e', hreply, ho.trans hr, hsame, Replays.scope_check_of_error hreply⟩

/-- A definition is accepted, a program whose first form defines another name is rejected, and the third
submission applies the one procedure that is known to an operator with variables of its own. -/
theorem check_eq_history_afterRejection :
    let name (text : String) : Token := ⟨.symbol, .absent, text⟩
    let definition := define .absent ⟨name "same", some (.proc [.var 1] (.var 1)), .absent⟩
      (lambda .absent [⟨name "x", .var 1, .absent⟩] (.var 1) [var (name "x")])
    let rejected : Program := ⟨[define .absent ⟨name "y", some (.base .boolean), .absent⟩
      (boolean (name "#t") true), var (name "z")]⟩
    let next : Program := ⟨[app .absent (var (name "same")) [primitive (name "cons")]]⟩
    let s := ((((startFrom 1 false).check ⟨[definition]⟩).2).check rejected).2
    Reached [definition] s ∧ s.Admits next ∧ NumberedAll 7 ([definition] ++ next.forms) ∧
      ∃ t, ((Program.check .empty ⟨[definition] ++ next.forms⟩).runFrom 7 false).result =
          .ok (t, (s.check next).2.scope) ∧
        (Ty.proc [.var 3, .var 4] (.pair (.var 3) (.var 4))).Variant t := by
  intro name definition rejected next s
  have hs : Reached [definition] s := by
    refine .reject (e := .illTyped ⟨.unbound "z", .absent⟩)
      (.accept (p := ⟨[definition]⟩) (t := .base .void) (.start 1 false) ⟨?_, ?_⟩ ?_) ⟨?_, ?_⟩ ?_
    · exact List.cons_ne_nil _ _
    · decide
    · rfl
    · exact List.cons_ne_nil _ _
    · decide
    · rfl
  have hp : s.Admits next := ⟨List.cons_ne_nil _ _, by decide⟩
  have hk : NumberedAll 7 ([definition] ++ next.forms) := by decide
  have hok : (s.check next).1.result =
      .ok (.proc [.var 3, .var 4] (.pair (.var 3) (.var 4))) :=
    toOption_eq_some_iff.1 (by decide +kernel)
  rcases (check_eq_history hs hp hk false).1 with ⟨t₁, t₂, h₁, h₂, hvariant⟩ | ⟨e₁, e₂, h₁, -⟩
  · rw [hok] at h₁
    cases h₁
    exact ⟨hs, hp, hk, t₂, h₂, hvariant⟩
  · rw [hok] at h₁
    cases h₁

end Session

end TypedScheme
