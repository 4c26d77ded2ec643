import TypedScheme.Proofs.Expr.Layout
import TypedScheme.Proofs.Typing.Forms
import TypedScheme.Typing.Session

/-!
# Typing does not look at places

An expression and its outline have the same type, or errors of the same kind with the same message,
since the places and spellings of its parts are only ever put into errors. So a session answers two
texts alike whose tokens are the same but for layout and comments.

## What this module delivers

- `Expr.render_outline`: an expression is printed like its outline.
- `Check.Reported c₁ c₂`: two checks give out the same numbers, and have the same result or errors of
  the same kind with the same message.
- `Expr.reported_outline` and its companions, one rule of typing at a time.
- `Session.answer_ignores_layout`: the answers to two texts with the same tokens but for layout.
-/

set_option autoImplicit false

namespace TypedScheme

/-! ## Outlines are printed alike -/

/-- A declaration is written the same without its places. -/
theorem Decl.render_outline (d : Decl) : d.outline.render = d.render := rfl

theorem Param.renderAll_outline (params : List Param) :
    renderAll (params.map outline) = renderAll params := by
  rw [renderAll, renderAll, List.map_map]
  rfl

/-- The outline of parameters binds the same names to the same types. -/
theorem Param.bindings_outline (params : List Param) :
    bindings (params.map outline) = bindings params := by
  rw [bindings, bindings, List.map_map]
  rfl

namespace Expr

/-- The type of a procedure does not depend on places. -/
theorem procType_outline (params : List Param) (result : Ty) :
    procType (params.map Param.outline) result = procType params result := by
  rw [procType, procType, List.map_map]
  rfl

theorem length_outlineAll (es : List Expr) : (outlineAll es).length = es.length := by
  induction es with
  | nil => rfl
  | cons e es ih => rw [outlineAll, List.length_cons, List.length_cons, ih]

mutual

/-- An expression is written the same without its places. -/
theorem render_outline (e : Expr) : e.outline.render = e.render := by
  cases e with
  | missing | number | boolean | string | quoted | primitive | var => rfl
  | cond span test consequent alternative =>
    rw [outline, render, render, render_outline test, render_outline consequent,
      render_outline alternative]
  | lambda span params result body =>
    rw [outline, render, render, Param.renderAll_outline, renderRest_outlineAll body]
  | app span operator operands =>
    rw [outline, render, render, render_outline operator, renderRest_outlineAll operands]
  | letin span bindings body =>
    rw [outline, render, render, renderBindings_outlineBound bindings, renderRest_outlineAll body]
  | letrec span bindings body =>
    rw [outline, render, render, renderBindings_outlineBound bindings, renderRest_outlineAll body]
  | define span decl value =>
    rw [outline, render, render, Decl.render_outline, render_outline value]
  | program forms => rw [outline, render, render, renderLines_outlineAll forms]

theorem renderRest_outlineAll (es : List Expr) : renderRest (outlineAll es) = renderRest es := by
  match es with
  | [] => rfl
  | e :: es =>
    rw [outlineAll, renderRest, renderRest, render_outline e, renderRest_outlineAll es]

theorem renderLines_outlineAll (es : List Expr) : renderLines (outlineAll es) = renderLines es := by
  match es with
  | [] => rfl
  | [e] => exact render_outline e
  | e :: f :: es =>
    change e.outline.render ++ "\n" ++ renderLines (outlineAll (f :: es)) =
      e.render ++ "\n" ++ renderLines (f :: es)
    rw [render_outline e, renderLines_outlineAll (f :: es)]

theorem renderBindings_outlineBound (bs : List (Decl × Expr)) :
    renderBindings (outlineBound bs) = renderBindings bs := by
  match bs with
  | [] => rfl
  | [(decl, value)] =>
    rw [outlineBound, outlineBound, renderBindings, renderBindings, Decl.render_outline,
      render_outline value]
  | (decl, value) :: b :: bs =>
    change "(" ++ decl.render ++ " " ++ value.outline.render ++ ") " ++
      renderBindings (outlineBound (b :: bs)) =
        "(" ++ decl.render ++ " " ++ value.render ++ ") " ++ renderBindings (b :: bs)
    rw [render_outline value, renderBindings_outlineBound (b :: bs)]

end

end Expr

namespace TypeFault

/-- A fault by the outlines of the expressions that it shows. -/
def outline : TypeFault → TypeFault
  | unbound name => unbound name
  | mismatch expected found inside => mismatch expected found inside.outline
  | notProcedure operator found whole => notProcedure operator.outline found whole.outline
  | arity operator expected found whole => arity operator expected found whole.outline
  | unknownPrimitive name => unknownPrimitive name
  | missingValue => missingValue
  | missingForm => missingForm
  | nestedDefine form => nestedDefine form.outline
  | letrecValue value => letrecValue value.outline
  | emptyBody form => emptyBody form.outline
  | emptyProgram => emptyProgram

/-- A fault has the same kind without the places of the expressions in it. -/
theorem kind_outline (f : TypeFault) : f.outline.kind = f.kind := by
  cases f <;> rfl

/-- A fault has the same message without the places of the expressions in it. -/
theorem message_outline (f : TypeFault) : f.outline.message = f.message := by
  cases f with
  | unbound | unknownPrimitive | missingValue | missingForm | emptyProgram => rfl
  | mismatch | notProcedure | arity | nestedDefine | letrecValue | emptyBody =>
    unfold outline message
    simp only [Expr.render_outline]

end TypeFault

/-! ## Checks that report the same -/

namespace Check

/-- Two errors are of the same kind and have the same message. -/
def SameReport (e₁ e₂ : TypeError) : Prop := e₁.kind = e₂.kind ∧ e₁.message = e₂.message

/-- A fault reports the same as its outline, wherever the two are. -/
theorem sameReport_outline (f : TypeFault) (span₁ span₂ : Span) :
    SameReport ⟨f, span₁⟩ ⟨f.outline, span₂⟩ :=
  ⟨f.kind_outline.symm, f.message_outline.symm⟩

/-- After the same numbers, two checks give out the same numbers and have the same result, or errors
that report the same. -/
abbrev Reported {α : Type} (c₁ c₂ : Check α) : Prop :=
  Related (fun σ₁ σ₂ => σ₁.last = σ₂.last) SameReport Eq c₁ c₂

variable {α : Type}

theorem Reported.symm {c₁ c₂ : Check α} (h : Reported c₁ c₂) : Reported c₂ c₁ := by
  intro σ₁ σ₂ hσ
  obtain ⟨hlast, halike⟩ := h σ₂ σ₁ hσ.symm
  refine ⟨hlast.symm, ?_⟩
  generalize (c₁.run σ₂).1 = r₁, (c₂.run σ₁).1 = r₂ at halike
  cases halike with
  | ok hab => exact .ok hab.symm
  | error he => exact .error ⟨he.1.symm, he.2.symm⟩

/-- Reports that agree with the same agree with each other. -/
theorem Reported.trans {c₁ c₂ c₃ : Check α} (h : Reported c₁ c₂) (h' : Reported c₂ c₃) :
    Reported c₁ c₃ := by
  intro σ₁ σ₃ hσ
  obtain ⟨hlast, halike⟩ := h σ₁ σ₁ rfl
  obtain ⟨hlast', halike'⟩ := h' σ₁ σ₃ hσ
  refine ⟨hlast.trans hlast', ?_⟩
  -- The second check runs from the state of the first, which has the same last number.
  generalize (c₁.run σ₁).1 = r₁, (c₂.run σ₁).1 = r₂, (c₃.run σ₃).1 = r₃ at halike halike'
  cases halike with
  | ok hab =>
    cases halike' with
    | ok hbc => exact .ok (hab.trans hbc)
  | error he =>
    cases halike' with
    | error he' => exact .error ⟨he.1.trans he'.1, he.2.trans he'.2⟩

/-- Two checks with the same reports give out the same numbers, and end alike. -/
theorem Reported.runFrom {c₁ c₂ : Check α} (h : Reported c₁ c₂) (last : Nat) (tracing : Bool) :
    (c₁.runFrom last tracing).last = (c₂.runFrom last tracing).last ∧
      Alike SameReport Eq (c₁.runFrom last tracing).result (c₂.runFrom last tracing).result :=
  h ⟨last, tracing, []⟩ ⟨last, tracing, []⟩ rfl

theorem reported_numbered (make : Nat → α × Nat) : Reported (numbered make) (numbered make) := by
  intro σ₁ σ₂ hσ
  rw [run_numbered, run_numbered, hσ]
  exact ⟨rfl, .ok rfl⟩

/-- Looking up a name reports the same wherever the name stands. -/
theorem reported_lookup (Γ : Scope) (name : String) (span₁ span₂ : Span) :
    Reported (lookup Γ name span₁) (lookup Γ name span₂) := by
  unfold lookup
  split
  · exact .pure rfl
  · exact .fault ⟨rfl, rfl⟩

/-- A type that does not agree is reported the same for an expression and its outline. -/
theorem reported_require (expected found : Ty) (inside : Expr) :
    Related (fun σ₁ σ₂ => σ₁.last = σ₂.last) SameReport (fun _ _ => True)
      (require expected found inside) (require expected found inside.outline) :=
  .require rfl (sameReport_outline _ _ _)

end Check

/-! ## The rules of typing -/

namespace Expr

open Check

/-- A recursive binding is reported on as its outline is. -/
theorem reported_recursiveBinding (decl : Decl) (value : Expr) :
    Reported (recursiveBinding (decl, value)) (recursiveBinding (decl.outline, value.outline)) := by
  cases value with
  | lambda span params result body =>
    rw [outline, recursiveBinding, recursiveBinding, procType_outline]
    cases hd : decl.ty? with
    | none =>
      simp only [Decl.outline, hd]
      exact .pure rfl
    | some declared =>
      simp only [Decl.outline, hd]
      exact .bind (reported_require _ _ (lambda span params result body)) fun _ _ _ => .pure rfl
  | missing | number | boolean | string | quoted | primitive | var | cond | app | letin | letrec
  | define | program => exact .fault (sameReport_outline _ _ _)

theorem reported_recursiveBindings (bs : List (Decl × Expr)) :
    Reported (recursiveBindings bs) (recursiveBindings (outlineBound bs)) := by
  induction bs with
  | nil => exact .pure rfl
  | cons b bs ih =>
    refine .bind (reported_recursiveBinding b.1 b.2) ?_
    rintro β _ rfl
    refine .bind ih ?_
    rintro βs _ rfl
    exact .pure rfl

mutual

/-- An expression is typed like its outline. -/
theorem reported_outline (Γ : Scope) (d : Nat) (e : Expr) :
    Reported (typeOf Γ d e) (typeOf Γ d e.outline) := by
  rw [typeOf.eq_def Γ d e, typeOf.eq_def Γ d e.outline]
  refine .after_note (fun _ _ _ _ hσ => hσ) ?_
  cases e with
  | missing => exact .fault ⟨rfl, rfl⟩
  | number | boolean | string => exact .pure rfl
  | quoted t v span =>
    simp only [outline]
    cases v.typeOf true with
    | error f => exact .fault ⟨rfl, rfl⟩
    | ok u => exact .pure rfl
  | primitive t =>
    simp only [outline, Token.ofName]
    cases Primitive.signature? t.text with
    | none => exact .fault ⟨rfl, rfl⟩
    | some signature => exact reported_numbered _
  | var t => exact reported_lookup Γ t.text _ _
  | cond span test consequent alternative =>
    refine .bind (reported_outline Γ _ test) ?_
    rintro t _ rfl
    refine .bind (reported_require _ _ test) fun _ _ _ => ?_
    refine .bind (reported_outline Γ _ consequent) ?_
    rintro u _ rfl
    refine .bind (reported_outline Γ _ alternative) ?_
    rintro v _ rfl
    exact .bind (reported_require _ _ alternative) fun _ _ _ => .pure rfl
  | lambda span params result body =>
    -- The frame of the parameters holds names and types only, so it is the same for the outline.
    rw [outline]
    dsimp only
    rw [Param.bindings_outline, procType_outline]
    refine .bind (reported_outlineBody _ _ (lambda span params result body) body) ?_
    rintro t _ rfl
    exact .bind (reported_require _ _ (lambda span params result body)) fun _ _ _ => .pure rfl
  | app span operator operands =>
    refine .bind (reported_outline Γ _ operator) ?_
    rintro t _ rfl
    cases t with
    | absent | base | var | pair => exact .fault (sameReport_outline (.notProcedure ..) _ _)
    | proc params result =>
      simp only [length_outlineAll]
      split
      · refine .bind (reported_numbered _) ?_
        rintro fresh _ rfl
        refine .bind (reported_matchOperands Γ _ [] _ operands) ?_
        rintro s _ rfl
        exact .pure rfl
      · exact .fault (sameReport_outline (.arity ..) _ _)
  | letin span bindings body =>
    refine .bind (reported_outlineBindings Γ _ bindings) ?_
    rintro βs _ rfl
    exact reported_outlineBody _ _ (letin span bindings body) body
  | letrec span bindings body =>
    refine .bind (reported_recursiveBindings bindings) ?_
    rintro βs _ rfl
    refine .bind (reported_outlineProcedures _ _ bindings) fun _ _ _ => ?_
    exact reported_outlineBody _ _ (letrec span bindings body) body
  | define span decl value => exact .fault (sameReport_outline (.nestedDefine ..) _ _)
  | program forms =>
    refine .bind (reported_outlineForms Γ _ forms) ?_
    rintro r _ rfl
    exact .pure rfl

theorem reported_outlineBody (Γ : Scope) (d : Nat) (owner : Expr) (es : List Expr) :
    Reported (typeOfBody Γ d owner es) (typeOfBody Γ d owner.outline (outlineAll es)) := by
  match es with
  | [] => exact .fault (sameReport_outline (.emptyBody ..) _ _)
  | [e] => exact reported_outline Γ d e
  | e :: f :: es =>
    refine .bind (reported_outline Γ d e) fun _ _ _ => ?_
    exact reported_outlineBody Γ d owner (f :: es)

/-- Operands are reported on as their outlines are, after the same bindings. -/
theorem reported_matchOperands (Γ : Scope) (d : Nat) (s : Substitution) (params : List Ty)
    (es : List Expr) :
    Reported (matchOperands Γ d s params es) (matchOperands Γ d s params (outlineAll es)) := by
  match params, es with
  | [], [] | [], _ :: _ | _ :: _, [] => exact .pure rfl
  | p :: params, e :: es =>
    refine .bind (reported_outline Γ d e) ?_
    rintro t _ rfl
    dsimp only
    split
    · exact reported_matchOperands Γ d _ params es
    · exact .fault (sameReport_outline (.mismatch ..) _ _)

theorem reported_outlineBindings (Γ : Scope) (d : Nat) (bs : List (Decl × Expr)) :
    Reported (typeOfBindings Γ d bs) (typeOfBindings Γ d (outlineBound bs)) := by
  match bs with
  | [] => exact .pure rfl
  | (decl, value) :: rest =>
    refine .bind (reported_outline Γ d value) ?_
    rintro t _ rfl
    refine .bind (reported_require _ _ value) fun _ _ _ => ?_
    refine .bind (reported_outlineBindings Γ d rest) ?_
    rintro βs _ rfl
    exact .pure rfl

theorem reported_outlineProcedures (Γ : Scope) (d : Nat) (bs : List (Decl × Expr)) :
    Reported (checkProcedures Γ d bs) (checkProcedures Γ d (outlineBound bs)) := by
  match bs with
  | [] => exact .pure rfl
  | (decl, value) :: rest =>
    have ih := reported_outlineProcedures Γ d rest
    cases value with
    | lambda span params result body =>
      rw [outlineBound, outline, checkProcedures, checkProcedures, Param.bindings_outline]
      refine .bind (reported_outlineBody _ _ (lambda span params result body) body) ?_
      rintro t _ rfl
      exact .bind (reported_require _ _ (lambda span params result body)) fun _ _ _ => ih
    | missing | number | boolean | string | quoted | primitive | var | cond | app | letin | letrec
    | define | program => exact ih

/-- Forms are reported on as their outlines are. -/
theorem reported_outlineForms (Γ : Scope) (d : Nat) (forms : List Expr) :
    Reported (typeOfForms Γ d forms) (typeOfForms Γ d (outlineAll forms)) := by
  match forms with
  | [] => exact .fault ⟨rfl, rfl⟩
  | e :: rest =>
    -- A form and its outline give one type and leave one scope.
    have hform : Reported (typeOfForm Γ d e) (typeOfForm Γ d e.outline) := by
      cases e with
      | define span decl value =>
        refine .after_note (fun _ _ _ _ hσ => hσ) ?_
        refine .bind (reported_outline Γ _ value) ?_
        rintro t _ rfl
        exact .bind (reported_require _ _ value) fun _ _ _ => .pure rfl
      | missing | number | boolean | string | quoted | primitive | var | cond | lambda | app
      | letin | letrec | program =>
        refine .bind (reported_outline Γ d _) ?_
        rintro t _ rfl
        exact .pure rfl
    match rest with
    | [] =>
      rw [outlineAll, outlineAll, typeOfForms_singleton, typeOfForms_singleton]
      exact hform
    | f :: rest =>
      have ih := fun r : Ty × Scope => reported_outlineForms r.2 d (f :: rest)
      rw [outlineAll] at ih ⊢
      rw [outlineAll, typeOfForms_cons_cons, typeOfForms_cons_cons]
      refine .bind hform ?_
      rintro r _ rfl
      exact ih r

end

/-- Forms of the same outline are typed alike. -/
theorem reported_typeOfForms {forms forms' : List Expr} (h : outlineAll forms = outlineAll forms')
    (Γ : Scope) (d : Nat) : Reported (typeOfForms Γ d forms) (typeOfForms Γ d forms') := by
  have h' := reported_outlineForms Γ d forms'
  rw [← h] at h'
  exact (reported_outlineForms Γ d forms).trans h'.symm

/-- Expressions of one outline are reported on alike. -/
theorem reported_check {e e' : Expr} (h : SameOutline e e') (Γ : Scope) :
    Reported (e.check Γ) (e'.check Γ) := by
  have hforms : outlineAll [e] = outlineAll [e'] := congrArg (· :: []) h
  refine .bind (reported_typeOfForms hforms Γ 0) ?_
  rintro r _ rfl
  exact .pure rfl

end Expr

/-! ## Answers to texts -/

/-- Two answers are the same but for places: the same type, or texts that are malformed with the same
message and in the same way incomplete or not, or type errors of the same kind with the same message. -/
inductive SameVerdict : Except SourceError Ty → Except SourceError Ty → Prop
  | typed (t : Ty) : SameVerdict (.ok t) (.ok t)
  | malformed {e₁ e₂ : SyntaxError} : e₁.message = e₂.message → e₁.isIncomplete = e₂.isIncomplete →
      SameVerdict (.error (.malformed e₁)) (.error (.malformed e₂))
  | illTyped {e₁ e₂ : TypeError} : e₁.kind = e₂.kind → e₁.message = e₂.message →
      SameVerdict (.error (.illTyped e₁)) (.error (.illTyped e₂))

namespace Session

open Check

/-- Two submissions get the same answer but for places, and leave the same session. -/
def Agree (a b : Reply × Session) : Prop := SameVerdict a.1.result b.1.result ∧ a.2 = b.2

variable (s : Session)

/-- Two texts that are refused for the same fault leave a session agreeing. -/
theorem agree_refuse {e e' : SyntaxError} (h : e.fault = e'.fault) (last : Nat) :
    Agree (s.refuse e last) (s.refuse e' last) :=
  ⟨.malformed (congrArg SyntaxFault.message h) (congrArg SyntaxFault.isIncomplete h), rfl⟩

/-- Two programs of one outline are answered alike. -/
theorem agree_check {p p' : Program} (h : Expr.outlineAll p.forms = Expr.outlineAll p'.forms) :
    Agree (s.check p) (s.check p') := by
  obtain ⟨hlast, halike⟩ := (Expr.reported_typeOfForms h s.scope 0).runFrom s.last s.tracing
  unfold Session.check Program.check
  generalize (Expr.typeOfForms s.scope 0 p.forms).runFrom s.last s.tracing = o at hlast halike ⊢
  generalize (Expr.typeOfForms s.scope 0 p'.forms).runFrom s.last s.tracing = o' at hlast halike ⊢
  obtain ⟨result, last, notes⟩ := o
  obtain ⟨result', last', notes'⟩ := o'
  obtain rfl : last = last' := hlast
  cases halike with
  | ok hr =>
    -- The result is a type with the scope after the program, so the sessions are the same too.
    obtain rfl := hr
    exact ⟨.typed _, rfl⟩
  | error he => exact ⟨.illTyped he.1 he.2, rfl⟩

theorem agree_ask {c c' : Check Ty} (h : Reported c c') : Agree (s.ask c) (s.ask c') := by
  obtain ⟨hlast, halike⟩ := h.runFrom s.last s.tracing
  unfold Session.ask
  generalize c.runFrom s.last s.tracing = o at hlast halike ⊢
  generalize c'.runFrom s.last s.tracing = o' at hlast halike ⊢
  obtain ⟨result, last, notes⟩ := o
  obtain ⟨result', last', notes'⟩ := o'
  obtain rfl : last = last' := hlast
  cases halike with
  | ok ht =>
    obtain rfl := ht
    exact ⟨.typed _, rfl⟩
  | error he => exact ⟨.illTyped he.1 he.2, rfl⟩

/-- The answer to a text: what comes after it has been parsed, or the refusal of a malformed text. -/
def afterParse {α : Type} (c : Parse α) (next : Session → α → Reply × Session) : Reply × Session :=
  match c.runFrom s.last with
  | (.ok a, last) => next (s.after last) a
  | (.error e, last) => s.refuse e last

/-- A submission is a parse, and a check of what it gives. -/
theorem submit_eq (source : String) :
    s.submit source = s.afterParse (Program.parse source) check := by
  unfold submit afterParse
  rcases (Program.parse source).runFrom s.last with ⟨_ | p, last⟩ <;> rfl

/-- A question is a parse, and a check that leaves the scope as it is. -/
theorem evaluate_eq (source : String) :
    s.evaluate source = s.afterParse (Expr.parse source) fun s e => s.ask (e.check s.scope) := by
  unfold evaluate afterParse
  rcases (Expr.parse source).runFrom s.last with ⟨_ | e, last⟩ <;> rfl

/-- Texts that parse in parallel are answered alike, if what they parse to is. -/
theorem agree_afterParse {α β : Type} {R : α → β → Prop} {c : Parse α} {c' : Parse β}
    (hc : Parse.Parallel R c c') {next : Session → α → Reply × Session}
    {next' : Session → β → Reply × Session}
    (hnext : ∀ s a b, R a b → Agree (next s a) (next' s b)) :
    Agree (s.afterParse c next) (s.afterParse c' next') := by
  obtain ⟨hlast, halike⟩ := hc.runFrom s.last
  unfold afterParse
  generalize c.runFrom s.last = r at hlast halike ⊢
  generalize c'.runFrom s.last = r' at hlast halike ⊢
  obtain ⟨result, last⟩ := r
  obtain ⟨result', last'⟩ := r'
  obtain rfl : last = last' := hlast
  cases halike with
  | ok hab => exact hnext _ _ _ hab
  | error he => exact s.agree_refuse he last

/-- Layout and comments never influence typing. Two texts whose tokens have the same kinds and texts, up
to the end of the input and but for layout, get the same answer from a session, as programs and as
expressions: the same type, or a syntax error with the same message that is incomplete or not for both,
or a type error of the same kind with the same message. They leave the same session, so the same numbers
have been given out. -/
theorem answer_ignores_layout {source source' : String}
    (htokens : (Token.scanSpaced source).map (fun t => (t.token.kind, t.token.text)) =
      (Token.scanSpaced source').map fun t => (t.token.kind, t.token.text)) :
    (SameVerdict (s.submit source).1.result (s.submit source').1.result ∧
      (s.submit source).2 = (s.submit source').2) ∧
    SameVerdict (s.evaluate source).1.result (s.evaluate source').1.result ∧
      (s.evaluate source).2 = (s.evaluate source').2 := by
  have hsame := Token.same_significant htokens
  constructor
  · rw [submit_eq, submit_eq]
    exact s.agree_afterParse (Program.parallel_parse hsame) fun s p p' hp => s.agree_check hp
  · rw [evaluate_eq, evaluate_eq]
    exact s.agree_afterParse (Expr.parallel_parse hsame) fun s e e' he =>
      s.agree_ask (Expr.reported_check he s.scope)

/-- A sum of a number and a string, once on one line and once over three lines with a comment: the two
errors are at different places. -/
theorem answer_ignores_layout_sum :
    let contents (source : String) :=
      (Token.scanSpaced source).map fun t => (t.token.kind, t.token.text)
    let narrow := "(+ 1 \"a\")"
    let wide := "(+ 1 ; one\n\n   \"a\" )"
    contents narrow = contents wide ∧
      ∃ e e', (start.submit narrow).1.result = .error (.illTyped e) ∧
        (start.submit wide).1.result = .error (.illTyped e') ∧
        e.span ≠ e'.span ∧ e.kind = e'.kind ∧ e.message = e'.message := by
  intro contents narrow wide
  have htokens : contents narrow = contents wide := by decide +kernel
  have hspans : (match (start.submit narrow).1.result, (start.submit wide).1.result with
      | .error (.illTyped e), .error (.illTyped e') => decide (e.span ≠ e'.span)
      | _, _ => false) = true := by decide +kernel
  obtain ⟨⟨hverdict, -⟩, -⟩ := answer_ignores_layout start htokens
  refine ⟨htokens, ?_⟩
  generalize (start.submit narrow).1.result = r at hspans hverdict ⊢
  generalize (start.submit wide).1.result = r' at hspans hverdict ⊢
  cases hverdict with
  | typed | malformed => simp at hspans
  | illTyped hkind hmessage => exact ⟨_, _, rfl, rfl, of_decide_eq_true hspans, hkind, hmessage⟩

end Session

end TypedScheme
