import TypedScheme.Proofs.Typing.Steps
import TypedScheme.Typing.Session

/-!
# Checking with an indent of its own

The checker is told how deep every expression lies. The depth can as well be kept in the state, as an
indent that is moved in when the line of an expression has been written and moved back when the check of
the expression is over. An error passes through all checks that are under way, and each of them moves the
indent back.

## What this module delivers

- `IndentCheck`, checks that keep an indent, with `IndentCheck.within` as the only step that writes a
  line and moves the indent.
- `IndentCheck.typeOf` and its companions: the rules of typing, without any depth.
- `IndentCheck.Realizes d c' c`: started at the indent `d`, the check `c'` does what `c` does and ends at
  the indent at which it started, whether it succeeds or not.
- `IndentCheck.realizes_typeOf` and its companions, one rule of typing at a time.
- `IndentSession`, sessions whose checks share one indent, with `IndentSession.check_eq`: submissions
  find the indent where the session has had it from the start.
-/

set_option autoImplicit false

namespace TypedScheme

/-- The state of a check that keeps an indent. -/
structure IndentState extends CheckState where
  indent : Nat

/-- Checking that keeps an indent and may fail. -/
abbrev IndentCheck := ExceptT TypeError (StateM IndentState)

namespace IndentCheck

/-- A step that leaves the indent alone. -/
def still {α : Type} (c : Check α) : IndentCheck α := fun s =>
  let (r, σ) := c.run s.toCheckState
  (r, ⟨σ, s.indent⟩)

/-- Writes the line of an expression if the check is traced, and makes a check one step further in. The
indent is moved back after the check, whether it has a result or not. -/
def within {α : Type} (e : Expr) (c : IndentCheck α) : IndentCheck α := fun s =>
  if s.tracing then
    let (r, s') := c.run ⟨{ s with notes := s.notes ++ [⟨s.indent, e⟩] }, s.indent + 1⟩
    (r, { s' with indent := s'.indent - 1 })
  else c.run s

mutual

/-- The type of an expression in a scope. -/
def typeOf (scope : Scope) (e : Expr) : IndentCheck Ty :=
  within e <| match e with
    | .missing => still (Check.fault .missingForm .absent)
    | .number _ _ => pure (.base .number)
    | .boolean _ _ => pure (.base .boolean)
    | .string _ _ => pure (.base .string)
    | .quoted _ v span =>
      match v.typeOf true with
      | .ok t => pure t
      | .error f => still (Check.fault f span)
    | .primitive t =>
      match Primitive.signature? t.text with
      | some signature =>
        still (Check.numbered fun last => Primitive.instantiate last signature)
      | none => still (Check.fault (.unknownPrimitive t.text) t.span)
    | .var t => still (Check.lookup scope t.text t.span)
    | .cond _ test consequent alternative => do
      let testType ← typeOf scope test
      still (Check.require (.base .boolean) testType test)
      let consequentType ← typeOf scope consequent
      let alternativeType ← typeOf scope alternative
      still (Check.require consequentType alternativeType alternative)
      pure consequentType
    | .lambda _ params result body => do
      let bodyType ← typeOfBody (scope.extend (Param.bindings params)) e body
      still (Check.require result bodyType e)
      pure (Expr.procType params result)
    | .app span operator operands => do
      match ← typeOf scope operator with
      | .proc params result =>
        if params.length = operands.length then do
          let fresh ← still (Check.numbered fun last => (Ty.proc params result).freshVars last)
          let s ← matchOperands scope [] (Ty.bindAll fresh params) operands
          pure (s.apply (result.bind fresh))
        else
          still (Check.fault (.arity (.proc params result) params.length operands.length e) span)
      | t => still (Check.fault (.notProcedure operator t e) operator.span)
    | .letin _ bindings body => do
      let bs ← typeOfBindings scope bindings
      typeOfBody (scope.extend bs) e body
    | .letrec _ bindings body => do
      let bs ← still (Expr.recursiveBindings bindings)
      checkProcedures (scope.extend bs) bindings
      typeOfBody (scope.extend bs) e body
    | .define span _ _ => still (Check.fault (.nestedDefine e) span)
    | .program forms => do
      let (t, _) ← typeOfForms scope forms
      pure t

/-- The type of the last form of a body. -/
def typeOfBody (scope : Scope) (owner : Expr) : List Expr → IndentCheck Ty
  | [] => still (Check.fault (.emptyBody owner) owner.span)
  | [e] => typeOf scope e
  | e :: es => do
    let _ ← typeOf scope e
    typeOfBody scope owner es

/-- The bindings that make the parameter types of an operator equal to the types of its operands. -/
def matchOperands (scope : Scope) (s : Substitution) :
    List Ty → List Expr → IndentCheck Substitution
  | param :: params, e :: es => do
    let t ← typeOf scope e
    let (ok, s') := s.unify param t
    if ok then matchOperands scope s' params es
    else still (Check.fault (.mismatch (s'.apply param) (s'.apply t) e) e.span)
  | _, _ => pure s

/-- The names and types of bindings, whose values are typed outside of them. -/
def typeOfBindings (scope : Scope) : List (Decl × Expr) → IndentCheck (List (String × Ty))
  | [] => pure []
  | (decl, value) :: rest => do
    let valueType ← typeOf scope value
    still (Check.require decl.boundType valueType value)
    let bs ← typeOfBindings scope rest
    pure ((decl.name, decl.boundType) :: bs)

/-- Checks the bodies of procedures that are bound recursively, which have no line of their own. -/
def checkProcedures (scope : Scope) : List (Decl × Expr) → IndentCheck Unit
  | [] => pure ()
  | (_, .lambda span params result body) :: rest => do
    let owner := Expr.lambda span params result body
    let bodyType ← typeOfBody (scope.extend (Param.bindings params)) owner body
    still (Check.require result bodyType owner)
    checkProcedures scope rest
  | _ :: rest => checkProcedures scope rest

/-- The type of the last form of a program, and the scope after its definitions. -/
def typeOfForms (scope : Scope) : List Expr → IndentCheck (Ty × Scope)
  | [] => still (Check.fault .emptyProgram .absent)
  | .define span decl value :: rest => do
    within (.define span decl value) do
      let valueType ← typeOf scope value
      still (Check.require decl.boundType valueType value)
    let scope := scope.extend [(decl.name, decl.boundType)]
    match rest with
    | [] => pure (.base .void, scope)
    | _ => typeOfForms scope rest
  | e :: rest => do
    let t ← typeOf scope e
    match rest with
    | [] => pure (t, scope)
    | _ => typeOfForms scope rest

end

/-! ## Runs -/

variable {α β : Type} {d : Nat}

theorem run_within_traced (e : Expr) (c : IndentCheck α) {s : IndentState} (hs : s.tracing = true) :
    (within e c).run s =
      ((c.run ⟨{ s.toCheckState with notes := s.notes ++ [⟨s.indent, e⟩] }, s.indent + 1⟩).1,
        let s' := (c.run ⟨{ s.toCheckState with notes := s.notes ++ [⟨s.indent, e⟩] }, s.indent + 1⟩).2
        { s' with indent := s'.indent - 1 }) :=
  if_pos hs

theorem run_within_untraced (e : Expr) (c : IndentCheck α) {s : IndentState}
    (hs : s.tracing = false) : (within e c).run s = c.run s := by
  refine if_neg ?_
  simp [hs]

/-- From every state that has the indent `d` if the check is traced, the one check does what the other
does, ends at the indent at which it started and leaves it open whether it is traced. -/
def Realizes (d : Nat) (c' : IndentCheck α) (c : Check α) : Prop :=
  ∀ s : IndentState, (s.tracing = true → s.indent = d) →
    c'.run s = ((c.run s.toCheckState).1, ⟨(c.run s.toCheckState).2, s.indent⟩) ∧
      (c.run s.toCheckState).2.tracing = s.tracing

namespace Realizes

theorem pure (a : α) : Realizes d (Pure.pure a) (Pure.pure a) := fun _ _ => ⟨rfl, rfl⟩

/-- A step that leaves the indent alone does what it does without one. -/
theorem still {c : Check α} (hc : c.Built) : Realizes d (still c) c :=
  fun s _ => ⟨rfl, hc.tracing_run s.toCheckState⟩

/-- The second part starts at the indent at which the first part started. -/
theorem bind {c' : IndentCheck α} {c : Check α} {f' : α → IndentCheck β} {f : α → Check β}
    (hc : Realizes d c' c) (hf : ∀ a, Realizes d (f' a) (f a)) :
    Realizes d (c' >>= f') (c >>= f) := by
  intro s hs
  obtain ⟨hrun', htracing⟩ := hc s hs
  rcases hrun : c.run s.toCheckState with ⟨e | a, σ⟩
  · rw [hrun] at hrun' htracing
    rw [run_bind_error hrun', run_bind_error hrun]
    exact ⟨rfl, htracing⟩
  · rw [hrun] at hrun' htracing
    rw [run_bind_ok hrun', run_bind_ok hrun]
    obtain ⟨hnext, htracing'⟩ := hf a ⟨σ, s.indent⟩ fun h => hs (htracing ▸ h)
    exact ⟨hnext, htracing'.trans htracing⟩

/-- A line is written at the depth of the expression, and what is inside lies one step deeper. -/
theorem within {c' : IndentCheck α} {c : Check α} {e : Expr} (hc : Realizes (d + 1) c' c) :
    Realizes d (within e c') (do Check.note d e; c) := by
  rintro ⟨⟨last, tracing, notes⟩, indent⟩ hs
  cases tracing with
  | false =>
    rw [run_within_untraced e c' rfl]
    exact hc ⟨⟨last, false, notes⟩, indent⟩ fun h => by cases h
  | true =>
    obtain rfl : indent = d := hs rfl
    obtain ⟨hrun, htracing⟩ := hc ⟨⟨last, true, notes ++ [⟨indent, e⟩]⟩, indent + 1⟩ fun _ => rfl
    rw [run_within_traced e c' rfl]
    dsimp only at hrun ⊢
    rw [hrun]
    exact ⟨rfl, htracing⟩

/-- The indent is moved back after the value of a definition, before the forms that follow. -/
theorem define {Γ : Scope} {span : Span} {decl : Decl} {value : Expr} {next' : IndentCheck α}
    {next : Check α} (hvalue : Realizes (d + 1) (typeOf Γ value) (Expr.typeOf Γ (d + 1) value))
    (hnext : Realizes d next' next) :
    Realizes d
      (do
        IndentCheck.within (.define span decl value) do
          let t ← typeOf Γ value
          IndentCheck.still (Check.require decl.boundType t value)
        next')
      (do
        Check.note d (.define span decl value)
        let t ← Expr.typeOf Γ (d + 1) value
        Check.require decl.boundType t value
        next) := by
  have hline := within (e := .define span decl value)
    (.bind hvalue fun t => .still (.require decl.boundType t value))
  simpa only [bind_assoc] using hline.bind fun _ => hnext

end Realizes

/-! ## One rule of typing at a time -/

mutual

/-- The check of an expression that keeps an indent is the check that is told the depth. -/
theorem realizes_typeOf (Γ : Scope) (d : Nat) (e : Expr) :
    Realizes d (typeOf Γ e) (Expr.typeOf Γ d e) := by
  rw [typeOf.eq_def, Expr.typeOf.eq_def]
  -- The line is written first, and what is checked inside lies one step deeper.
  refine .within ?_
  cases e with
  | missing => exact .still (.fault _ _)
  | number | boolean | string => exact .pure _
  | quoted mark v span =>
    dsimp only
    cases v.typeOf true with
    | ok t => exact .pure t
    | error f => exact .still (.fault f span)
  | primitive token =>
    dsimp only
    cases Primitive.signature? token.text with
    | some signature => exact .still (.numbered _)
    | none => exact .still (.fault _ _)
  | var token => exact .still (.lookup _ _ _)
  | cond span test consequent alternative =>
    refine .bind (realizes_typeOf Γ _ test) fun _ => .bind (.still (.require _ _ _)) fun _ => ?_
    refine .bind (realizes_typeOf Γ _ consequent) fun _ => ?_
    refine .bind (realizes_typeOf Γ _ alternative) fun _ => ?_
    exact .bind (.still (.require _ _ _)) fun _ => .pure _
  | lambda span params result body =>
    refine .bind (realizes_typeOfBody _ _ _ body) fun _ => ?_
    exact .bind (.still (.require _ _ _)) fun _ => .pure _
  | app span operator operands =>
    refine .bind (realizes_typeOf Γ _ operator) fun t => ?_
    cases t with
    | absent | base | var | pair => exact .still (.fault _ _)
    | proc params result =>
      dsimp only
      split
      · refine .bind (.still (.numbered _)) fun fresh => ?_
        exact .bind (realizes_matchOperands Γ _ [] _ operands) fun _ => .pure _
      · exact .still (.fault _ _)
  | letin span bindings body =>
    exact .bind (realizes_typeOfBindings Γ _ bindings) fun _ => realizes_typeOfBody _ _ _ body
  | letrec span bindings body =>
    refine .bind (.still (Expr.built_recursiveBindings bindings)) fun _ => ?_
    exact .bind (realizes_checkProcedures _ _ bindings) fun _ => realizes_typeOfBody _ _ _ body
  | define span decl value => exact .still (.fault _ _)
  | program forms => exact .bind (realizes_typeOfForms Γ _ forms) fun _ => .pure _

/-- The check of a body with an indent does what the check with a depth does. -/
theorem realizes_typeOfBody (Γ : Scope) (d : Nat) (owner : Expr) (es : List Expr) :
    Realizes d (typeOfBody Γ owner es) (Expr.typeOfBody Γ d owner es) := by
  match es with
  | [] => exact .still (.fault _ _)
  | [e] => exact realizes_typeOf Γ d e
  | e :: f :: es =>
    exact .bind (realizes_typeOf Γ d e) fun _ => realizes_typeOfBody Γ d owner (f :: es)

theorem realizes_matchOperands (Γ : Scope) (d : Nat) (s : Substitution) (params : List Ty)
    (es : List Expr) :
    Realizes d (matchOperands Γ s params es) (Expr.matchOperands Γ d s params es) := by
  match params, es with
  | [], [] | [], _ :: _ | _ :: _, [] => exact .pure s
  | p :: params, e :: es =>
    refine .bind (realizes_typeOf Γ d e) fun t => ?_
    rcases s.unify p t with ⟨ok, s'⟩
    cases ok with
    | true => exact realizes_matchOperands Γ d s' params es
    | false => exact .still (.fault _ _)

theorem realizes_typeOfBindings (Γ : Scope) (d : Nat) (bs : List (Decl × Expr)) :
    Realizes d (typeOfBindings Γ bs) (Expr.typeOfBindings Γ d bs) := by
  match bs with
  | [] => exact .pure []
  | (decl, value) :: rest =>
    refine .bind (realizes_typeOf Γ d value) fun _ => .bind (.still (.require _ _ _)) fun _ => ?_
    exact .bind (realizes_typeOfBindings Γ d rest) fun _ => .pure _

theorem realizes_checkProcedures (Γ : Scope) (d : Nat) (bs : List (Decl × Expr)) :
    Realizes d (checkProcedures Γ bs) (Expr.checkProcedures Γ d bs) := by
  match bs with
  | [] => exact .pure ()
  | (decl, value) :: rest =>
    have ih := realizes_checkProcedures Γ d rest
    cases value with
    | lambda span params result body =>
      refine .bind (realizes_typeOfBody _ _ _ body) fun _ => ?_
      exact .bind (.still (.require _ _ _)) fun _ => ih
    | missing | number | boolean | string | quoted | primitive | var | cond | app | letin | letrec
    | define | program => exact ih

/-- The check of forms with an indent does what the check with a depth does. -/
theorem realizes_typeOfForms (Γ : Scope) (d : Nat) (forms : List Expr) :
    Realizes d (typeOfForms Γ forms) (Expr.typeOfForms Γ d forms) := by
  match forms with
  | [] => exact .still (.fault _ _)
  | [e] =>
    cases e with
    | define span decl value => exact .define (realizes_typeOf Γ _ value) (.pure _)
    | missing | number | boolean | string | quoted | primitive | var | cond | lambda | app
    | letin | letrec | program => exact .bind (realizes_typeOf Γ d _) fun _ => .pure _
  | e :: f :: rest =>
    cases e with
    | define span decl value =>
      exact .define (realizes_typeOf Γ _ value) (realizes_typeOfForms _ d (f :: rest))
    | missing | number | boolean | string | quoted | primitive | var | cond | lambda | app
    | letin | letrec | program =>
      exact .bind (realizes_typeOf Γ d _) fun _ => realizes_typeOfForms Γ d (f :: rest)

end

/-- The whole of a run: what the check with a depth does, and the indent as it was. -/
theorem run_typeOfForms (Γ : Scope) (d : Nat) (forms : List Expr) (last : Nat) (tracing : Bool) :
    (typeOfForms Γ forms).run ⟨⟨last, tracing, []⟩, d⟩ =
      (((Expr.typeOfForms Γ d forms).runFrom last tracing).result,
        ⟨⟨((Expr.typeOfForms Γ d forms).runFrom last tracing).last, tracing,
          ((Expr.typeOfForms Γ d forms).runFrom last tracing).notes⟩, d⟩) := by
  obtain ⟨hrun, htracing⟩ := realizes_typeOfForms Γ d forms ⟨⟨last, tracing, []⟩, d⟩ fun _ => rfl
  rcases hσ : (Expr.typeOfForms Γ d forms).run ⟨last, tracing, []⟩ with ⟨result, σ⟩
  obtain ⟨last', tracing', notes⟩ := σ
  rw [hσ] at hrun htracing
  obtain rfl : tracing' = tracing := htracing
  rw [hrun, Check.runFrom, hσ]

end IndentCheck

/-! ## Sessions -/

/-- A session whose checks share one indent. -/
structure IndentSession extends Session where
  indent : Nat

namespace IndentSession

/-- Checks a program from the indent that the checks before it have left. -/
def check (s : IndentSession) (p : Program) : Reply × IndentSession :=
  let (result, state) :=
    (IndentCheck.typeOfForms s.scope p.forms).run ⟨⟨s.last, s.tracing, []⟩, s.indent⟩
  match result with
  | .ok (t, scope) => (⟨.ok t, state.notes⟩, ⟨⟨scope, state.last, s.tracing⟩, state.indent⟩)
  | .error e =>
    (⟨.error (.illTyped e), state.notes⟩, ⟨⟨s.scope, state.last, s.tracing⟩, state.indent⟩)

/-- What a submission does to a session: the indent stays, whether the program is well typed or not. -/
theorem check_cases (s : IndentSession) (p : Program) :
    let o := (Expr.typeOfForms s.scope s.indent p.forms).runFrom s.last s.tracing
    (∃ t Γ, o.result = .ok (t, Γ) ∧
      s.check p = (⟨.ok t, o.notes⟩, ⟨⟨Γ, o.last, s.tracing⟩, s.indent⟩)) ∨
    ∃ e, o.result = .error e ∧
      s.check p = (⟨.error (.illTyped e), o.notes⟩, ⟨⟨s.scope, o.last, s.tracing⟩, s.indent⟩) := by
  rw [check, IndentCheck.run_typeOfForms]
  generalize (Expr.typeOfForms s.scope s.indent p.forms).runFrom s.last s.tracing = o
  obtain ⟨e | ⟨t, Γ⟩, last, notes⟩ := o
  · exact .inr ⟨e, rfl, rfl⟩
  · exact .inl ⟨t, Γ, rfl, rfl⟩

/-- A session whose indent has never been moved does what a session without one does. -/
theorem check_eq {s : IndentSession} (hs : s.indent = 0) (p : Program) :
    s.check p = ((s.toSession.check p).1, ⟨(s.toSession.check p).2, 0⟩) := by
  rw [check, IndentCheck.run_typeOfForms, hs, Session.check, Program.check]
  generalize (Expr.typeOfForms s.scope 0 p.forms).runFrom s.last s.tracing = o
  obtain ⟨e | ⟨t, Γ⟩, last, notes⟩ := o
  · rfl
  · rfl

/-- The session after submissions in a row. -/
def afterAll (s : IndentSession) (ps : List Program) : IndentSession :=
  ps.foldl (fun s p => (s.check p).2) s

/-- Later submissions start at the indent at which the first one started, and are traced like it. -/
theorem indent_afterAll (s : IndentSession) (ps : List Program) :
    (s.afterAll ps).indent = s.indent ∧ (s.afterAll ps).tracing = s.tracing := by
  induction ps generalizing s with
  | nil => exact ⟨rfl, rfl⟩
  | cons p ps ih =>
    obtain ⟨hindent, htracing⟩ := ih (s.check p).2
    rw [afterAll, List.foldl_cons]
    refine ⟨hindent.trans ?_, htracing.trans ?_⟩
    all_goals obtain ⟨t, Γ, -, hcheck⟩ | ⟨e, -, hcheck⟩ := s.check_cases p <;> rw [hcheck]

end IndentSession

end TypedScheme
