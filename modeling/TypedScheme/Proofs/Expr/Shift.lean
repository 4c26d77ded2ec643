import TypedScheme.Proofs.Expr.Numbering
import TypedScheme.Proofs.Typing.Signatures

/-!
# Parsing after other numbers

A text that is parsed after `k` more numbers gives the same expressions with every type variable moved
up by `k`, or the same error.

## What this module delivers

- `Parse.Shifts k move c c'`: reading by `c'` after `k` more numbers ends as reading by `c` does, with the
  result moved; with a rule for every step of reading.
- `Ty.shifts_ofDatum`, `Expr.shifts_ofDatum` and their companions, one form at a time.
- `Program.parse_shift`: two parses of one text.
- `Program.Variant` and `Program.sameReading_parse`: after any two numbers a text has programs that are
  equal up to the names of type variables, or the same error.
-/

set_option autoImplicit false

namespace TypedScheme

/-! ## Steps of reading -/

namespace Parse

variable {α β : Type} {k : Nat} {move : α → α} {move' : β → β}

/-- After `k` more numbers, `c'` ends with the result of `c` moved, or with its error, and with its
numbering after `k` more numbers. -/
def Shifts (k : Nat) (move : α → α) (c c' : Parse α) : Prop :=
  ∀ n, c'.run (n.shift k) = ((c.run n).1.map move, (c.run n).2.shift k)

namespace Shifts

/-- What is known already is moved, and no number is given out. -/
theorem pure {a b : α} (h : move a = b) : Shifts k move (Pure.pure a) (Pure.pure b) := by
  intro n
  rw [← h]
  rfl

theorem fault (f : SyntaxFault) (span : Span) : Shifts k move (fault f span) (fault f span) :=
  fun _ => rfl

/-- What does not read a type has the same result. -/
theorem lift (x : Except SyntaxError α) : Shifts k id (liftM x : Parse α) (liftM x) := by
  intro n
  cases x <;> rfl

/-- The second part of a bind goes on with the moved result of the first. -/
theorem bind {c c' : Parse α} {f f' : α → Parse β} (hc : Shifts k move c c')
    (hf : ∀ a, Shifts k move' (f a) (f' (move a))) : Shifts k move' (c >>= f) (c' >>= f') := by
  intro n
  have hn := hc n
  rcases hr : c.run n with ⟨e | a, n'⟩
  · rw [hr] at hn
    rw [run_bind_error hr, run_bind_error hn]
    rfl
  · rw [hr] at hn
    rw [run_bind_ok hr, run_bind_ok hn]
    exact hf a n'

theorem forgetNames : Shifts k id forgetNames forgetNames := fun _ => rfl

/-- A name stands for the moved number, whether it has been met before or not. -/
theorem numbered (name : String) :
    Shifts k (Ty.rename (k + ·)) (numbered name) (numbered name) := by
  intro n
  rw [Numbers.run_numbered_eq, Numbers.run_numbered_eq, Numbering.shift, Numbering.lookup_shift]
  cases n.names.lookup name with
  | some id => rfl
  | none => rfl

/-- A reading that shifts ends after `k` more numbers as before, with every type variable moved by `k`.
-/
theorem runFrom {c : Parse α} (h : Shifts k move c c) (m : Nat) :
    c.runFrom (k + m) = ((c.runFrom m).1.map move, k + (c.runFrom m).2) := by
  have hrun := h ⟨m, []⟩
  unfold Parse.runFrom
  rw [show (⟨k + m, []⟩ : Numbering) = Numbering.shift k ⟨m, []⟩ from rfl, hrun]
  rfl

end Shifts

end Parse

open Parse

variable {k : Nat}

/-! ## Types -/

namespace Ty

/-- The variable of a name is moved, since all names are numbered later by the same. -/
theorem shifts_ofToken (t : Token) : Shifts k (Ty.rename (k + ·)) (ofToken t) (ofToken t) := by
  unfold ofToken
  split
  · split
    · exact .pure rfl
    · split
      · exact .fault _ _
      · exact .numbered _
  · exact .fault _ _

mutual

/-- Reading a type after more numbers moves its variables. -/
theorem shifts_ofDatum (d : Datum) : Shifts k (Ty.rename (k + ·)) (ofDatum d) (ofDatum d) := by
  cases d with
  | atom t => rw [ofDatum]; exact shifts_ofToken t
  | quoted mark d => rw [ofDatum]; exact .fault _ _
  | dotted left ds dot tail right => rw [ofDatum]; exact .fault _ _
  | list left ds right =>
    rw [ofDatum]
    dsimp only
    split
    · exact .fault _ _
    · exact shifts_ofPair ds
    · refine .bind (shifts_ofLast ds) fun result => ?_
      split
      · exact .pure (rename_proc ..)
      · exact .bind (shifts_ofParameters _ ds) fun params => .pure (rename_proc ..)

theorem shifts_ofPair (ds : List Datum) : Shifts k (Ty.rename (k + ·)) (ofPair ds) (ofPair ds) := by
  match ds with
  | [_, a, d] =>
    refine .bind (shifts_ofDatum a) fun car => .bind (shifts_ofDatum d) fun cdr => ?_
    exact .pure (rename_pair ..)
  | [] | [_] | [_, _] | _ :: _ :: _ :: _ :: _ => exact .fault _ _

theorem shifts_ofLast (ds : List Datum) : Shifts k (Ty.rename (k + ·)) (ofLast ds) (ofLast ds) := by
  match ds with
  | [] => exact .fault _ _
  | [d] => exact shifts_ofDatum d
  | _ :: d :: rest => exact shifts_ofLast (d :: rest)

/-- Reading parameters after more numbers moves the variables of all of them. -/
theorem shifts_ofParameters (whole : Span) (ds : List Datum) :
    Shifts k (List.map (Ty.rename (k + ·))) (ofParameters whole ds) (ofParameters whole ds) := by
  match ds with
  | [] | [_, _] => exact .pure rfl
  | [d] =>
    refine .bind (shifts_ofDatum d) fun t => .bind (shifts_ofStarred whole []) fun ts => ?_
    exact .pure rfl
  | d :: d₁ :: d₂ :: rest =>
    refine .bind (shifts_ofDatum d) fun t => ?_
    exact .bind (shifts_ofStarred whole (d₁ :: d₂ :: rest)) fun ts => .pure rfl

theorem shifts_ofStarred (whole : Span) (ds : List Datum) :
    Shifts k (List.map (Ty.rename (k + ·))) (ofStarred whole ds) (ofStarred whole ds) := by
  match ds with
  | [] | [_] | [_, _] => exact .pure rfl
  | [star, _, _] =>
    rw [ofStarred]
    split <;> exact .fault _ _
  | star :: d :: d₁ :: d₂ :: rest =>
    unfold ofStarred
    dsimp only
    split
    · refine .bind (shifts_ofDatum d) fun t => ?_
      exact .bind (shifts_ofStarred whole (d₁ :: d₂ :: rest)) fun ts => .pure rfl
    · exact .fault _ _

end

end Ty

/-! ## Expressions -/

namespace Expr

/-- A name is read without numbers. -/
theorem shifts_nameOf (d : Datum) : Shifts k id (nameOf d) (nameOf d) := by
  cases d with
  | atom t =>
    rw [nameOf]
    split
    · split
      · exact .fault _ _
      · exact .pure rfl
    · exact .fault _ _
  | quoted | dotted | list => exact .fault _ _

/-- Reading a name with its type after more numbers moves the variables of the type. -/
theorem shifts_typedName (name colon ty : Datum) (stop : Span) :
    Shifts k (Param.rename (k + ·)) (typedName name colon ty stop)
      (typedName name colon ty stop) := by
  refine .bind (shifts_nameOf name) fun token => ?_
  split
  · exact .bind (Ty.shifts_ofDatum ty) fun t => .pure rfl
  · exact .fault _ _

theorem shifts_paramOf (d : Datum) :
    Shifts k (Param.rename (k + ·)) (paramOf d) (paramOf d) := by
  unfold paramOf
  split
  · exact shifts_typedName _ _ _ _
  · exact .bind (shifts_nameOf _) fun token => .fault _ _
  · exact .fault _ _

/-- Whether a name has been seen before does not depend on numbers. -/
theorem shifts_paramsOf (seen : List String) (ds : List Datum) :
    Shifts k (List.map (Param.rename (k + ·))) (paramsOf seen ds) (paramsOf seen ds) := by
  induction ds generalizing seen with
  | nil => exact .pure rfl
  | cons d ds ih =>
    refine .bind (shifts_paramOf d) fun p => ?_
    change Shifts k _ _ (if seen.contains p.name then _ else _)
    split
    · exact .fault _ _
    · exact .bind (ih _) fun ps => .pure rfl

/-- Reading a declaration after more numbers moves the variables of its type. -/
theorem shifts_declOf (untyped : Bool) (d : Datum) :
    Shifts k (Decl.rename (k + ·)) (declOf untyped d) (declOf untyped d) := by
  refine .bind .forgetNames fun _ => ?_
  split
  · exact .bind (shifts_nameOf _) fun token => .pure rfl
  · exact .bind (shifts_paramOf _) fun p => .pure rfl

theorem shifts_inlineDeclOf (name colon ty : Datum) :
    Shifts k (Decl.rename (k + ·)) (inlineDeclOf name colon ty) (inlineDeclOf name colon ty) := by
  refine .bind .forgetNames fun _ => ?_
  exact .bind (shifts_typedName name colon ty _) fun p => .pure rfl

theorem shifts_ofToken (t : Token) : Shifts k (rename (k + ·)) (ofToken t) (ofToken t) := by
  unfold ofToken
  split
  · exact .bind (.lift _) fun n => .pure rfl
  · exact .pure rfl
  · exact .bind (.lift _) fun s => .pure rfl
  · split
    · exact .pure rfl
    · split
      · exact .fault _ _
      · exact .pure rfl
  · exact .fault _ _
  · exact .fault _ _

/-- A quoted value has no type variables to move. -/
theorem shifts_quoteOf (mark : Token) (d : Datum) (stop : Span) :
    Shifts k (rename (k + ·)) (quoteOf mark d stop) (quoteOf mark d stop) :=
  .bind (.lift _) fun _ => .pure rfl

theorem shifts_quoteFormOf (whole stop : Span) (ds : List Datum) :
    Shifts k (rename (k + ·)) (quoteFormOf whole stop ds) (quoteFormOf whole stop ds) := by
  unfold quoteFormOf
  split
  · exact shifts_quoteOf _ _ _
  · exact .fault _ _

mutual

/-- Reading an expression after more numbers moves its type variables. -/
theorem shifts_ofDatum (d : Datum) : Shifts k (rename (k + ·)) (ofDatum d) (ofDatum d) := by
  cases d with
  | atom t => rw [ofDatum]; exact shifts_ofToken t
  | quoted mark d => rw [ofDatum]; exact shifts_quoteOf _ _ _
  | dotted left ds dot tail right => rw [ofDatum]; exact .fault _ _
  | list left ds right =>
    rw [ofDatum]
    split
    · exact shifts_condOf _ ds
    · exact shifts_lambdaOf _ ds
    · exact shifts_letOf _ _ ds
    · exact shifts_letOf _ _ ds
    · exact shifts_defineOf _ ds
    · exact shifts_quoteFormOf _ _ ds
    · exact shifts_appOf _ ds

/-- Reading expressions after more numbers moves the type variables of all of them. -/
theorem shifts_ofData (ds : List Datum) : Shifts k (renameAll (k + ·)) (ofData ds) (ofData ds) := by
  match ds with
  | [] => exact .pure rfl
  | d :: ds => exact .bind (shifts_ofDatum d) fun e => .bind (shifts_ofData ds) fun es => .pure rfl

theorem shifts_condOf (whole : Span) (ds : List Datum) :
    Shifts k (rename (k + ·)) (condOf whole ds) (condOf whole ds) := by
  match ds with
  | [_, test, consequent, alternative] =>
    refine .bind (shifts_ofDatum test) fun a => ?_
    refine .bind (shifts_ofDatum consequent) fun b => ?_
    exact .bind (shifts_ofDatum alternative) fun c => .pure rfl
  | [] | [_] | [_, _] | [_, _, _] | _ :: _ :: _ :: _ :: _ :: _ => exact .fault _ _

/-- A procedure has one numbering for its parameters and its result, and both are moved. -/
theorem shifts_lambdaOf (whole : Span) (ds : List Datum) :
    Shifts k (rename (k + ·)) (lambdaOf whole ds) (lambdaOf whole ds) := by
  match ds with
  | _ :: params :: colon :: result :: body =>
    cases params with
    | list left ds right =>
      rw [lambdaOf]
      split
      · refine .bind .forgetNames fun _ => ?_
        refine .bind (shifts_paramsOf [] ds) fun ps => ?_
        refine .bind (Ty.shifts_ofDatum result) fun r => ?_
        exact .bind (shifts_ofData body) fun es => .pure rfl
      · exact .fault _ _
    | atom | quoted | dotted => exact .fault _ _
  | [] | [_] | [_, _] | [_, _, _] => exact .fault _ _

theorem shifts_appOf (whole : Span) (ds : List Datum) :
    Shifts k (rename (k + ·)) (appOf whole ds) (appOf whole ds) := by
  match ds with
  | [] => exact .fault _ _
  | operator :: operands =>
    refine .bind (shifts_ofDatum operator) fun f => ?_
    exact .bind (shifts_ofData operands) fun es => .pure rfl

theorem shifts_letOf (whole : Span) (recursive : Bool) (ds : List Datum) :
    Shifts k (rename (k + ·)) (letOf whole recursive ds) (letOf whole recursive ds) := by
  match ds with
  | _ :: bindings :: body =>
    cases bindings with
    | list left ds right =>
      refine .bind (shifts_bindingsOf recursive [] ds) fun bs => ?_
      refine .bind (shifts_ofData body) fun es => .pure ?_
      cases recursive <;> rfl
    | atom | quoted | dotted => exact .fault _ _
  | [] | [_] => exact .fault _ _

/-- Reading bindings after more numbers moves the type variables of all of them. -/
theorem shifts_bindingsOf (recursive : Bool) (seen : List String) (ds : List Datum) :
    Shifts k (renameBound (k + ·)) (bindingsOf recursive seen ds)
      (bindingsOf recursive seen ds) := by
  match ds with
  | [] => exact .pure rfl
  | d :: ds =>
    refine .bind (shifts_bindingOf recursive d) fun ⟨decl, value⟩ => ?_
    change Shifts k _ _ (if seen.contains decl.name then _ else _)
    dsimp only
    split
    · exact .fault _ _
    · exact .bind (shifts_bindingsOf recursive _ ds) fun rest => .pure rfl

theorem shifts_bindingOf (recursive : Bool) (d : Datum) :
    Shifts k (Prod.map (Decl.rename (k + ·)) (rename (k + ·))) (bindingOf recursive d)
      (bindingOf recursive d) := by
  match d with
  | .list _ [name, value] _ =>
    refine .bind (shifts_declOf recursive name) fun decl => ?_
    exact .bind (shifts_ofDatum value) fun e => .pure rfl
  | .list _ [name, colon, ty, value] _ =>
    refine .bind (shifts_inlineDeclOf name colon ty) fun decl => ?_
    exact .bind (shifts_ofDatum value) fun e => .pure rfl
  | .list _ [] _ | .list _ [_] _ | .list _ [_, _, _] _ | .list _ (_ :: _ :: _ :: _ :: _ :: _) _
  | .atom _ | .quoted _ _ | .dotted _ _ _ _ _ => exact .fault _ _

theorem shifts_defineOf (whole : Span) (ds : List Datum) :
    Shifts k (rename (k + ·)) (defineOf whole ds) (defineOf whole ds) := by
  match ds with
  | [_, name, value] =>
    refine .bind (shifts_declOf false name) fun decl => ?_
    exact .bind (shifts_ofDatum value) fun e => .pure rfl
  | [_, name, colon, ty, value] =>
    refine .bind (shifts_inlineDeclOf name colon ty) fun decl => ?_
    exact .bind (shifts_ofDatum value) fun e => .pure rfl
  | [] | [_] | [_, _] | [_, _, _, _] | _ :: _ :: _ :: _ :: _ :: _ :: _ => exact .fault _ _

end

end Expr

/-! ## Renaming twice -/

section Twice

variable (ρ ρ' : Nat → Nat)

/-- Renaming twice is renaming once, by the composition. -/
theorem Ty.rename_rename (t : Ty) : (t.rename ρ).rename ρ' = t.rename (ρ' ∘ ρ) :=
  Ty.bind_bind _ _ t

theorem Decl.rename_rename (d : Decl) : (d.rename ρ).rename ρ' = d.rename (ρ' ∘ ρ) := by
  obtain ⟨token, ty?, span⟩ := d
  cases ty? with
  | none => rfl
  | some t => simp only [Decl.rename, Option.map_some, Ty.rename_rename]

theorem Param.map_rename_rename (ps : List Param) :
    (ps.map (Param.rename ρ)).map (Param.rename ρ') = ps.map (Param.rename (ρ' ∘ ρ)) := by
  rw [List.map_map]
  exact List.map_congr_left fun p _ => by simp [Param.rename, Ty.rename_rename]

namespace Expr

mutual

/-- Renaming the type variables of an expression twice is renaming them once. -/
theorem rename_rename (e : Expr) : (e.rename ρ).rename ρ' = e.rename (ρ' ∘ ρ) := by
  cases e with
  | missing | number | boolean | string | quoted | primitive | var => rfl
  | cond s a b c => simp only [rename, rename_rename a, rename_rename b, rename_rename c]
  | lambda s params result body =>
    simp only [rename, Param.map_rename_rename, Ty.rename_rename, renameAll_renameAll body]
  | app s f es => simp only [rename, rename_rename f, renameAll_renameAll es]
  | letin s bs body => simp only [rename, renameBound_renameBound bs, renameAll_renameAll body]
  | letrec s bs body => simp only [rename, renameBound_renameBound bs, renameAll_renameAll body]
  | define s d v => simp only [rename, Decl.rename_rename, rename_rename v]
  | program forms => simp only [rename, renameAll_renameAll forms]

/-- Renaming the type variables of expressions twice is renaming them once. -/
theorem renameAll_renameAll (es : List Expr) :
    renameAll ρ' (renameAll ρ es) = renameAll (ρ' ∘ ρ) es := by
  match es with
  | [] => rfl
  | e :: es => rw [renameAll, renameAll, renameAll, rename_rename e, renameAll_renameAll es]

theorem renameBound_renameBound (bs : List (Decl × Expr)) :
    renameBound ρ' (renameBound ρ bs) = renameBound (ρ' ∘ ρ) bs := by
  match bs with
  | [] => rfl
  | (d, v) :: rest =>
    rw [renameBound, renameBound, renameBound, Decl.rename_rename, rename_rename v,
      renameBound_renameBound rest]

end

end Expr

end Twice

/-- Two moves of the numbers of an expression differ by a renaming that keeps its type variables
apart. -/
theorem Expr.exists_rename_add (e : Expr) (m₁ m₂ : Nat) :
    ∃ ρ : Nat → Nat, Set.InjOn ρ {x | x ∈ (e.rename (m₁ + ·)).typeVars} ∧
      e.rename (m₂ + ·) = (e.rename (m₁ + ·)).rename ρ := by
  refine ⟨fun x => m₂ + (x - m₁), ?_, ?_⟩
  · -- All variables of the first expression are numbered after `m₁`.
    have hafter : ∀ x ∈ (e.rename (m₁ + ·)).typeVars, m₁ ≤ x := by
      intro x hx
      rw [typeVars_rename] at hx
      obtain ⟨y, -, rfl⟩ := List.mem_map.1 hx
      exact Nat.le_add_right m₁ y
    intro x hx y hy hxy
    have := hafter x hx
    have := hafter y hy
    have hxy : m₂ + (x - m₁) = m₂ + (y - m₁) := hxy
    omega
  · rw [rename_rename]
    congr 1
    funext x
    simp

/-! ## Programs -/

namespace Program

/-- A program with its type variables renamed. -/
def rename (ρ : Nat → Nat) (p : Program) : Program := ⟨Expr.renameAll ρ p.forms⟩

/-- Parsing a text after more numbers moves its type variables. -/
theorem shifts_parse (source : String) :
    Shifts k (rename (k + ·)) (parse source) (parse source) := by
  refine .bind (.lift _) fun ds => ?_
  exact .bind (Expr.shifts_ofData (unwrap ds)) fun es => .pure rfl

/-- A text that is parsed after `k` more numbers has the same program with its type variables moved up
by `k`, or the same error. -/
theorem parse_shift (source : String) (k m : Nat) :
    (parse source).runFrom (k + m) =
      (((parse source).runFrom m).1.map (rename (k + ·)), k + ((parse source).runFrom m).2) :=
  (shifts_parse source).runFrom m

/-- Two programs are equal up to the names of their type variables. -/
def Variant (p q : Program) : Prop :=
  ∃ ρ : Nat → Nat, Set.InjOn ρ {x | x ∈ p.expr.typeVars} ∧ q = p.rename ρ

/-- Programs that differ by how far their variables have been moved are variants of each other. -/
theorem variant_rename_add (p : Program) (m₁ m₂ : Nat) :
    (p.rename (m₁ + ·)).Variant (p.rename (m₂ + ·)) := by
  obtain ⟨ρ, hρ, heq⟩ := p.expr.exists_rename_add m₁ m₂
  refine ⟨ρ, hρ, congrArg Program.mk ?_⟩
  injection heq

/-- Two outcomes of reading that are equal up to the names of type variables. -/
inductive SameReading : Except SyntaxError Program → Except SyntaxError Program → Prop
  | ok {p q : Program} : p.Variant q → SameReading (.ok p) (.ok q)
  | error (e : SyntaxError) : SameReading (.error e) (.error e)

/-- A text has programs that are equal up to the names of type variables after any two numbers, or the
same error after both. -/
theorem sameReading_parse (source : String) (m₁ m₂ : Nat) :
    SameReading ((parse source).runFrom m₁).1 ((parse source).runFrom m₂).1 := by
  rw [← Nat.add_zero m₁, ← Nat.add_zero m₂, parse_shift, parse_shift]
  cases ((parse source).runFrom 0).1 with
  | error e => exact .error e
  | ok p => exact .ok (p.variant_rename_add m₁ m₂)

end Program

end TypedScheme
