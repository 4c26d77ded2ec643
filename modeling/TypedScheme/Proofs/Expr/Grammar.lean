import TypedScheme.Expr.Parser
import TypedScheme.Proofs.Ty.Grammar
import TypedScheme.Proofs.Value.Grammar

/-!
# The grammar of expressions

What a datum must look like to be an expression, and which expression it is then, as rules beside the
parser. Only the last number given out is threaded through the rules, since every declaration forgets
the names of the type variables before it.

## What this module delivers

- `Expr.Reads k d e k'`, the grammar of expressions, with `Expr.ReadsDecl` for the three shapes of a
  declaration and `Expr.ReadsBindings` for bindings.
- `Expr.reads_of_yields` and `Expr.Reads.yields`: the parser accepts exactly what the grammar derives.
- `Expr.parse_eq_ok_iff` and `Program.parse_eq_ok_iff`, the same for texts.
-/

set_option autoImplicit false

namespace TypedScheme

open Parse

namespace Expr

/-! ## The rules -/

/-- A token that may be declared: a symbol that is no keyword. -/
def IsName (t : Token) : Prop := t.kind = .symbol ∧ Keyword.ofName? t.text = none

/-- A datum is a declaration `(name : type)`. -/
inductive ReadsParam : Numbering → Datum → Param → Numbering → Prop
  | mk {n n' : Numbering} {left token right : Token} {colon ty : Datum} {t : Ty} :
      IsName token → colon.isColon → Ty.Spelled n ty t n' →
      ReadsParam n (.list left [.atom token, colon, ty] right) ⟨token, t, token.span.cover right.span⟩ n'

/-- Data are parameters whose names differ from each other and from those seen before. -/
inductive ReadsParams : List String → Numbering → List Datum → List Param → Numbering → Prop
  | nil {seen : List String} {n : Numbering} : ReadsParams seen n [] [] n
  | cons {seen : List String} {n n₁ n₂ : Numbering} {d : Datum} {ds : List Datum} {p : Param}
      {ps : List Param} :
      ReadsParam n d p n₁ → p.name ∉ seen → ReadsParams (p.name :: seen) n₁ ds ps n₂ →
      ReadsParams seen n (d :: ds) (p :: ps) n₂

/-- Data are the declaration of a binding: a bare name where types may be left out, a declaration in
parentheses, or one without. -/
inductive ReadsDecl : Bool → Nat → List Datum → Decl → Nat → Prop
  | bare {k : Nat} {token : Token} :
      IsName token → ReadsDecl true k [.atom token] ⟨token, none, token.span⟩ k
  | enclosed {untyped : Bool} {k : Nat} {d : Datum} {p : Param} {n : Numbering} :
      ReadsParam ⟨k, []⟩ d p n → ReadsDecl untyped k [d] p.decl n.last
  | inline {untyped : Bool} {k : Nat} {token : Token} {colon ty : Datum} {t : Ty} {n : Numbering} :
      IsName token → colon.isColon → Ty.Spelled ⟨k, []⟩ ty t n →
      ReadsDecl untyped k [.atom token, colon, ty] ⟨token, some t, token.span.cover ty.span⟩ n.last

/-- A token is an expression by itself. -/
inductive ReadsAtom : Token → Expr → Prop
  | number {t : Token} {n : Binary64} :
      t.kind = .number → Numeral.read? t.text = some n → ReadsAtom t (.number t n)
  | boolean {t : Token} : t.kind = .boolean → ReadsAtom t (.boolean t (Token.booleanValue t.text))
  | string {t : Token} {s : Text.Pieces} :
      t.kind = .string → Text.Quoted.decode? t.text = some s → ReadsAtom t (.string t s)
  | primitive {t : Token} : t.kind = .symbol → isPrimitive t.text → ReadsAtom t (.primitive t)
  | var {t : Token} : IsName t → ¬ isPrimitive t.text → ReadsAtom t (.var t)

mutual

/-- A datum is an expression. -/
inductive Reads : Nat → Datum → Expr → Nat → Prop
  | atom {k : Nat} {t : Token} {e : Expr} : ReadsAtom t e → Reads k (.atom t) e k
  | quoted {k : Nat} {mark : Token} {d : Datum} {v : Value} :
      Value.Denoted d v →
      Reads k (.quoted mark d) (.quoted mark v (mark.span.cover d.span)) k
  | quoteForm {k : Nat} {left mark right : Token} {d : Datum} {v : Value} :
      headKeyword? [.atom mark] = some .quote → Value.Denoted d v →
      Reads k (.list left [.atom mark, d] right) (.quoted mark v (mark.span.cover right.span)) k
  | cond {k k₁ k₂ k₃ : Nat} {left right : Token} {head a b c : Datum}
      {test consequent alternative : Expr} :
      headKeyword? [head] = some .cond → Reads k a test k₁ → Reads k₁ b consequent k₂ →
      Reads k₂ c alternative k₃ →
      Reads k (.list left [head, a, b, c] right)
        (.cond (left.span.cover right.span) test consequent alternative) k₃
  | lambda {k k' : Nat} {n₁ n₂ : Numbering} {left right open_ close : Token}
      {head colon ty : Datum} {ds body : List Datum} {params : List Param} {result : Ty}
      {es : List Expr} :
      headKeyword? [head] = some .lambda → colon.isColon →
      ReadsParams [] ⟨k, []⟩ ds params n₁ → Ty.Spelled n₁ ty result n₂ →
      ReadsAll n₂.last body es k' →
      Reads k (.list left (head :: .list open_ ds close :: colon :: ty :: body) right)
        (.lambda (left.span.cover right.span) params result es) k'
  | app {k k₁ k₂ : Nat} {left right : Token} {d : Datum} {ds : List Datum} {operator : Expr}
      {operands : List Expr} :
      headKeyword? [d] = none → Reads k d operator k₁ → ReadsAll k₁ ds operands k₂ →
      Reads k (.list left (d :: ds) right) (.app (left.span.cover right.span) operator operands) k₂
  | letForm {recursive : Bool} {k k₁ k₂ : Nat} {left right open_ close : Token} {head : Datum}
      {ds body : List Datum} {bindings : List (Decl × Expr)} {es : List Expr} :
      headKeyword? [head] = some (keywordOf recursive) →
      ReadsBindings recursive [] k ds bindings k₁ → ReadsAll k₁ body es k₂ →
      Reads k (.list left (head :: .list open_ ds close :: body) right)
        (if recursive then .letrec (left.span.cover right.span) bindings es
          else .letin (left.span.cover right.span) bindings es) k₂
  | define {k k₁ k₂ : Nat} {left right : Token} {head d : Datum} {ds : List Datum} {decl : Decl}
      {value : Expr} :
      headKeyword? [head] = some .define → ReadsDecl false k ds decl k₁ → Reads k₁ d value k₂ →
      Reads k (.list left (head :: (ds ++ [d])) right)
        (.define (left.span.cover right.span) decl value) k₂

/-- Data are expressions, one by one. -/
inductive ReadsAll : Nat → List Datum → List Expr → Nat → Prop
  | nil {k : Nat} : ReadsAll k [] [] k
  | cons {k k₁ k₂ : Nat} {d : Datum} {ds : List Datum} {e : Expr} {es : List Expr} :
      Reads k d e k₁ → ReadsAll k₁ ds es k₂ → ReadsAll k (d :: ds) (e :: es) k₂

/-- Data are bindings whose names differ from each other and from those seen before. -/
inductive ReadsBindings : Bool → List String → Nat → List Datum → List (Decl × Expr) → Nat → Prop
  | nil {recursive : Bool} {seen : List String} {k : Nat} : ReadsBindings recursive seen k [] [] k
  | cons {recursive : Bool} {seen : List String} {k k₁ k₂ k₃ : Nat} {left right : Token} {d : Datum}
      {ds rest : List Datum} {decl : Decl} {value : Expr} {bindings : List (Decl × Expr)} :
      ReadsDecl recursive k ds decl k₁ → Reads k₁ d value k₂ → decl.name ∉ seen →
      ReadsBindings recursive (decl.name :: seen) k₂ rest bindings k₃ →
      ReadsBindings recursive seen k (.list left (ds ++ [d]) right :: rest)
        ((decl, value) :: bindings) k₃

end

/-! ## Declarations and atoms -/

variable {n n' : Numbering}

/-- A datum is read as a name exactly if it is an atom that may be one. -/
theorem yields_nameOf_iff {d : Datum} {token : Token} :
    Yields (nameOf d) n token n' ↔ d = .atom token ∧ IsName token ∧ n' = n := by
  cases d with
  | atom t =>
    rw [nameOf]
    split
    · next hkind =>
      -- A symbol is a name unless it is a keyword.
      split
      · next hkeyword =>
        refine ⟨fun h => absurd h (not_yields_fault _ _ _), ?_⟩
        rintro ⟨h, ⟨-, hnone⟩, -⟩
        cases h
        simp [hkeyword] at hnone
      · next hkeyword =>
        rw [yields_pure]
        constructor
        · rintro ⟨rfl, rfl⟩
          exact ⟨rfl, ⟨hkind, hkeyword⟩, rfl⟩
        · rintro ⟨h, -, rfl⟩
          cases h
          exact ⟨rfl, rfl⟩
    · next hkind =>
      refine ⟨fun h => absurd h (not_yields_fault _ _ _), ?_⟩
      rintro ⟨h, ⟨hsymbol, -⟩, -⟩
      cases h
      exact absurd hsymbol hkind
  | quoted | list | dotted =>
    exact ⟨fun h => absurd h (not_yields_fault _ _ _), fun h => by cases h.1⟩

theorem yields_typedName_iff {name colon ty : Datum} {stop : Span} {p : Param} :
    Yields (typedName name colon ty stop) n p n' ↔
      ∃ token t, name = .atom token ∧ IsName token ∧ colon.isColon ∧ Ty.Spelled n ty t n' ∧
        p = ⟨token, t, token.span.cover stop⟩ := by
  simp only [typedName, yields_bind, yields_nameOf_iff]
  split
  · next hcolon =>
    simp only [yields_bind, Ty.yields_ofDatum_iff, yields_pure]
    constructor
    · rintro ⟨token, _, ⟨rfl, hname, rfl⟩, t, _, ht, rfl, rfl⟩
      exact ⟨token, t, rfl, hname, hcolon, ht, rfl⟩
    · rintro ⟨token, t, rfl, hname, -, ht, rfl⟩
      exact ⟨token, n, ⟨rfl, hname, rfl⟩, t, n', ht, rfl, rfl⟩
  · next hcolon =>
    constructor
    · rintro ⟨_, _, _, h⟩
      exact absurd h (not_yields_fault _ _ _)
    · rintro ⟨_, _, _, _, h, _⟩
      exact absurd h hcolon

/-- A parameter is read exactly by the grammar. -/
theorem yields_paramOf_iff {d : Datum} {p : Param} :
    Yields (paramOf d) n p n' ↔ ReadsParam n d p n' := by
  unfold paramOf
  split
  · rw [yields_typedName_iff]
    constructor
    · rintro ⟨token, t, rfl, hname, hcolon, ht, rfl⟩
      exact .mk hname hcolon ht
    · intro h
      cases h with
      | mk hname hcolon ht => exact ⟨_, _, rfl, hname, hcolon, ht, rfl⟩
  · refine ⟨fun h => ?_, fun h => by cases h⟩
    obtain ⟨_, _, _, h⟩ := yields_bind.1 h
    exact absurd h (not_yields_fault _ _ _)
  · next hlist _ =>
    refine ⟨fun h => absurd h (not_yields_fault _ _ _), fun h => ?_⟩
    cases h with
    | mk => exact absurd rfl (hlist _ _ _ _ _)

/-- Parameters are read exactly by the grammar. -/
theorem yields_paramsOf_iff {seen : List String} {ds : List Datum} {ps : List Param} :
    Yields (paramsOf seen ds) n ps n' ↔ ReadsParams seen n ds ps n' := by
  induction ds generalizing seen n n' ps with
  | nil =>
    rw [paramsOf, yields_pure]
    constructor
    · rintro ⟨rfl, rfl⟩
      exact .nil
    · intro h
      cases h
      exact ⟨rfl, rfl⟩
  | cons d ds ih =>
    rw [paramsOf]
    simp only [yields_bind, yields_paramOf_iff]
    constructor
    · rintro ⟨p, n₁, hp, h⟩
      -- A name that was seen before is refused, as the grammar demands.
      split at h
      · exact absurd h (not_yields_fault _ _ _)
      · next hseen =>
        simp only [yields_bind, yields_pure, ih] at h
        obtain ⟨ps, _, hps, rfl, rfl⟩ := h
        exact .cons hp (by simpa using hseen) hps
    · intro h
      cases h with
      | cons hp hseen hps =>
        refine ⟨_, _, hp, ?_⟩
        rw [if_neg (by simpa using hseen)]
        simp only [yields_bind, yields_pure, ih]
        exact ⟨_, _, hps, rfl, rfl⟩

/-- A declaration is read in the same way after any names. -/
theorem ReadsDecl.yields_declOf {untyped : Bool} {k k' : Nat} {d : Datum} {decl : Decl}
    (h : ReadsDecl untyped k [d] decl k') (names : List (String × Nat)) :
    ∃ names', Yields (declOf untyped d) ⟨k, names⟩ decl ⟨k', names'⟩ := by
  cases h with
  | bare hname =>
    refine ⟨[], ?_⟩
    simp only [declOf, yields_bind, yields_forgetNames, yields_nameOf_iff, yields_pure]
    exact ⟨(), _, rfl, _, _, ⟨rfl, hname, rfl⟩, rfl, rfl⟩
  | @enclosed _ _ _ p n hp =>
    refine ⟨n.names, yields_bind.2 ⟨(), _, yields_forgetNames.2 rfl, ?_⟩⟩
    cases hp with
    | mk hname hcolon ht =>
      cases untyped <;>
        exact yields_bind.2
          ⟨_, _, yields_paramOf_iff.2 (.mk hname hcolon ht), yields_pure.2 ⟨rfl, rfl⟩⟩

/-- A declaration in parentheses is read by the grammar. -/
theorem readsDecl_of_yields_declOf {untyped : Bool} {d : Datum} {decl : Decl}
    (h : Yields (declOf untyped d) n decl n') : ReadsDecl untyped n.last [d] decl n'.last := by
  obtain ⟨_, _, hforget, h⟩ := yields_bind.1 h
  obtain rfl := yields_forgetNames.1 hforget
  split at h
  · simp only [yields_bind, yields_nameOf_iff, yields_pure] at h
    obtain ⟨token, _, ⟨hd, hname, rfl⟩, rfl, rfl⟩ := h
    rw [hd]
    exact .bare hname
  · simp only [yields_bind, yields_paramOf_iff, yields_pure] at h
    obtain ⟨p, _, hp, rfl, rfl⟩ := h
    exact .enclosed hp

/-- A declaration without parentheses of its own is read as the grammar says. -/
theorem ReadsDecl.yields_inlineDeclOf {untyped : Bool} {k k' : Nat} {name colon ty : Datum}
    {decl : Decl} (h : ReadsDecl untyped k [name, colon, ty] decl k') (names : List (String × Nat)) :
    ∃ names', Yields (inlineDeclOf name colon ty) ⟨k, names⟩ decl ⟨k', names'⟩ := by
  cases h with
  | @inline _ _ _ _ _ _ n hname hcolon ht =>
    refine ⟨n.names, yields_bind.2 ⟨(), _, yields_forgetNames.2 rfl, ?_⟩⟩
    refine yields_bind.2 ⟨_, _, yields_typedName_iff.2 ⟨_, _, rfl, hname, hcolon, ht, rfl⟩, ?_⟩
    exact yields_pure.2 ⟨rfl, rfl⟩

theorem readsDecl_of_yields_inlineDeclOf (untyped : Bool) {name colon ty : Datum} {decl : Decl}
    (h : Yields (inlineDeclOf name colon ty) n decl n') :
    ReadsDecl untyped n.last [name, colon, ty] decl n'.last := by
  simp only [inlineDeclOf, yields_bind, yields_forgetNames, yields_typedName_iff, yields_pure] at h
  obtain ⟨_, _, rfl, _, _, ⟨token, t, rfl, hname, hcolon, ht, rfl⟩, rfl, rfl⟩ := h
  exact .inline hname hcolon ht

/-- An atom is read exactly by the grammar, without any number. -/
theorem yields_ofToken_iff {t : Token} {e : Expr} :
    Yields (ofToken t) n e n' ↔ ReadsAtom t e ∧ n' = n := by
  constructor
  · intro h
    unfold ofToken at h
    split at h
    · next hkind =>
      simp only [yields_bind, yields_lift, yields_pure] at h
      obtain ⟨b, _, ⟨hb, rfl⟩, rfl, rfl⟩ := h
      exact ⟨.number hkind (Token.numberValue_eq_ok_iff.1 hb), rfl⟩
    · next hkind =>
      obtain ⟨rfl, rfl⟩ := yields_pure.1 h
      exact ⟨.boolean hkind, rfl⟩
    · next hkind =>
      simp only [yields_bind, yields_lift, yields_pure] at h
      obtain ⟨s, _, ⟨hs, rfl⟩, rfl, rfl⟩ := h
      exact ⟨.string hkind (Token.stringValue_eq_ok_iff.1 hs), rfl⟩
    · next hkind =>
      -- Primitives are looked for first, so no variable has the name of one.
      split at h
      · next hprimitive =>
        obtain ⟨rfl, rfl⟩ := yields_pure.1 h
        exact ⟨.primitive hkind hprimitive, rfl⟩
      · next hprimitive =>
        split at h
        · exact absurd h (not_yields_fault _ _ _)
        · next hkeyword =>
          obtain ⟨rfl, rfl⟩ := yields_pure.1 h
          exact ⟨.var ⟨hkind, hkeyword⟩ hprimitive, rfl⟩
    · exact absurd h (not_yields_fault _ _ _)
    · exact absurd h (not_yields_fault _ _ _)
  · rintro ⟨h, rfl⟩
    cases h with
    | number hkind hb => simp [ofToken, hkind, Token.numberValue_eq_ok_iff.2 hb]
    | boolean hkind => simp [ofToken, hkind]
    | string hkind hs => simp [ofToken, hkind, Token.stringValue_eq_ok_iff.2 hs]
    | primitive hkind hprimitive => simp [ofToken, hkind, hprimitive]
    | var hname hprimitive => simp [ofToken, hname.1, hname.2, hprimitive]

/-! ## What the parser accepts is derived -/

/-- The keyword of a list is that of its first element. -/
theorem headKeyword?_cons (d : Datum) (ds : List Datum) :
    headKeyword? (d :: ds) = headKeyword? [d] := by
  cases d <;> rfl

mutual

/-- An expression that is read is derived. -/
theorem reads_of_yields {n n' : Numbering} {d : Datum} {e : Expr} (h : Yields (ofDatum d) n e n') :
    Reads n.last d e n'.last := by
  match d with
  | .atom t =>
    rw [ofDatum, yields_ofToken_iff] at h
    obtain ⟨h, rfl⟩ := h
    exact .atom h
  | .quoted mark d =>
    simp only [ofDatum, quoteOf, yields_bind, yields_lift, yields_pure] at h
    obtain ⟨v, _, ⟨hv, rfl⟩, rfl, rfl⟩ := h
    exact .quoted (Value.denoted_of_ofDatum hv)
  | .dotted left ds dot tail right =>
    rw [ofDatum] at h
    exact absurd h (not_yields_fault _ _ _)
  | .list left ds right =>
    rw [ofDatum] at h
    split at h
    · next hhead => exact reads_of_condOf hhead h
    · next hhead => exact reads_of_lambdaOf hhead h
    · next hhead => exact reads_of_letOf false hhead h
    · next hhead => exact reads_of_letOf true hhead h
    · next hhead => exact reads_of_defineOf hhead h
    · next hhead =>
      -- Exactly one datum may stand behind the keyword.
      unfold quoteFormOf at h
      split at h
      · simp only [quoteOf, yields_bind, yields_lift, yields_pure] at h
        obtain ⟨v, _, ⟨hv, rfl⟩, rfl, rfl⟩ := h
        rw [headKeyword?_cons] at hhead
        exact .quoteForm hhead (Value.denoted_of_ofDatum hv)
      · exact absurd h (not_yields_fault _ _ _)
    · next hhead => exact reads_of_appOf hhead h

theorem readsAll_of_yields {n n' : Numbering} {ds : List Datum} {es : List Expr}
    (h : Yields (ofData ds) n es n') : ReadsAll n.last ds es n'.last := by
  match ds with
  | [] =>
    obtain ⟨rfl, rfl⟩ := yields_pure.1 h
    exact .nil
  | d :: ds =>
    simp only [ofData, yields_bind, yields_pure] at h
    obtain ⟨e, _, he, es, _, hes, rfl, rfl⟩ := h
    exact .cons (reads_of_yields he) (readsAll_of_yields hes)

/-- What is read as a conditional is one by the grammar. -/
theorem reads_of_condOf {n n' : Numbering} {left right : Token} {ds : List Datum} {e : Expr}
    (hhead : headKeyword? ds = some .cond)
    (h : Yields (condOf (left.span.cover right.span) ds) n e n') :
    Reads n.last (.list left ds right) e n'.last := by
  match ds with
  | [head, a, b, c] =>
    simp only [condOf, yields_bind, yields_pure] at h
    obtain ⟨test, _, ha, consequent, _, hb, alternative, _, hc, rfl, rfl⟩ := h
    rw [headKeyword?_cons] at hhead
    exact .cond hhead (reads_of_yields ha) (reads_of_yields hb) (reads_of_yields hc)
  | [] | [_] | [_, _] | [_, _, _] | _ :: _ :: _ :: _ :: _ :: _ =>
    exact absurd h (not_yields_fault _ _ _)

/-- What is read as a procedure is one by the grammar. -/
theorem reads_of_lambdaOf {n n' : Numbering} {left right : Token} {ds : List Datum} {e : Expr}
    (hhead : headKeyword? ds = some .lambda)
    (h : Yields (lambdaOf (left.span.cover right.span) ds) n e n') :
    Reads n.last (.list left ds right) e n'.last := by
  match ds with
  | head :: .list open_ ds close :: colon :: ty :: body =>
    rw [lambdaOf] at h
    split at h
    · next hcolon =>
      simp only [yields_bind, yields_forgetNames, yields_paramsOf_iff, Ty.yields_ofDatum_iff,
        yields_pure] at h
      obtain ⟨_, _, rfl, params, _, hparams, result, _, hresult, es, _, hes, rfl, rfl⟩ := h
      rw [headKeyword?_cons] at hhead
      exact .lambda hhead hcolon hparams hresult (readsAll_of_yields hes)
    · exact absurd h (not_yields_fault _ _ _)
  | _ :: .atom _ :: _ :: _ :: _ | _ :: .quoted _ _ :: _ :: _ :: _
  | _ :: .dotted _ _ _ _ _ :: _ :: _ :: _ | [] | [_] | [_, _] | [_, _, _] =>
    exact absurd h (not_yields_fault _ _ _)

theorem reads_of_appOf {n n' : Numbering} {left right : Token} {ds : List Datum} {e : Expr}
    (hhead : headKeyword? ds = none)
    (h : Yields (appOf (left.span.cover right.span) ds) n e n') :
    Reads n.last (.list left ds right) e n'.last := by
  match ds with
  | [] => exact absurd h (not_yields_fault _ _ _)
  | d :: ds =>
    simp only [appOf, yields_bind, yields_pure] at h
    obtain ⟨f, _, hf, es, _, hes, rfl, rfl⟩ := h
    rw [headKeyword?_cons] at hhead
    exact .app hhead (reads_of_yields hf) (readsAll_of_yields hes)

/-- What is read as a form that binds names is one by the grammar, recursive or not. -/
theorem reads_of_letOf (recursive : Bool) {n n' : Numbering} {left right : Token} {ds : List Datum}
    {e : Expr} (hhead : headKeyword? ds = some (keywordOf recursive))
    (h : Yields (letOf (left.span.cover right.span) recursive ds) n e n') :
    Reads n.last (.list left ds right) e n'.last := by
  match ds with
  | head :: .list open_ ds close :: body =>
    simp only [letOf, yields_bind, yields_pure] at h
    obtain ⟨bindings, _, hbindings, es, _, hes, rfl, rfl⟩ := h
    rw [headKeyword?_cons] at hhead
    exact .letForm hhead (readsBindings_of_yields hbindings) (readsAll_of_yields hes)
  | _ :: .atom _ :: _ | _ :: .quoted _ _ :: _ | _ :: .dotted _ _ _ _ _ :: _ | [] | [_] =>
    exact absurd h (not_yields_fault _ _ _)

/-- Bindings are read by the grammar. -/
theorem readsBindings_of_yields {recursive : Bool} {seen : List String} {n n' : Numbering}
    {ds : List Datum} {bindings : List (Decl × Expr)}
    (h : Yields (bindingsOf recursive seen ds) n bindings n') :
    ReadsBindings recursive seen n.last ds bindings n'.last := by
  match ds with
  | [] =>
    obtain ⟨rfl, rfl⟩ := yields_pure.1 h
    exact .nil
  | d :: ds =>
    rw [bindingsOf, yields_bind] at h
    obtain ⟨⟨decl, value⟩, n₁, hbinding, h⟩ := h
    obtain ⟨k, left, right, head, d, rfl, hdecl, hvalue⟩ := reads_of_bindingOf hbinding
    dsimp only at h
    split at h
    · exact absurd h (not_yields_fault _ _ _)
    · next hseen =>
      simp only [yields_bind, yields_pure] at h
      obtain ⟨rest, _, hrest, rfl, rfl⟩ := h
      exact .cons hdecl hvalue (by simpa using hseen) (readsBindings_of_yields hrest)

theorem reads_of_bindingOf {recursive : Bool} {n n' : Numbering} {d : Datum} {decl : Decl}
    {value : Expr} (h : Yields (bindingOf recursive d) n (decl, value) n') :
    ∃ k left right ds d', d = .list left (ds ++ [d']) right ∧
      ReadsDecl recursive n.last ds decl k ∧ Reads k d' value n'.last := by
  match d with
  | .list left [name, d] right =>
    simp only [bindingOf, yields_bind, yields_pure, Prod.mk.injEq] at h
    obtain ⟨decl, n₁, hdecl, value, _, hvalue, ⟨rfl, rfl⟩, rfl⟩ := h
    exact ⟨n₁.last, left, right, [name], d, rfl, readsDecl_of_yields_declOf hdecl,
      reads_of_yields hvalue⟩
  | .list left [name, colon, ty, d] right =>
    simp only [bindingOf, yields_bind, yields_pure, Prod.mk.injEq] at h
    obtain ⟨decl, n₁, hdecl, value, _, hvalue, ⟨rfl, rfl⟩, rfl⟩ := h
    exact ⟨n₁.last, left, right, [name, colon, ty], d, rfl,
      readsDecl_of_yields_inlineDeclOf _ hdecl, reads_of_yields hvalue⟩
  | .list _ [] _ | .list _ [_] _ | .list _ [_, _, _] _ | .list _ (_ :: _ :: _ :: _ :: _ :: _) _
  | .atom _ | .quoted _ _ | .dotted _ _ _ _ _ => exact absurd h (not_yields_fault _ _ _)

/-- What is read as a definition is one by the grammar. -/
theorem reads_of_defineOf {n n' : Numbering} {left right : Token} {ds : List Datum} {e : Expr}
    (hhead : headKeyword? ds = some .define)
    (h : Yields (defineOf (left.span.cover right.span) ds) n e n') :
    Reads n.last (.list left ds right) e n'.last := by
  match ds with
  | [head, name, d] =>
    simp only [defineOf, yields_bind, yields_pure] at h
    obtain ⟨decl, _, hdecl, value, _, hvalue, rfl, rfl⟩ := h
    rw [headKeyword?_cons] at hhead
    change Reads _ (.list left (head :: ([name] ++ [d])) right) _ _
    exact .define hhead (readsDecl_of_yields_declOf hdecl) (reads_of_yields hvalue)
  | [head, name, colon, ty, d] =>
    simp only [defineOf, yields_bind, yields_pure] at h
    obtain ⟨decl, _, hdecl, value, _, hvalue, rfl, rfl⟩ := h
    rw [headKeyword?_cons] at hhead
    change Reads _ (.list left (head :: ([name, colon, ty] ++ [d])) right) _ _
    exact .define hhead (readsDecl_of_yields_inlineDeclOf _ hdecl) (reads_of_yields hvalue)
  | [] | [_] | [_, _] | [_, _, _, _] | _ :: _ :: _ :: _ :: _ :: _ :: _ =>
    exact absurd h (not_yields_fault _ _ _)

end

/-! ## What is derived the parser accepts -/

/-- A list with a keyword is read by the parser of its form. -/
theorem ofDatum_of_headKeyword? {left right : Token} {head : Datum} (keyword : Keyword)
    (ds : List Datum) (h : headKeyword? [head] = some keyword) :
    ofDatum (.list left (head :: ds) right) =
      keyword.casesOn (condOf (left.span.cover right.span) (head :: ds))
        (lambdaOf (left.span.cover right.span) (head :: ds))
        (letOf (left.span.cover right.span) false (head :: ds))
        (letOf (left.span.cover right.span) true (head :: ds))
        (defineOf (left.span.cover right.span) (head :: ds))
        (quoteFormOf (left.span.cover right.span) right.span (head :: ds)) := by
  rw [ofDatum, headKeyword?_cons, h]
  cases keyword <;> rfl

theorem ofDatum_letForm {recursive : Bool} {left right : Token} {head : Datum} (ds : List Datum)
    (h : headKeyword? [head] = some (keywordOf recursive)) :
    ofDatum (.list left (head :: ds) right) =
      letOf (left.span.cover right.span) recursive (head :: ds) := by
  rw [ofDatum_of_headKeyword? _ ds h]
  cases recursive <;> rfl

/-- The declaration of a binding or a definition is one datum or three. -/
theorem ReadsDecl.shape {untyped : Bool} {k k' : Nat} {ds : List Datum} {decl : Decl}
    (h : ReadsDecl untyped k ds decl k') :
    (∃ name, ds = [name]) ∨ ∃ name colon ty, ds = [name, colon, ty] := by
  cases h with
  | bare | enclosed => exact .inl ⟨_, rfl⟩
  | inline => exact .inr ⟨_, _, _, rfl⟩

mutual

/-- An expression that is derived is read, after any names. -/
theorem Reads.yields {k k' : Nat} {d : Datum} {e : Expr} (names : List (String × Nat)) :
    Reads k d e k' → ∃ names', Yields (ofDatum d) ⟨k, names⟩ e ⟨k', names'⟩
  | .atom h => by
    refine ⟨names, ?_⟩
    rw [ofDatum, yields_ofToken_iff]
    exact ⟨h, rfl⟩
  | .quoted hv => by
    refine ⟨names, ?_⟩
    simp [ofDatum, quoteOf, hv.ofDatum_eq]
  | .quoteForm hhead hv => by
    refine ⟨names, ?_⟩
    simp [ofDatum_of_headKeyword? _ _ hhead, quoteFormOf, quoteOf, hv.ofDatum_eq]
  | .cond hhead ha hb hc => by
    obtain ⟨names, ha⟩ := ha.yields names
    obtain ⟨names, hb⟩ := hb.yields names
    obtain ⟨names, hc⟩ := hc.yields names
    refine ⟨names, ?_⟩
    simp only [ofDatum_of_headKeyword? _ _ hhead, condOf, yields_bind, yields_pure]
    exact ⟨_, _, ha, _, _, hb, _, _, hc, rfl, rfl⟩
  | .lambda hhead hcolon hparams hresult hbody => by
    obtain ⟨names', hbody⟩ := hbody.yields _
    refine ⟨names', ?_⟩
    simp only [ofDatum_of_headKeyword? _ _ hhead, lambdaOf, hcolon, if_true, yields_bind,
      yields_forgetNames, yields_paramsOf_iff, Ty.yields_ofDatum_iff, yields_pure]
    exact ⟨(), _, rfl, _, _, hparams, _, _, hresult, _, _, hbody, rfl, rfl⟩
  | .app hhead hf hes => by
    obtain ⟨names, hf⟩ := hf.yields names
    obtain ⟨names, hes⟩ := hes.yields names
    refine ⟨names, ?_⟩
    rw [ofDatum, headKeyword?_cons, hhead, appOf]
    simp only [yields_bind, yields_pure]
    exact ⟨_, _, hf, _, _, hes, rfl, rfl⟩
  | .letForm hhead hbindings hbody => by
    obtain ⟨names, hbindings⟩ := hbindings.yields names
    obtain ⟨names, hbody⟩ := hbody.yields names
    refine ⟨names, ?_⟩
    simp only [ofDatum_letForm _ hhead, letOf, yields_bind, yields_pure]
    exact ⟨_, _, hbindings, _, _, hbody, rfl, rfl⟩
  | .define hhead hdecl hvalue => by
    rw [ofDatum_of_headKeyword? _ _ hhead]
    obtain ⟨name, rfl⟩ | ⟨name, colon, ty, rfl⟩ := hdecl.shape
    · obtain ⟨names, hdecl⟩ := hdecl.yields_declOf names
      obtain ⟨names, hvalue⟩ := hvalue.yields names
      refine ⟨names, ?_⟩
      simp only [List.cons_append, List.nil_append, defineOf, yields_bind, yields_pure]
      exact ⟨_, _, hdecl, _, _, hvalue, rfl, rfl⟩
    · obtain ⟨names, hdecl⟩ := hdecl.yields_inlineDeclOf names
      obtain ⟨names, hvalue⟩ := hvalue.yields names
      refine ⟨names, ?_⟩
      simp only [List.cons_append, List.nil_append, defineOf, yields_bind, yields_pure]
      exact ⟨_, _, hdecl, _, _, hvalue, rfl, rfl⟩

theorem ReadsAll.yields {k k' : Nat} {ds : List Datum} {es : List Expr}
    (names : List (String × Nat)) :
    ReadsAll k ds es k' → ∃ names', Yields (ofData ds) ⟨k, names⟩ es ⟨k', names'⟩
  | .nil => ⟨names, yields_pure.2 ⟨rfl, rfl⟩⟩
  | .cons he hes => by
    obtain ⟨names, he⟩ := he.yields names
    obtain ⟨names, hes⟩ := hes.yields names
    refine ⟨names, ?_⟩
    simp only [ofData, yields_bind, yields_pure]
    exact ⟨_, _, he, _, _, hes, rfl, rfl⟩

theorem ReadsBindings.yields {recursive : Bool} {seen : List String} {k k' : Nat} {ds : List Datum}
    {bindings : List (Decl × Expr)} (names : List (String × Nat)) :
    ReadsBindings recursive seen k ds bindings k' →
      ∃ names', Yields (bindingsOf recursive seen ds) ⟨k, names⟩ bindings ⟨k', names'⟩
  | .nil => ⟨names, yields_pure.2 ⟨rfl, rfl⟩⟩
  | @ReadsBindings.cons _ _ _ _ k₂ _ left right d ds _ decl value _ hdecl hvalue hseen hrest => by
    have hbinding : ∃ names', Yields (bindingOf recursive (.list left (ds ++ [d]) right)) ⟨k, names⟩
        (decl, value) ⟨k₂, names'⟩ := by
      obtain ⟨name, rfl⟩ | ⟨name, colon, ty, rfl⟩ := hdecl.shape
      · obtain ⟨names, hdecl⟩ := hdecl.yields_declOf names
        obtain ⟨names, hvalue⟩ := hvalue.yields names
        refine ⟨names, ?_⟩
        simp only [List.cons_append, List.nil_append, bindingOf, yields_bind, yields_pure]
        exact ⟨_, _, hdecl, _, _, hvalue, rfl, rfl⟩
      · obtain ⟨names, hdecl⟩ := hdecl.yields_inlineDeclOf names
        obtain ⟨names, hvalue⟩ := hvalue.yields names
        refine ⟨names, ?_⟩
        simp only [List.cons_append, List.nil_append, bindingOf, yields_bind, yields_pure]
        exact ⟨_, _, hdecl, _, _, hvalue, rfl, rfl⟩
    obtain ⟨names, hbinding⟩ := hbinding
    obtain ⟨names, hrest⟩ := hrest.yields names
    refine ⟨names, ?_⟩
    rw [bindingsOf, yields_bind]
    refine ⟨_, _, hbinding, ?_⟩
    dsimp only
    rw [if_neg (by simpa using hseen)]
    simp only [yields_bind, yields_pure]
    exact ⟨_, _, hrest, rfl, rfl⟩

end

/-! ## Texts -/

/-- A text is an expression exactly when it is one datum that the grammar derives. -/
theorem parse_eq_ok_iff {source : String} {k k' : Nat} {e : Expr} :
    (parse source).runFrom k = (.ok e, k') ↔
      ∃ d, Datum.readAll source = .ok [d] ∧ Reads k d e k' := by
  simp only [runFrom_eq_ok_iff, parse, yields_bind, yields_lift]
  constructor
  · rintro ⟨names, ds, _, ⟨hds, rfl⟩, h⟩
    match ds with
    | [d] => exact ⟨d, hds, reads_of_yields h⟩
    | [] | _ :: _ :: _ => exact absurd h (not_yields_fault _ _ _)
  · rintro ⟨d, hd, h⟩
    obtain ⟨names, h⟩ := h.yields []
    exact ⟨names, [d], _, ⟨hd, rfl⟩, h⟩

end Expr

/-- A text is a program exactly when the grammar derives each of its forms. -/
theorem Program.parse_eq_ok_iff {source : String} {k k' : Nat} {p : Program} :
    (parse source).runFrom k = (.ok p, k') ↔
      ∃ ds, Datum.readAll source = .ok ds ∧ Expr.ReadsAll k (unwrap ds) p.forms k' := by
  simp only [runFrom_eq_ok_iff, parse, ofData, yields_bind, yields_lift, yields_pure]
  constructor
  · rintro ⟨names, ds, _, ⟨hds, rfl⟩, es, _, hes, rfl, rfl⟩
    exact ⟨ds, hds, Expr.readsAll_of_yields hes⟩
  · rintro ⟨ds, hds, h⟩
    obtain ⟨names, h⟩ := h.yields []
    exact ⟨names, ds, _, ⟨hds, rfl⟩, p.forms, _, h, rfl, rfl⟩

end TypedScheme
