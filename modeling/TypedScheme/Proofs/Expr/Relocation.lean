import TypedScheme.Proofs.Expr.Grammar
import TypedScheme.Proofs.Token.Lexemes

/-!
# Moving a text

What becomes of tokens, data and expressions when the text they are read from is moved to another
place. Their places are moved and all else stays: a move keeps the order of places, and that is all
that reading and parsing ask of them when they cover several places by one.

## What this module delivers

- `Relocation`, a move of places that keeps their order, and `relocate` for spans, tokens, data and
  expressions.
- `Relocation.Rebases r p q`: the move `r` takes a text at `p` to the same text at `q`, with
  `Token.significantAt_of_rebases`: the tokens of the text there.
- `Ty.Spelled.relocate`, `Value.Denoted.relocate` and `Expr.Reads.relocate`: a moved datum is the same
  type and the same value, and the moved expression.
-/

set_option autoImplicit false

namespace TypedScheme

/-- A move of places that keeps their order and leaves absent places absent. -/
structure Relocation where
  move : Position → Position
  column_eq_zero_iff : ∀ p, (move p).column = 0 ↔ p.column = 0
  offset_lt_iff : ∀ p q, (move p).offset < (move q).offset ↔ p.offset < q.offset

/-! ## Moved places -/

/-- A span with both of its ends moved. -/
def Span.relocate (r : Relocation) (s : Span) : Span := ⟨r.move s.first, r.move s.last⟩

/-- A token at a moved place. -/
def Token.relocate (r : Relocation) (t : Token) : Token := { t with span := t.span.relocate r }

namespace Datum

mutual

/-- A datum with all its tokens moved. -/
def relocate (r : Relocation) : Datum → Datum
  | atom t => atom (t.relocate r)
  | quoted mark d => quoted (mark.relocate r) (relocate r d)
  | list left ds right => list (left.relocate r) (relocateAll r ds) (right.relocate r)
  | dotted left ds dot tail right =>
    dotted (left.relocate r) (relocateAll r ds) (dot.relocate r) (relocate r tail) (right.relocate r)

/-- Data with all their tokens moved. -/
def relocateAll (r : Relocation) : List Datum → List Datum
  | [] => []
  | d :: ds => relocate r d :: relocateAll r ds

end

end Datum

/-- A parameter at a moved place. -/
def Param.relocate (r : Relocation) (p : Param) : Param :=
  ⟨p.token.relocate r, p.ty, p.span.relocate r⟩

/-- A declaration at a moved place. -/
def Decl.relocate (r : Relocation) (d : Decl) : Decl :=
  ⟨d.token.relocate r, d.ty?, d.span.relocate r⟩

namespace Expr

mutual

/-- An expression with all its places moved. -/
def relocate (r : Relocation) : Expr → Expr
  | missing => missing
  | number t v => number (t.relocate r) v
  | boolean t v => boolean (t.relocate r) v
  | string t v => string (t.relocate r) v
  | quoted t v s => quoted (t.relocate r) v (s.relocate r)
  | primitive t => primitive (t.relocate r)
  | var t => var (t.relocate r)
  | cond s test consequent alternative =>
    cond (s.relocate r) (relocate r test) (relocate r consequent) (relocate r alternative)
  | lambda s params result body =>
    lambda (s.relocate r) (params.map (Param.relocate r)) result (relocateAll r body)
  | app s operator operands => app (s.relocate r) (relocate r operator) (relocateAll r operands)
  | letin s bindings body => letin (s.relocate r) (relocateBound r bindings) (relocateAll r body)
  | letrec s bindings body => letrec (s.relocate r) (relocateBound r bindings) (relocateAll r body)
  | define s decl value => define (s.relocate r) (decl.relocate r) (relocate r value)
  | program forms => program (relocateAll r forms)

/-- Expressions with all their places moved. -/
def relocateAll (r : Relocation) : List Expr → List Expr
  | [] => []
  | e :: es => relocate r e :: relocateAll r es

/-- Bindings with all their places moved. -/
def relocateBound (r : Relocation) : List (Decl × Expr) → List (Decl × Expr)
  | [] => []
  | (decl, value) :: rest => (decl.relocate r, relocate r value) :: relocateBound r rest

end

end Expr

variable {r : Relocation}

/-! ## Covering places -/

/-- Moving positions keeps which is earlier, absent or not. -/
theorem Position.earlier_move (p q : Position) :
    (r.move p).earlier (r.move q) = r.move (p.earlier q) := by
  simp only [earlier, r.column_eq_zero_iff, r.offset_lt_iff, apply_ite r.move]

theorem Position.later_move (p q : Position) :
    (r.move p).later (r.move q) = r.move (p.later q) := by
  simp only [later, r.column_eq_zero_iff, gt_iff_lt, r.offset_lt_iff, apply_ite r.move]

/-- Two moved spans are covered by the moved cover of the two. -/
theorem Span.cover_relocate (a b : Span) :
    (a.relocate r).cover (b.relocate r) = (a.cover b).relocate r := by
  simp only [cover, relocate, Position.earlier_move, Position.later_move]

/-! ## Tokens -/

/-- A move takes every text that starts at `p` to the same text at `q`. -/
def Relocation.Rebases (r : Relocation) (p q : Position) : Prop :=
  ∀ cs, r.move (p.after cs) = q.after cs

/-- A move from one place to another moves what follows the two. -/
theorem Relocation.Rebases.after {p q : Position} (h : r.Rebases p q) (cs : List Char) :
    r.Rebases (p.after cs) (q.after cs) := by
  intro ds
  rw [← Position.after_append, ← Position.after_append]
  exact h (cs ++ ds)

/-- A lexeme at the new place is its token at the old one, moved. -/
theorem Lexeme.token_of_rebases {p q : Position} (h : r.Rebases p q) (l : Lexeme) :
    l.token q = (l.token p).relocate r := by
  have hfirst : r.move p = q := h []
  simp only [token, span, Token.relocate, Span.relocate, hfirst, h _]

/-- The tokens of a text at another place are those of the text, moved. -/
theorem Token.significantAt_of_rebases {p q : Position} (h : r.Rebases p q) (cs : List Char) :
    significantAt q cs = (significantAt p cs).map (Token.relocate r) := by
  by_cases hcs : cs = []
  · simp [hcs]
  · -- The induction is on the number of characters after the first lexeme.
    have ih := significantAt_of_rebases (h.after (Lexeme.next cs).1.covers) (Lexeme.next cs).2
    rw [significantAt_of_ne_nil _ hcs, significantAt_of_ne_nil _ hcs, ih,
      Lexeme.token_of_rebases h, List.map_append]
    split
    · rfl
    · rfl
termination_by cs.length
decreasing_by exact Lexeme.length_rest_lt hcs

/-- The tokens of a text at a moved place are those of the text, moved. -/
theorem Token.significantAt_relocate (hstep : ∀ p c, r.move (p.step c) = (r.move p).step c)
    (p : Position) (cs : List Char) :
    significantAt (r.move p) cs = (significantAt p cs).map (Token.relocate r) := by
  refine significantAt_of_rebases (fun ds => ?_) cs
  induction ds generalizing p with
  | nil => rfl
  | cons d ds ih =>
    change r.move ((p.step d).after ds) = ((r.move p).step d).after ds
    rw [ih, hstep]

/-! ## Data -/

namespace Datum

theorem relocateAll_eq_map (ds : List Datum) : relocateAll r ds = ds.map (relocate r) := by
  induction ds with
  | nil => rfl
  | cons d ds ih => rw [relocateAll, ih, List.map_cons]

@[simp] theorem relocateAll_append (ds es : List Datum) :
    relocateAll r (ds ++ es) = relocateAll r ds ++ relocateAll r es := by
  simp only [relocateAll_eq_map, List.map_append]

mutual

/-- A move keeps the kinds of tokens and with them the shape of a datum. -/
theorem wellFormed_relocate (d : Datum) : (d.relocate r).WellFormed ↔ d.WellFormed := by
  cases d with
  | atom t => rfl
  | quoted mark d => exact and_congr Iff.rfl (wellFormed_relocate d)
  | list left ds right => exact and_congr Iff.rfl (and_congr (allWellFormed_relocate ds) Iff.rfl)
  | dotted left ds dot tail right =>
    -- A dotted list has a datum in front of its dot, and a move keeps how many there are.
    have hne : relocateAll r ds ≠ [] ↔ ds ≠ [] := by simp [relocateAll_eq_map]
    simp only [relocate, WellFormed, hne, allWellFormed_relocate ds, wellFormed_relocate tail]
    rfl

theorem allWellFormed_relocate (ds : List Datum) :
    AllWellFormed (relocateAll r ds) ↔ AllWellFormed ds := by
  match ds with
  | [] => rfl
  | d :: ds => exact and_congr (wellFormed_relocate d) (allWellFormed_relocate ds)

end

mutual

/-- The tokens of a moved datum are its tokens, moved. -/
theorem flatten_relocate (d : Datum) :
    (d.relocate r).flatten = d.flatten.map (Token.relocate r) := by
  cases d with
  | atom t => rfl
  | quoted mark d => simp [relocate, flatten, flatten_relocate d]
  | list left ds right => simp [relocate, flatten, flattenAll_relocate ds]
  | dotted left ds dot tail right =>
    simp [relocate, flatten, flattenAll_relocate ds, flatten_relocate tail]

/-- The tokens of moved data are those of the data, moved. -/
theorem flattenAll_relocate (ds : List Datum) :
    flattenAll (relocateAll r ds) = (flattenAll ds).map (Token.relocate r) := by
  match ds with
  | [] => rfl
  | d :: ds =>
    rw [relocateAll, flattenAll, flattenAll, flatten_relocate d, flattenAll_relocate ds,
      List.map_append]

end

/-- The span of a moved datum is its span, moved. -/
@[simp] theorem span_relocate (d : Datum) : (d.relocate r).span = d.span.relocate r := by
  induction d with
  | atom t => rfl
  | quoted mark d ih => rw [relocate, span, ih, span, ← Span.cover_relocate]; rfl
  | list left ds right _ => exact Span.cover_relocate left.span right.span
  | dotted left ds dot tail right _ _ => exact Span.cover_relocate left.span right.span

/-- Moving a datum keeps which symbol it is. -/
theorem isSymbol_relocate (d : Datum) (name : String) :
    (d.relocate r).isSymbol name = d.isSymbol name := by
  cases d <;> rfl

theorem isColon_relocate (d : Datum) : (d.relocate r).isColon = d.isColon := by
  cases d <;> rfl

end Datum

open Datum

/-! ## Types and values -/

namespace Ty

mutual

/-- A moved type expression spells the same type. -/
theorem Spelled.relocate {n n' : Numbering} {d : Datum} {t : Ty} :
    Spelled n d t n' → Spelled n (d.relocate r) t n'
  | .base hkind hbase => .base hkind hbase
  | .var hkind hbase hreserved => .var hkind hbase hreserved
  | .pair hpair ha hd => .pair ((isSymbol_relocate _ _).trans hpair) ha.relocate hd.relocate
  | .proc harrow hd hparams => by
    rw [Datum.relocate, relocateAll_append]
    exact .proc ((isSymbol_relocate _ _).trans harrow) hd.relocate hparams.relocate

theorem Params.relocate {n n' : Numbering} {ds : List Datum} {ts : List Ty} :
    Params n ds ts n' → Params n (relocateAll r ds) ts n'
  | .nil => .nil
  | .empty hempty => .empty ((isSymbol_relocate _ _).trans hempty)
  | .cons hempty ht hts => by
    -- `Empty` alone is no parameter, and whether it is alone does not depend on places.
    refine .cons (fun hnil => ?_) ht.relocate hts.relocate
    rw [relocateAll_eq_map, List.map_eq_nil_iff] at hnil
    rw [isSymbol_relocate]
    exact hempty hnil

theorem Starred.relocate {n n' : Numbering} {ds : List Datum} {ts : List Ty} :
    Starred n ds ts n' → Starred n (relocateAll r ds) ts n'
  | .nil => .nil
  | .cons hstar ht hts => .cons ((isSymbol_relocate _ _).trans hstar) ht.relocate hts.relocate

end

end Ty

namespace Value

/-- A moved atom denotes the same value. -/
theorem DenotedAtom.relocate {t : Token} {v : Value} (h : DenotedAtom t v) :
    DenotedAtom (t.relocate r) v := by
  cases h with
  | number hkind hn => exact .number hkind hn
  | boolean hkind => exact .boolean hkind
  | string hkind hs => exact .string hkind hs
  | symbol hkind => exact .symbol hkind
  | colon hkind => exact .colon hkind

mutual

/-- A moved datum stands for the same value. -/
theorem Denoted.relocate {d : Datum} {v : Value} : Denoted d v → Denoted (d.relocate r) v
  | .atom h => .atom h.relocate
  | .quoted h => .quoted h.relocate
  | .list h => .list h.relocate
  | .dotted h hlast => .dotted h.relocate hlast.relocate

theorem DenotedAll.relocate {ds : List Datum} {vs : List Value} :
    DenotedAll ds vs → DenotedAll (relocateAll r ds) vs
  | .nil => .nil
  | .cons h hs => .cons h.relocate hs.relocate

end

end Value

/-! ## Expressions -/

namespace Expr

theorem headKeyword?_relocate (d : Datum) :
    headKeyword? [d.relocate r] = headKeyword? [d] := by
  cases d <;> rfl

theorem ReadsParam.relocate {n n' : Numbering} {d : Datum} {p : Param} (h : ReadsParam n d p n') :
    ReadsParam n (d.relocate r) (p.relocate r) n' := by
  cases h with
  | mk hname hcolon ht =>
    rw [Param.relocate, ← Span.cover_relocate]
    exact .mk hname ((isColon_relocate _).trans hcolon) ht.relocate

theorem ReadsParams.relocate {seen : List String} {n n' : Numbering} {ds : List Datum}
    {ps : List Param} (h : ReadsParams seen n ds ps n') :
    ReadsParams seen n (Datum.relocateAll r ds) (ps.map (Param.relocate r)) n' := by
  induction h with
  | nil => exact .nil
  | cons hp hseen _ ih => exact .cons hp.relocate hseen ih

/-- A moved declaration is read after the same numbers. -/
theorem ReadsDecl.relocate {untyped : Bool} {k k' : Nat} {ds : List Datum} {decl : Decl}
    (h : ReadsDecl untyped k ds decl k') :
    ReadsDecl untyped k (Datum.relocateAll r ds) (decl.relocate r) k' := by
  cases h with
  | bare hname => exact .bare hname
  | enclosed hp => exact .enclosed hp.relocate
  | inline hname hcolon ht =>
    rw [Decl.relocate, ← Span.cover_relocate, ← Datum.span_relocate]
    exact .inline hname ((isColon_relocate _).trans hcolon) ht.relocate

/-- A moved atom is read as the same expression, moved. -/
theorem ReadsAtom.relocate {t : Token} {e : Expr} (h : ReadsAtom t e) :
    ReadsAtom (t.relocate r) (e.relocate r) := by
  cases h with
  | number hkind hn => exact .number hkind hn
  | boolean hkind => exact .boolean hkind
  | string hkind hs => exact .string hkind hs
  | primitive hkind hprimitive => exact .primitive hkind hprimitive
  | var hname hprimitive => exact .var hname hprimitive

mutual

/-- A moved datum is read as the moved expression, with the same numbers for its type variables. -/
theorem Reads.relocate {k k' : Nat} {d : Datum} {e : Expr} :
    Reads k d e k' → Reads k (d.relocate r) (e.relocate r) k'
  | .atom h => .atom h.relocate
  | .quoted hv => by
    rw [Expr.relocate, ← Span.cover_relocate, ← Datum.span_relocate]
    exact .quoted hv.relocate
  | .quoteForm hhead hv => by
    rw [Expr.relocate, ← Span.cover_relocate]
    exact .quoteForm hhead hv.relocate
  | .cond hhead ha hb hc => by
    rw [Expr.relocate, ← Span.cover_relocate]
    exact .cond ((headKeyword?_relocate _).trans hhead) ha.relocate hb.relocate hc.relocate
  | .lambda hhead hcolon hparams hresult hbody => by
    rw [Expr.relocate, ← Span.cover_relocate]
    exact .lambda ((headKeyword?_relocate _).trans hhead) ((isColon_relocate _).trans hcolon)
      hparams.relocate hresult.relocate hbody.relocate
  | .app hhead hf hes => by
    rw [Expr.relocate, ← Span.cover_relocate]
    exact .app ((headKeyword?_relocate _).trans hhead) hf.relocate hes.relocate
  | @Reads.letForm recursive _ _ _ left right _ _ _ _ _ _ _ hhead hbindings hbody => by
    -- The two binding forms differ in the constructor of the expression only.
    have hkeyword := (headKeyword?_relocate (r := r) _).trans hhead
    have hbindings := hbindings.relocate
    have hbody := hbody.relocate
    cases recursive with
    | false =>
      change Reads k _ (.letin ((left.span.cover right.span).relocate r) _ _) k'
      rw [← Span.cover_relocate]
      exact @Reads.letForm false _ _ _ _ _ _ _ _ _ _ _ _ hkeyword hbindings hbody
    | true =>
      change Reads k _ (.letrec ((left.span.cover right.span).relocate r) _ _) k'
      rw [← Span.cover_relocate]
      exact @Reads.letForm true _ _ _ _ _ _ _ _ _ _ _ _ hkeyword hbindings hbody
  | .define hhead hdecl hvalue => by
    rw [Expr.relocate, ← Span.cover_relocate, Datum.relocate, Datum.relocateAll,
      Datum.relocateAll_append]
    exact .define ((headKeyword?_relocate _).trans hhead) hdecl.relocate hvalue.relocate

theorem ReadsAll.relocate {k k' : Nat} {ds : List Datum} {es : List Expr} :
    ReadsAll k ds es k' → ReadsAll k (Datum.relocateAll r ds) (Expr.relocateAll r es) k'
  | .nil => .nil
  | .cons he hes => .cons he.relocate hes.relocate

theorem ReadsBindings.relocate {recursive : Bool} {seen : List String} {k k' : Nat}
    {ds : List Datum} {bindings : List (Decl × Expr)} :
    ReadsBindings recursive seen k ds bindings k' →
      ReadsBindings recursive seen k (Datum.relocateAll r ds) (relocateBound r bindings) k'
  | .nil => .nil
  | .cons hdecl hvalue hseen hrest => by
    rw [Datum.relocateAll, Datum.relocate, Datum.relocateAll_append]
    exact .cons hdecl.relocate hvalue.relocate hseen hrest.relocate

end

end Expr

end TypedScheme
