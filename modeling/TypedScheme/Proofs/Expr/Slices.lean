import TypedScheme.Proofs.Expr.Acceptance
import TypedScheme.Proofs.Expr.Nesting
import TypedScheme.Proofs.Expr.Relocation
import TypedScheme.Proofs.Expr.Shift
import TypedScheme.Proofs.Token.Cutting

/-!
# The text of a form

The characters that the span of a form covers are a text of their own, and that text is the form again:
it has moved to the start, and its type variables are numbered anew. The exception is a quotation that is
written as a list. Its span starts at the keyword, so the text lacks the parenthesis in front and cannot
be read.

## What this module delivers

- `Relocation.across p q`, the move of a text from one position to another.
- `Span.slice source s`, the characters that a span covers.
- `Expr.ReadsFrom text e`: the expression `e` is read from a datum of the text, with
  `Expr.ReadsFrom.of_inside`: so is every expression inside it.
- `Expr.Reads.exists_rename`: a datum is the same expression after any number, up to the names of type
  variables.
- `Program.parse_slice`: what the text of an expression of a program is parsed to.
-/

set_option autoImplicit false

namespace TypedScheme

open Token Datum Parse

/-! ## Moving a piece to the start -/

namespace Relocation

variable {p q : Position}

/-- The move of a text from the position `p` to the position `q`. Only what is on the line of `p`, and not
in front of it, changes its column. -/
def across (p q : Position) (hp : 0 < p.column) (hq : 0 < q.column) : Relocation where
  move x := ⟨x.offset - p.offset + q.offset, x.line - p.line + q.line,
    if x.line = p.line ∧ p.column ≤ x.column then x.column - p.column + q.column else x.column⟩
  column_eq_zero_iff x := by
    dsimp only
    split <;> omega
  offset_lt_iff x y := by
    dsimp only
    omega

theorem rebases_across (hp : 0 < p.column) (hq : 0 < q.column) : (across p q hp hq).Rebases p q := by
  intro cs
  have hoffset : (p.after cs).offset - p.offset + q.offset = (q.after cs).offset := by
    rw [Position.offset_after, Position.offset_after]
    omega
  have hline : (p.after cs).line - p.line + q.line = (q.after cs).line := by
    rw [Position.line_after, Position.line_after]
    omega
  have hcolumn : (if (p.after cs).line = p.line ∧ p.column ≤ (p.after cs).column then
      (p.after cs).column - p.column + q.column else (p.after cs).column) = (q.after cs).column := by
    by_cases hcs : '\n' ∈ cs
    · -- The text goes on on a later line.
      have hcount := List.count_pos_iff.2 hcs
      rw [if_neg (by rw [Position.line_after]; omega)]
      exact Position.column_after_of_mem p q hcs
    · rw [Position.line_after, List.count_eq_zero.2 hcs, Position.column_after _ hcs,
        Position.column_after _ hcs, if_pos (by omega)]
      omega
  rw [across]
  dsimp only
  rw [hoffset, hline, hcolumn]

end Relocation

namespace Span

/-- The characters of a source text from the first place of a span to the last, both included. -/
def slice (source : String) (s : Span) : String :=
  String.ofList ((source.toList.drop s.first.offset.toNat).take
    (s.last.offset - s.first.offset + 1).toNat)

theorem Marks.toList_slice {source : String} {s : Span} {a b : Nat}
    (h : s.Marks source.toList a b) :
    (s.slice source).toList = (source.toList.drop a).take (b - a) := by
  have hlt := h.lt
  have hlength : ((b : Int) - 1 - a + 1).toNat = b - a := by omega
  rw [slice, String.toList_ofList, h.first_offset, h.last_offset, hlength, Int.toNat_natCast]

/-- There is a move of what stands at a marked place to any other. -/
theorem Marks.exists_rebases {text : List Char} {s : Span} {a b : Nat} (h : s.Marks text a b)
    {q : Position} (hq : 0 < q.column) :
    ∃ r : Relocation, r.Rebases s.first q ∧ r.Rebases (.ofOffset text a) q := by
  have hr := Relocation.rebases_across (Position.column_ofOffset_pos text a) hq
  refine ⟨_, ?_, hr⟩
  rw [h.eq]
  exact hr

end Span

/-- The tokens of a piece of a text that is moved elsewhere. -/
theorem Token.Between.significantAt_rebased {text : List Char} {a b : Nat} {ts : List Token}
    {r : Relocation} {q : Position} (h : Between text a b ts) (hlegal : ∀ t ∈ ts, t.kind ≠ .illegal)
    (hr : r.Rebases (.ofOffset text a) q) :
    significantAt q ((text.drop a).take (b - a)) = ts.map (Token.relocate r) := by
  rw [significantAt_of_rebases hr, h.significantAt_take hlegal]

/-- A text with the tokens of well-formed data is read as these data. -/
theorem Datum.readAll_of_flattenAll {source : String} {ds : List Datum} (hds : AllWellFormed ds)
    (h : significantAt .start source.toList = flattenAll ds) : readAll source = .ok ds := by
  have hsteps := steps_forest hds []
  rw [List.append_nil] at hsteps
  rw [readAll_eq_ok_iff, h]
  exact hsteps

/-- A parenthesis that closes nothing ends the reading of a text. -/
theorem Datum.readAll_of_close {source : String} {ds : List Datum} {right : Token}
    (hds : AllWellFormed ds) (hright : right.kind = .rightParen)
    (h : significantAt .start source.toList = flattenAll ds ++ [right]) :
    readAll source = .error ⟨.unexpectedClose, right.span⟩ := by
  have hstep : (Reader.mk (ds.reverse ++ []) []).step right =
      .error ⟨.unexpectedClose, right.span⟩ := by
    rw [Reader.step_of_isOpen Reader.isOpen_nil, Reader.accept, hright]
  rw [readAll, significant_eq, h, readTokens, Reader.steps_append, Reader.empty, steps_forest hds]
  change (Reader.steps _ [right] >>= Reader.close) = _
  rw [Reader.steps_cons, hstep]
  rfl

namespace Expr

/-! ## Every expression has a datum -/

theorem ReadsAll.exists_of_mem {k k' : Nat} {ds : List Datum} {es : List Expr} {e : Expr}
    (h : ReadsAll k ds es k') (he : e ∈ es) : ∃ d ∈ ds, ∃ k₁ k₂, Reads k₁ d e k₂ := by
  induction ds generalizing k es with
  | nil =>
    cases h
    cases he
  | cons d ds ih =>
    cases h with
    | cons hd hds =>
      rcases List.mem_cons.1 he with rfl | he
      · exact ⟨d, List.mem_cons_self, _, _, hd⟩
      · obtain ⟨d', hd', hreads⟩ := ih hds he
        exact ⟨d', List.mem_cons_of_mem d hd', hreads⟩

/-- The value of a binding is the last datum of the binding. -/
theorem ReadsBindings.exists_of_mem {recursive : Bool} {seen : List String} {k k' : Nat}
    {ds : List Datum} {bs : List (Decl × Expr)} {e : Expr}
    (h : ReadsBindings recursive seen k ds bs k') (he : e ∈ bs.map (·.2)) :
    ∃ left ds' d right, .list left (ds' ++ [d]) right ∈ ds ∧ ∃ k₁ k₂, Reads k₁ d e k₂ := by
  induction ds generalizing k seen bs with
  | nil =>
    cases h
    cases he
  | cons d ds ih =>
    cases h with
    | cons hdecl hvalue _ hrest =>
      rcases List.mem_cons.1 he with rfl | he
      · exact ⟨_, _, _, _, List.mem_cons_self, _, _, hvalue⟩
      · obtain ⟨left, ds', d', right, hd', hreads⟩ := ih hrest he
        exact ⟨left, ds', d', right, List.mem_cons_of_mem _ hd', hreads⟩

variable {text : List Char} {source : String} {a b k k' : Nat} {d : Datum} {e f : Expr}

/-- An expression is read from a datum that stands in a text. -/
def ReadsFrom (text : List Char) (e : Expr) : Prop :=
  ∃ d a b k k', d.Stands text a b ∧ Reads k d e k'

theorem ReadsAll.readsFrom {ds : List Datum} {es : List Expr} {lo hi : Nat}
    (h : ReadsAll k ds es k') (hds : StandAll text lo hi ds) (he : e ∈ es) : e.ReadsFrom text := by
  obtain ⟨d, hd, k₁, k₂, hreads⟩ := h.exists_of_mem he
  obtain ⟨a, b, hstands⟩ := hds.exists_of_mem hd
  exact ⟨d, a, b, k₁, k₂, hstands, hreads⟩

theorem ReadsBindings.readsFrom {recursive : Bool} {seen : List String} {ds : List Datum}
    {bs : List (Decl × Expr)} {lo hi : Nat} (h : ReadsBindings recursive seen k ds bs k')
    (hds : StandAll text lo hi ds) (he : e ∈ bs.map (·.2)) : e.ReadsFrom text := by
  obtain ⟨left, ds', d, right, hmem, k₁, k₂, hreads⟩ := h.exists_of_mem he
  obtain ⟨a, b, hlist⟩ := hds.exists_of_mem hmem
  obtain _ | _ | ⟨-, -, hds', -, -⟩ := hlist
  obtain ⟨a', b', hstands⟩ := hds'.exists_of_mem (List.mem_append_right ds' List.mem_cons_self)
  exact ⟨d, a', b', k₁, k₂, hstands, hreads⟩

/-- The parts of an expression are read from data inside its own. -/
theorem Reads.readsFrom_of_mem_children (h : Reads k d e k') (hd : d.Stands text a b)
    (hf : f ∈ e.children) : f.ReadsFrom text := by
  cases h with
  | atom hatom => cases hatom <;> cases hf
  | quoted => cases hf
  | quoteForm => cases hf
  | cond _ ha hb hc =>
    obtain _ | _ | ⟨-, -, hds, -, -⟩ := hd
    -- The keyword is no part of the expression.
    obtain _ | ⟨-, -, hds⟩ := hds
    exact (ReadsAll.cons ha (.cons hb (.cons hc .nil))).readsFrom hds hf
  | lambda _ _ _ _ hbody =>
    obtain _ | _ | ⟨-, -, hds, -, -⟩ := hd
    -- The body stands behind the keyword, the parameters, the colon and the result.
    obtain ⟨_, -, hds⟩ :=
      StandAll.exists_of_append (show StandAll text _ _ ([_, _, _, _] ++ _) from hds)
    exact hbody.readsFrom hds hf
  | app _ hoperator hoperands =>
    obtain _ | _ | ⟨-, -, hds, -, -⟩ := hd
    exact (ReadsAll.cons hoperator hoperands).readsFrom hds hf
  | @letForm recursive _ _ _ _ _ _ _ _ _ _ bindings body _ hbindings hbody =>
    obtain _ | _ | ⟨-, -, hds, -, -⟩ := hd
    obtain _ | ⟨-, -, hds⟩ := hds
    obtain _ | ⟨-, hlist, hds⟩ := hds
    obtain _ | _ | ⟨-, -, hds', -, -⟩ := hlist
    -- The two forms have the same parts.
    have hf : f ∈ bindings.map (·.2) ++ body := by
      cases recursive with
      | false => exact hf
      | true => exact hf
    rcases List.mem_append.1 hf with hf | hf
    · exact hbindings.readsFrom hds' hf
    · exact hbody.readsFrom hds hf
  | define _ _ hvalue =>
    obtain _ | _ | ⟨-, -, hds, -, -⟩ := hd
    obtain _ | ⟨-, -, hds⟩ := hds
    obtain ⟨_, -, hds⟩ := hds.exists_of_append
    exact (ReadsAll.cons hvalue .nil).readsFrom hds hf

/-- Every expression inside one that is read from a datum of a text is so itself. -/
theorem ReadsFrom.of_inside (h : e.ReadsFrom text) (hf : Inside f e) : f.ReadsFrom text := by
  induction hf with
  | refl => exact h
  | child hc _ ih =>
    obtain ⟨d, a, b, k, k', hd, hreads⟩ := h
    exact ih (hreads.readsFrom_of_mem_children hd hc)

/-- A datum that is an expression after one number is the same expression after any other, up to the
names of type variables. -/
theorem Reads.exists_rename {k k' : Nat} {d : Datum} {e : Expr} (h : Reads k d e k') (m : Nat) :
    ∃ (ρ : Nat → Nat) (m' : Nat), Set.InjOn ρ {x | x ∈ e.typeVars} ∧ Reads m d (e.rename ρ) m' := by
  obtain ⟨e₀, j, h₀⟩ := h.exists_from 0
  obtain ⟨names₀, h₀⟩ := h₀.yields []
  -- Reading after `i` more numbers moves what is read after none.
  have hshift (i : Nat) : Yields (ofDatum d) ⟨i, []⟩ (e₀.rename (i + ·))
      (Numbering.shift i ⟨j, names₀⟩) := by
    have hrun := shifts_ofDatum (k := i) d ⟨0, []⟩
    rw [show (ofDatum d).run ⟨0, []⟩ = _ from h₀] at hrun
    exact hrun
  obtain ⟨names, h⟩ := h.yields []
  obtain ⟨rfl, -⟩ := (yields_of_run (hshift k)).1 h
  obtain ⟨ρ, hρ, heq⟩ := e₀.exists_rename_add k m
  refine ⟨ρ, (Numbering.shift m ⟨j, names₀⟩).last, hρ, ?_⟩
  rw [← heq]
  exact reads_of_yields (hshift m)

/-! ## Forms that are not quoted lists -/

/-- A quotation that is written as a list with a keyword. -/
def isQuoteForm : Expr → Bool
  | quoted mark _ _ => mark.kind = .symbol
  | _ => false

theorem kind_of_headKeyword? {t : Token} {keyword : Keyword}
    (h : headKeyword? [.atom t] = some keyword) : t.kind = .symbol := by
  by_contra hkind
  simp [headKeyword?, hkind] at h

/-- The span of an expression is that of its datum, unless it is a quotation written as a list. -/
theorem Reads.span_eq (h : Reads k d e k') (hquote : e.isQuoteForm = false) : e.span = d.span := by
  cases h with
  | atom hatom => cases hatom <;> rfl
  | quoteForm hhead _ => simp [isQuoteForm, kind_of_headKeyword? hhead] at hquote
  | @letForm recursive => cases recursive <;> rfl
  | quoted | cond | lambda | app | define => rfl

/-- The text of an expression is the expression again. -/
theorem Reads.exists_parse_slice (h : Reads k d e k') (hd : d.Stands source.toList a b)
    (hquote : e.isQuoteForm = false) (m : Nat) :
    ∃ (r : Relocation) (ρ : Nat → Nat) (m' : Nat), r.Rebases e.span.first .start ∧
      Set.InjOn ρ {x | x ∈ e.typeVars} ∧
      (parse (e.span.slice source)).runFrom m = (.ok ((e.rename ρ).relocate r), m') := by
  rw [h.span_eq hquote]
  obtain ⟨r, hfirst, hr⟩ := hd.marks.exists_rebases (q := .start) (by decide)
  obtain ⟨ρ, m', hρ, hreads⟩ := h.exists_rename m
  refine ⟨r, ρ, m', hfirst, hρ, parse_eq_ok_iff.2 ⟨d.relocate r, ?_, hreads.relocate⟩⟩
  have hwf := hd.wellFormed
  refine readAll_of_flattenAll ⟨(wellFormed_relocate d).2 hwf, trivial⟩ ?_
  rw [hd.marks.toList_slice, hd.between.significantAt_rebased (fun t ht => (hwf.legal ht).1) hr,
    flattenAll_singleton, flatten_relocate]

/-! ## Quoted lists -/

theorem parse_of_readAll_error {error : SyntaxError} (h : readAll source = .error error) (m : Nat) :
    (parse source).runFrom m = (.error error, m) := by
  rw [parse, h]
  rfl

/-- The span of a quotation that is written as a list covers the keyword, the datum and the closing
parenthesis. -/
theorem Reads.exists_of_isQuoteForm (h : Reads k d e k') (hd : d.Stands text a b)
    (hquote : e.isQuoteForm = true) :
    ∃ mark v d' right a', e = .quoted mark v (mark.span.cover right.span) ∧
      headKeyword? [.atom mark] = some .quote ∧ Value.Denoted d' v ∧
      AllWellFormed [.atom mark, d'] ∧ right.kind = .rightParen ∧ e.span.Marks text a' b ∧
      Between text a' b (flattenAll [.atom mark, d'] ++ [right]) := by
  cases h with
  | quoteForm hhead hv =>
    obtain _ | _ | ⟨-, -, hds, hr, hright⟩ := hd
    obtain _ | ⟨-, hmark, hds⟩ := hds
    have hmarks := hmark.marks.cover_of_le hds.between.le (hr.marks (by simp [hright]))
    refine ⟨_, _, _, _, _, rfl, hhead, hv, ⟨hmark.wellFormed, hds.allWellFormed⟩, hright, hmarks, ?_⟩
    exact (hmark.between.append hds.between).append (.token hr .nil)
  | atom hatom => cases hatom <;> cases hquote
  | quoted _ =>
    obtain _ | ⟨-, hmark, -, -⟩ := hd
    simp [isQuoteForm, hmark] at hquote
  | @letForm recursive => cases recursive <;> cases hquote
  | cond | lambda | app | define => cases hquote

/-- The text of a quotation that is written as a list is not an expression, since it has a parenthesis
too many, and with the missing parenthesis in front it is the quotation again. -/
theorem Reads.parse_slice_of_isQuoteForm (h : Reads k d e k') (hd : d.Stands source.toList a b)
    (hquote : e.isQuoteForm = true) (m : Nat) :
    (∃ span, (parse (e.span.slice source)).runFrom m = (.error ⟨.unexpectedClose, span⟩, m)) ∧
    ∃ r : Relocation, r.Rebases e.span.first (Position.start.step '(') ∧
      (parse ("(" ++ e.span.slice source)).runFrom m = (.ok (e.relocate r), m) := by
  obtain ⟨mark, v, d', right, a', he, hhead, hv, hwf, hright, hmarks, hbetween⟩ :=
    h.exists_of_isQuoteForm hd hquote
  have hlegal : ∀ t ∈ flattenAll [Datum.atom mark, d'] ++ [right], t.kind ≠ .illegal := by
    intro t ht
    rw [flattenAll_eq_flatMap, List.mem_append, List.mem_flatMap, List.mem_singleton] at ht
    rcases ht with ⟨d, hd, ht⟩ | rfl
    · exact ((allWellFormed_iff.1 hwf d hd).legal ht).1
    · simp [hright]
  constructor
  · obtain ⟨r, -, hr⟩ := hmarks.exists_rebases (q := .start) (by decide)
    -- The span leaves out the opening parenthesis, so that the closing one has no partner.
    refine ⟨(right.relocate r).span, parse_of_readAll_error ?_ m⟩
    refine readAll_of_close ((allWellFormed_relocate (r := r) _).2 hwf) hright ?_
    rw [hmarks.toList_slice, hbetween.significantAt_rebased hlegal hr, List.map_append,
      flattenAll_relocate]
    rfl
  · obtain ⟨r, hfirst, hr⟩ := hmarks.exists_rebases (q := Position.start.step '(') (by decide)
    -- With a parenthesis in front the slice starts one place further on.
    refine ⟨r, hfirst, parse_eq_ok_iff.2 ⟨.list (bare .leftParen ⟨.start, .start⟩)
      (Datum.relocateAll r [.atom mark, d']) (right.relocate r), ?_, ?_⟩⟩
    · refine readAll_of_flattenAll ⟨⟨rfl, (allWellFormed_relocate _).2 hwf, hright⟩, trivial⟩ ?_
      have htext : ("(" ++ e.span.slice source).toList =
          '(' :: (source.toList.drop a').take (b - a') := by
        rw [String.toList_append, hmarks.toList_slice]
        rfl
      rw [htext, significantAt_punctuation rfl, hbetween.significantAt_rebased hlegal hr, List.map_append,
        flattenAll_singleton, Datum.flatten, flattenAll_relocate]
      rfl
    · rw [he, Expr.relocate, ← Span.cover_relocate]
      exact .quoteForm hhead hv.relocate

end Expr

/-! ## Programs -/

namespace Program

theorem readsFrom_of_parse {source : String} {k k' : Nat} {p : Program}
    (h : (parse source).runFrom k = (.ok p, k')) {form : Expr} (hform : form ∈ p.forms) :
    form.ReadsFrom source.toList := by
  obtain ⟨ds, hread, hforms⟩ := parse_eq_ok_iff.1 h
  obtain ⟨_, _, -, -, hds⟩ := exists_standAll_unwrap (standAll_of_readAll hread)
  exact hforms.readsFrom hds hform

/-- The text of every expression of a program, from the first place of its span to the last, is the
expression again: it is accepted after any number, and differs by the move of that text to the start and
by a renaming that keeps the type variables of the expression apart. A quotation that is written as a list
is the exception. Its text starts behind the parenthesis of the list and is not accepted; with a
parenthesis in front it is the quotation again. -/
theorem parse_slice {source : String} {k k' : Nat} {p : Program}
    (h : (parse source).runFrom k = (.ok p, k')) {form e : Expr} (hform : form ∈ p.forms)
    (he : Expr.Inside e form) (m : Nat) :
    (e.isQuoteForm = false → ∃ (r : Relocation) (ρ : Nat → Nat) (m' : Nat),
      r.Rebases e.span.first .start ∧ Set.InjOn ρ {x | x ∈ e.typeVars} ∧
      (Expr.parse (e.span.slice source)).runFrom m = (.ok ((e.rename ρ).relocate r), m')) ∧
    (e.isQuoteForm = true →
      (∃ span, (Expr.parse (e.span.slice source)).runFrom m =
        (.error ⟨.unexpectedClose, span⟩, m)) ∧
      ∃ r : Relocation, r.Rebases e.span.first (Position.start.step '(') ∧
        (Expr.parse ("(" ++ e.span.slice source)).runFrom m = (.ok (e.relocate r), m)) := by
  obtain ⟨d, a, b, k₁, k₂, hstands, hreads⟩ := (readsFrom_of_parse h hform).of_inside he
  exact ⟨fun hquote => hreads.exists_parse_slice hstands hquote m,
    fun hquote => hreads.parse_slice_of_isQuoteForm hstands hquote m⟩

/-- A procedure with a type variable is its own text, and a quoted list is not. -/
theorem parse_slice_identity :
    let source := "(define (id : (T -> T)) (lambda ((x : T)) : T x))\n(id (quote (a . b)))"
    ∃ p k' f e g q, (parse source).runFrom 0 = (.ok p, k') ∧
      (f ∈ p.forms ∧ Expr.Inside e f ∧ e.isQuoteForm = false ∧
        e.span.slice source = "(lambda ((x : T)) : T x)" ∧
        ∃ (r : Relocation) (ρ : Nat → Nat) (m' : Nat), r.Rebases e.span.first .start ∧
          Set.InjOn ρ {x | x ∈ e.typeVars} ∧
          (Expr.parse (e.span.slice source)).runFrom 7 = (.ok ((e.rename ρ).relocate r), m')) ∧
      (g ∈ p.forms ∧ Expr.Inside q g ∧ q.isQuoteForm = true ∧
        q.span.slice source = "quote (a . b))" ∧
        ∃ span, (Expr.parse (q.span.slice source)).runFrom 7 =
          (.error ⟨.unexpectedClose, span⟩, 7)) := by
  intro source
  have hrun : ((parse source).runFrom 0).1.toOption.bind (fun p => some
      (p.forms.any fun f => f.children.any fun e =>
          !e.isQuoteForm && e.span.slice source = "(lambda ((x : T)) : T x)",
        p.forms.any fun f => f.children.any fun e =>
          e.isQuoteForm && e.span.slice source = "quote (a . b))")) = some (true, true) := by
    decide +kernel
  obtain ⟨p, k', hparse, hrun⟩ := exists_of_toOption_bind hrun
  simp only [Option.some.injEq, Prod.mk.injEq, List.any_eq_true, Bool.and_eq_true,
    Bool.not_eq_true', decide_eq_true_eq] at hrun
  obtain ⟨⟨f, hf, e, he, hplain, htext⟩, g, hg, q, hq, hquote, htext'⟩ := hrun
  have hinside : Expr.Inside e f := .child he .refl
  have hinside' : Expr.Inside q g := .child hq .refl
  refine ⟨p, k', f, e, g, q, hparse, ⟨hf, hinside, hplain, htext, ?_⟩, hg, hinside', hquote, htext', ?_⟩
  · exact (parse_slice hparse hf hinside 7).1 hplain
  · exact ((parse_slice hparse hg hinside' 7).2 hquote).1

end Program

end TypedScheme
