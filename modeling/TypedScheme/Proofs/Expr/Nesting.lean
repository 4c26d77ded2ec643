import TypedScheme.Proofs.Datum.Places
import TypedScheme.Proofs.Typing.Faults

/-!
# The places of a program are nested

The expressions of a parsed program stand in its text as the program is built: the parts of a form one
after the other, and all of them inside the form. The grammar decides where a form starts and ends; the
data that it is read from are in the order of the text.

## What this module delivers

- `Expr.Laid text a b e`: the expression `e` has the place from the offset `a` up to the offset `b`, and
  its parts have places in between, in their order.
- `Expr.Reads.exists_laid`: an expression that is read from a datum is laid out in the text of the datum.
- `Expr.Laid.nested`: what this says about the spans alone.
- `Program.spans_of_parse`: the places of a program are nested, and errors of its check point to them.
-/

set_option autoImplicit false

namespace TypedScheme

open Token Datum

namespace Expr

/-! ## Expressions in a text -/

mutual

/-- An expression has the place from the offset `a` up to the offset `b`, and its parts in between. -/
inductive Laid (text : List Char) : Nat → Nat → Expr → Prop
  | mk {a b : Nat} {e : Expr} :
      e.span.Marks text a b → LaidAll text a b e.children → Laid text a b e

/-- Expressions have places one after the other, between two offsets. -/
inductive LaidAll (text : List Char) : Nat → Nat → List Expr → Prop
  | nil {lo hi : Nat} : lo ≤ hi → LaidAll text lo hi []
  | cons {lo a b hi : Nat} {e : Expr} {es : List Expr} :
      lo ≤ a → Laid text a b e → LaidAll text b hi es → LaidAll text lo hi (e :: es)

end

variable {text : List Char} {a b lo hi : Nat} {e f : Expr} {es fs : List Expr}

theorem Laid.marks (h : e.Laid text a b) : e.span.Marks text a b := by
  cases h with
  | mk hspan _ => exact hspan

/-- The children of an expression that is laid out are so inside of it, one after the other. -/
theorem Laid.children (h : e.Laid text a b) : LaidAll text a b e.children := by
  cases h with
  | mk _ hchildren => exact hchildren

theorem LaidAll.le (h : LaidAll text lo hi es) : lo ≤ hi := by
  induction es generalizing lo with
  | nil =>
    cases h with
    | nil hle => exact hle
  | cons e es ih =>
    cases h with
    | cons ha he hes =>
      have hlt := he.marks.lt
      have hle := ih hes
      omega

theorem LaidAll.mono {lo' hi' : Nat} (h : LaidAll text lo hi es) (hlo : lo' ≤ lo) (hhi : hi ≤ hi') :
    LaidAll text lo' hi' es := by
  induction es generalizing lo lo' with
  | nil => exact .nil (Nat.le_trans hlo (Nat.le_trans h.le hhi))
  | cons e es ih =>
    cases h with
    | cons ha he hes => exact .cons (Nat.le_trans hlo ha) he (ih hes (Nat.le_refl _))

/-- Expressions in two parts are laid out one part after the other. -/
theorem LaidAll.append {m m' : Nat} (hes : LaidAll text lo m es) (hm : m ≤ m')
    (hfs : LaidAll text m' hi fs) : LaidAll text lo hi (es ++ fs) := by
  induction es generalizing lo with
  | nil => exact hfs.mono (Nat.le_trans hes.le hm) (Nat.le_refl _)
  | cons e es ih =>
    cases hes with
    | cons ha he hes => exact .cons ha he (ih hes)

theorem LaidAll.cons_of_exists (hgap : Between text lo a []) (he : ∃ a', a ≤ a' ∧ e.Laid text a' b)
    (hes : LaidAll text b hi es) : LaidAll text lo hi (e :: es) := by
  obtain ⟨a', ha', he⟩ := he
  exact .cons (Nat.le_trans hgap.le ha') he hes

/-- An atom is laid out where its token stands. -/
theorem ReadsAtom.laid {t : Token} (h : ReadsAtom t e) (ht : (Datum.atom t).Stands text a b) :
    e.Laid text a b := by
  have hspan : t.span.Marks text a b := ht.marks
  cases h <;> exact .mk hspan (.nil (Nat.le_of_lt hspan.lt))

/-- A form in parentheses has its parts between them. -/
theorem Laid.enclosed {m c : Nat} {left right : Token} (hl : left.Stands text a m)
    (hleft : left.kind = .leftParen) (hr : right.Stands text c b) (hright : right.kind = .rightParen)
    (hspan : e.span = left.span.cover right.span) (hchildren : LaidAll text m c e.children) :
    e.Laid text a b := by
  refine .mk ?_ (hchildren.mono (Nat.le_of_lt hl.occupies.lt) (Nat.le_of_lt hr.occupies.lt))
  rw [hspan]
  exact marks_enclosed hl hleft hchildren.le hr hright

mutual

/-- An expression that is read from a datum ends where the datum ends, and starts where it starts or
later: a quote form starts at its keyword. -/
theorem Reads.exists_laid {k k' : Nat} {d : Datum} {e : Expr} {a b : Nat} :
    Reads k d e k' → d.Stands text a b → ∃ a', a ≤ a' ∧ e.Laid text a' b
  | .atom he, hd => ⟨a, Nat.le_refl a, he.laid hd⟩
  | .quoted _, hd => ⟨a, Nat.le_refl a, .mk hd.marks (.nil (Nat.le_of_lt hd.marks.lt))⟩
  | .quoteForm _ _, .list hl _ (.cons hgap hmark hds) hr hright => by
    have hspan := hmark.marks.cover_of_le hds.between.le (hr.marks (by simp [hright]))
    have hle := Nat.le_trans (Nat.le_of_lt hl.occupies.lt) hgap.le
    exact ⟨_, hle, .mk hspan (.nil (Nat.le_of_lt hspan.lt))⟩
  | .cond _ ha hb hc, .list hl hleft (.cons hgap hhead (.cons hgapa hda (.cons hgapb hdb
      (.cons hgapc hdc (.nil hgap'))))) hr hright => by
    have hc := LaidAll.cons_of_exists hgapc (hc.exists_laid hdc) (.nil hgap'.le)
    have hb := LaidAll.cons_of_exists hgapb (hb.exists_laid hdb) hc
    have ha := LaidAll.cons_of_exists hgapa (ha.exists_laid hda) hb
    have hle := hgap.le
    have hlt := hhead.marks.lt
    exact ⟨a, Nat.le_refl a, .enclosed hl hleft hr hright rfl (ha.mono (by omega) (Nat.le_refl _))⟩
  | .lambda _ _ _ _ hbody, .list hl hleft hds hr hright => by
    -- The body stands after the four data of the head.
    obtain ⟨m, hhead, hds⟩ :=
      StandAll.exists_of_append (show StandAll text _ _ ([_, _, _, _] ++ _) from hds)
    have hall := (hbody.laidAll hds).mono hhead.between.le (Nat.le_refl _)
    exact ⟨a, Nat.le_refl a, .enclosed hl hleft hr hright rfl hall⟩
  | .app _ hf hes, .list hl hleft (.cons hgap hd hds) hr hright =>
    ⟨a, Nat.le_refl a, .enclosed hl hleft hr hright rfl
      (.cons_of_exists hgap (hf.exists_laid hd) (hes.laidAll hds))⟩
  | @Reads.letForm recursive _ _ _ _ _ _ _ _ _ _ _ _ _ hbindings hbody,
      .list (m := m) hl hleft (.cons hgap hhead (.cons hgap' (.list hopen _ hds hclose _) hds')) hr
      hright => by
    have hopen := hopen.occupies.lt
    have hclose := hclose.occupies.lt
    have hall := (hbindings.laidAll hds).append (Nat.le_of_lt hclose) (hbody.laidAll hds')
    have hle := hgap.le
    have hlt := hhead.marks.lt
    have hle' := hgap'.le
    have hchildren := hall.mono (show m ≤ _ by omega) (Nat.le_refl _)
    refine ⟨a, Nat.le_refl a, ?_⟩
    cases recursive with
    | false => exact .enclosed hl hleft hr hright rfl hchildren
    | true => exact .enclosed hl hleft hr hright rfl hchildren
  | .define _ _ hvalue, .list hl hleft (.cons hgap hhead hds) hr hright => by
    obtain ⟨m, hdecl, hlast⟩ := hds.exists_of_append
    obtain ⟨c, c', hc, hd, hc'⟩ := hlast.exists_of_singleton
    obtain ⟨c'', hle'', hvalue⟩ := hvalue.exists_laid hd
    have hle := hgap.le
    have hlt := hhead.marks.lt
    have hle' := hdecl.between.le
    exact ⟨a, Nat.le_refl a, .enclosed hl hleft hr hright rfl (.cons (by omega) hvalue (.nil hc'))⟩

theorem ReadsAll.laidAll {k k' : Nat} {ds : List Datum} {es : List Expr} {lo hi : Nat} :
    ReadsAll k ds es k' → StandAll text lo hi ds → LaidAll text lo hi es
  | .nil, .nil hgap => .nil hgap.le
  | .cons he hes, .cons hgap hd hds => .cons_of_exists hgap (he.exists_laid hd) (hes.laidAll hds)

theorem ReadsBindings.laidAll {recursive : Bool} {seen : List String} {k k' : Nat} {ds : List Datum}
    {bs : List (Decl × Expr)} {lo hi : Nat} :
    ReadsBindings recursive seen k ds bs k' → StandAll text lo hi ds →
      LaidAll text lo hi (bs.map (·.2))
  | .nil, .nil hgap => .nil hgap.le
  | .cons _ hvalue _ hrest, .cons hgap (.list hl _ hds hr _) hds' => by
    obtain ⟨m, hdecl, hlast⟩ := hds.exists_of_append
    obtain ⟨a, b, ha, hd, hb⟩ := hlast.exists_of_singleton
    obtain ⟨a', ha', hvalue⟩ := hvalue.exists_laid hd
    have h₁ := hgap.le
    have h₂ := hl.occupies.lt
    have h₃ := hdecl.between.le
    have h₄ := hr.occupies.lt
    exact .cons (by omega) hvalue ((hrest.laidAll hds').mono (by omega) (Nat.le_refl _))

end

/-! ## Parts of an expression -/

theorem LaidAll.exists_of_mem (h : LaidAll text lo hi es) (he : e ∈ es) :
    ∃ a b, lo ≤ a ∧ b ≤ hi ∧ e.Laid text a b := by
  induction es generalizing lo with
  | nil => cases he
  | cons f es ih =>
    cases h with
    | cons ha hf hes =>
      rcases List.mem_cons.1 he with rfl | he
      · exact ⟨_, _, ha, hes.le, hf⟩
      · obtain ⟨a, b, hle, hb, he⟩ := ih hes he
        have hlt := hf.marks.lt
        exact ⟨a, b, by omega, hb, he⟩

/-- A part of an expression is laid out inside of it. -/
theorem Laid.exists_of_inside (he : e.Laid text a b) (hf : Inside f e) :
    ∃ a' b', a ≤ a' ∧ b' ≤ b ∧ f.Laid text a' b' := by
  induction hf generalizing a b with
  | refl => exact ⟨a, b, Nat.le_refl a, Nat.le_refl b, he⟩
  | child hc _ ih =>
    obtain ⟨c, d, hac, hdb, hchild⟩ := he.children.exists_of_mem hc
    obtain ⟨a', b', ha', hb', hf⟩ := ih hchild
    exact ⟨a', b', Nat.le_trans hac ha', Nat.le_trans hb' hdb, hf⟩

/-- The place of the last form, behind which nothing is left. -/
theorem LaidAll.exists_lastSpan (h : LaidAll text lo hi (e :: es)) :
    ∃ a b c d, lo ≤ a ∧ a ≤ c ∧ b ≤ d ∧ d ≤ hi ∧ e.span.Marks text a b ∧
      (lastSpan (e :: es)).Marks text c d ∧ LaidAll text a d (e :: es) := by
  induction es generalizing e lo with
  | nil =>
    cases h with
    | cons ha he hes =>
      refine ⟨_, _, _, _, ha, Nat.le_refl _, Nat.le_refl _, hes.le, he.marks, he.marks, ?_⟩
      exact .cons (Nat.le_refl _) he (.nil (Nat.le_refl _))
  | cons f es ih =>
    cases h with
    | cons ha he hes =>
      obtain ⟨a', b', c, d, ha', hac, hbd, hd, hspan, hlast, hes⟩ := ih hes
      have hlt := he.marks.lt
      have hlt' := hspan.lt
      refine ⟨_, _, c, d, ha, by omega, by omega, hd, he.marks, hlast, ?_⟩
      exact .cons (Nat.le_refl _) he (hes.mono ha' (Nat.le_refl _))

/-- A program is laid out from its first form to its last. -/
theorem LaidAll.exists_program (h : LaidAll text lo hi es) (hes : es ≠ []) :
    ∃ a b, lo ≤ a ∧ b ≤ hi ∧ (Expr.program es).Laid text a b := by
  obtain ⟨e, es, rfl⟩ := List.exists_cons_of_ne_nil hes
  obtain ⟨a, b, c, d, ha, hac, hbd, hd, hfirst, hlast, hall⟩ := h.exists_lastSpan
  exact ⟨a, d, ha, hd, .mk (hfirst.cover hlast hac hbd) hall⟩

/-! ## Nested spans -/

/-- The span of an expression is a piece of the text, the spans of its parts lie in it, and they do so
one after the other. -/
structure Nested (text : List Char) (e : Expr) : Prop where
  placed : e.span.isAbsent = false
  piece : ∃ a b, a ≤ b ∧ b < text.length ∧ e.span = ⟨.ofOffset text a, .ofOffset text b⟩
  within : ∀ c ∈ e.children, e.span.first.offset ≤ c.span.first.offset ∧
    c.span.last.offset ≤ e.span.last.offset
  inOrder : e.children.Pairwise fun c d => c.span.last.offset < d.span.first.offset

/-- Expressions that are laid out one after the other do not overlap. -/
theorem LaidAll.pairwise (h : LaidAll text lo hi es) :
    es.Pairwise fun c d => c.span.last.offset < d.span.first.offset := by
  induction es generalizing lo with
  | nil => exact .nil
  | cons e es ih =>
    cases h with
    | cons _ he hes =>
      refine .cons (fun f hf => ?_) (ih hes)
      obtain ⟨a, b, hle, -, hf⟩ := hes.exists_of_mem hf
      rw [he.marks.last_offset, hf.marks.first_offset]
      omega

theorem Laid.nested (h : e.Laid text a b) (hb : b ≤ text.length) : e.Nested text := by
  have hlt := h.marks.lt
  refine ⟨h.marks.isAbsent, ⟨a, b - 1, by omega, by omega, h.marks.eq⟩, fun c hc => ?_,
    h.children.pairwise⟩
  obtain ⟨a', b', ha', hb', hc⟩ := h.children.exists_of_mem hc
  rw [h.marks.first_offset, h.marks.last_offset, hc.marks.first_offset, hc.marks.last_offset]
  omega

end Expr

/-- An error of a check has the place of a form inside the expression that is checked. -/
theorem TypeError.LocatedIn.exists_inside {root : Expr} {e : TypeError} (h : e.LocatedIn root) :
    ∃ f, Expr.Inside f root ∧ e.span = f.span := by
  cases h with
  | unbound hin => exact ⟨_, hin, rfl⟩
  | mismatch hin _ _ _ => exact ⟨_, hin, rfl⟩
  | notProcedure hin _ => exact ⟨_, .of_mem_children List.mem_cons_self hin, rfl⟩
  | arity hin _ _ => exact ⟨_, hin, rfl⟩
  | nestedDefine hin => exact ⟨_, hin, rfl⟩
  | letrecValue hin hb _ =>
    exact ⟨_, .of_mem_children (List.mem_append_left _ (List.mem_map_of_mem hb)) hin, rfl⟩
  | emptyBody hin _ => exact ⟨_, hin, rfl⟩

namespace Program

/-! ## Programs -/

/-- The forms of a program have places in its text one after the other. -/
theorem laidAll_of_parse {source : String} {k k' : Nat} {p : Program}
    (h : (parse source).runFrom k = (.ok p, k')) :
    Expr.LaidAll source.toList 0 source.toList.length p.forms := by
  obtain ⟨ds, hread, hforms⟩ := parse_eq_ok_iff.1 h
  obtain ⟨lo, hi, -, hle, hds⟩ := exists_standAll_unwrap (standAll_of_readAll hread)
  exact (hforms.laidAll hds).mono (Nat.zero_le lo) hle

/-- Everything inside a program with a form is laid out in its text. -/
theorem exists_laid_of_parse {source : String} {k k' : Nat} {p : Program}
    (h : (parse source).runFrom k = (.ok p, k')) (hne : p.forms ≠ []) {e : Expr}
    (he : Expr.Inside e p.expr) :
    ∃ a b, b ≤ source.toList.length ∧ e.Laid source.toList a b := by
  obtain ⟨a, b, -, hb, hlaid⟩ := (laidAll_of_parse h).exists_program hne
  obtain ⟨a', b', -, hb', he⟩ := hlaid.exists_of_inside he
  exact ⟨a', b', Nat.le_trans hb' hb, he⟩

/-- An error of the check of a program has the place of a form in it, or the program has no form and
the error no place. -/
theorem exists_inside_of_check {source : String} {k k' : Nat} {p : Program}
    (h : (parse source).runFrom k = (.ok p, k')) {last : Nat} {tracing : Bool} {error : TypeError}
    (herror : ((p.check .empty).runFrom last tracing).result = .error error) :
    (p.forms = [] ∧ error.span = .absent) ∨
      (p.forms ≠ [] ∧ ∃ e, Expr.Inside e p.expr ∧ error.span = e.span) := by
  obtain ⟨ds, -, hforms⟩ := parse_eq_ok_iff.1 h
  have hempty : Scope.empty.IsWhole := fun name t ht => by cases ht
  have hends := Expr.ends_typeOfForms hforms.wellFormed hempty 0 ⟨last, tracing, []⟩
  rcases hends.2 error herror with ⟨hnil, rfl⟩ | ⟨form, hform, hlocated⟩
  · exact .inl ⟨hnil, rfl⟩
  · obtain ⟨e, he, hspan⟩ := hlocated.exists_inside
    have hin : Expr.Inside e p.expr := .child hform (he.trans form.inside_subject)
    exact .inr ⟨List.ne_nil_of_mem hform, e, hin, hspan⟩

/-- The places of a parsed program are nested: every form in it, and the program itself, has a piece of
the text as its place, and the places of its parts lie in that piece one after the other. An error that
the check of the program ends with has the place of one of them. Only a program without any form has no
place. -/
theorem spans_of_parse {source : String} {k k' : Nat} {p : Program}
    (h : (parse source).runFrom k = (.ok p, k')) :
    (p.forms = [] → ∀ e, Expr.Inside e p.expr → e = p.expr ∧ e.span = .absent) ∧
    (p.forms ≠ [] →
      (∀ e, Expr.Inside e p.expr → e.Nested source.toList) ∧
      ∀ (last : Nat) (tracing : Bool) (error : TypeError),
        ((p.check .empty).runFrom last tracing).result = .error error →
          ∃ e, Expr.Inside e p.expr ∧ error.span = e.span) := by
  constructor
  · intro hnil e he
    rw [expr, hnil] at he ⊢
    cases he with
    | refl => exact ⟨rfl, rfl⟩
    | child hc _ => cases hc
  · intro hne
    constructor
    · intro e he
      obtain ⟨a, b, hb, hlaid⟩ := exists_laid_of_parse h hne he
      exact hlaid.nested hb
    · intro last tracing error herror
      rcases exists_inside_of_check h herror with ⟨hnil, -⟩ | ⟨-, hinside⟩
      · exact absurd hnil hne
      · exact hinside

/-- A name that is not bound, in the bindings of a form behind a comment. -/
theorem spans_of_parse_unbound :
    let source := "; one form\n(letrec ((f (lambda () : number y))\n  (g (lambda () : T '(1 . 2)))) (f))"
    ∃ p k' error e, (parse source).runFrom 0 = (.ok p, k') ∧ p.forms ≠ [] ∧
      (∀ e, Expr.Inside e p.expr → e.Nested source.toList) ∧
      ((p.check .empty).runFrom 0 false).result = .error error ∧
      error.span = ⟨⟨43, 2, 33⟩, ⟨43, 2, 33⟩⟩ ∧ Expr.Inside e p.expr ∧ error.span = e.span := by
  intro source
  have hrun : ((parse source).runFrom 0).1.toOption.bind (fun p =>
      (error? ((p.check .empty).runFrom 0 false).result).map fun error =>
        (error.span, p.forms.length)) = some (⟨⟨43, 2, 33⟩, ⟨43, 2, 33⟩⟩, 1) := by decide +kernel
  obtain ⟨p, k', hparse, hrun⟩ := exists_of_toOption_bind hrun
  obtain ⟨error, herror, heq⟩ := Option.map_eq_some_iff.1 hrun
  obtain ⟨hspan, hlength⟩ := Prod.mk.inj heq
  have hforms : p.forms ≠ [] := fun hnil => by simp [hnil] at hlength
  have hcheck := error?_eq_some_iff.1 herror
  obtain ⟨hnested, herrors⟩ := (spans_of_parse hparse).2 hforms
  obtain ⟨e, he, hplace⟩ := herrors 0 false error hcheck
  exact ⟨p, k', error, e, hparse, hforms, hnested, hcheck, hspan, he, hplace⟩

/-- A text of one blank is a program, and that program has no place. -/
theorem not_nested_blank :
    ∃ p, (parse " ").runFrom 0 = (.ok p, 0) ∧ Expr.Inside p.expr p.expr ∧
      p.expr.span = .absent ∧ ¬ p.expr.Nested " ".toList := by
  have hread : Datum.readAll " " = .ok [] := by rfl
  refine ⟨⟨[]⟩, parse_eq_ok_iff.2 ⟨[], hread, .nil⟩, .refl, rfl, fun h => ?_⟩
  exact absurd h.placed (by decide)

end Program

end TypedScheme
