import TypedScheme.Expr.Printer
import TypedScheme.Proofs.Expr.WellFormed
import TypedScheme.Proofs.Ty.Writing
import TypedScheme.Proofs.Value.Writing

/-!
# Writing expressions

An expression is written as a datum with one shape for every form: declarations in parentheses and
quoted values behind a quote. The concrete form of an expression that comes from a text is the text of
this datum, and every token in it can be written.

## What this module delivers

- `Expr.datum`, the datum that an expression is written as, with `Expr.write_datum`: its text is the
  concrete form of the expression.
- `Expr.literals` and `Expr.each_isPlain_datum`: the numbers and strings of an expression are all that
  has to be plain.
- `Expr.Reads.written`: the datum of an expression that comes from a text can be written.
-/

set_option autoImplicit false

namespace TypedScheme

open Datum Lexeme

/-- The datum that a declaration is written as. -/
def Decl.datum (d : Decl) : Datum :=
  match d.ty? with
  | none => word d.name
  | some t => listOf [word d.name, colon, t.datum]

namespace Expr

/-! ## The datum of an expression -/

mutual

/-- The datum that an expression is written as. -/
def datum : Expr → Datum
  | missing => word "<nil>"
  | number _ n => .atom (Value.number n).token
  | boolean _ b => .atom (Value.boolean b).token
  | string _ s => .atom (Value.string s).token
  | quoted _ v _ => Datum.quoteOf v.datum
  | primitive t => word t.text
  | var t => word t.text
  | cond _ test consequent alternative =>
    listOf [word Keyword.cond.name, datum test, datum consequent, datum alternative]
  | lambda _ params result body =>
    listOf (word Keyword.lambda.name :: listOf (params.map fun p => p.decl.datum) :: colon ::
      result.datum :: data body)
  | app _ operator operands => listOf (datum operator :: data operands)
  | letin _ bindings body =>
    listOf (word Keyword.letin.name :: listOf (bindingData bindings) :: data body)
  | letrec _ bindings body =>
    listOf (word Keyword.letrec.name :: listOf (bindingData bindings) :: data body)
  | define _ decl value => listOf [word Keyword.define.name, decl.datum, datum value]
  | program forms => listOf (data forms)

/-- The data that expressions are written as. -/
def data : List Expr → List Datum
  | [] => []
  | e :: es => datum e :: data es

/-- The data that bindings are written as. -/
def bindingData : List (Decl × Expr) → List Datum
  | [] => []
  | (decl, value) :: rest => listOf [decl.datum, datum value] :: bindingData rest

end

mutual

/-- The numbers and strings of an expression, also those inside quoted values. -/
def literals : Expr → List Value
  | missing => []
  | number _ n => [.number n]
  | boolean _ _ => []
  | string _ s => [.string s]
  | quoted _ v _ => v.literals
  | primitive _ => []
  | var _ => []
  | cond _ test consequent alternative =>
    literals test ++ literals consequent ++ literals alternative
  | lambda _ _ _ body => literalsAll body
  | app _ operator operands => literals operator ++ literalsAll operands
  | letin _ bindings body => literalsBound bindings ++ literalsAll body
  | letrec _ bindings body => literalsBound bindings ++ literalsAll body
  | define _ _ value => literals value
  | program forms => literalsAll forms

/-- The numbers and strings of expressions. -/
def literalsAll : List Expr → List Value
  | [] => []
  | e :: es => literals e ++ literalsAll es

/-- The numbers and strings of bindings. -/
def literalsBound : List (Decl × Expr) → List Value
  | [] => []
  | (_, value) :: rest => literals value ++ literalsBound rest

end

/-! ## Text -/

end Expr

/-- The datum of a declaration is written as the declaration is. -/
theorem Decl.write_datum {d : Decl} (h : ∀ t, d.ty? = some t → t.isWhole = true) :
    d.datum.write = d.render.toList := by
  unfold Decl.datum Decl.render
  cases ht : d.ty? with
  | none => simp
  | some t => simp [writeAll, writeRest, Ty.write_datum (h t ht)]

/-- The data of parameters are written as the parameters are. -/
theorem Param.write_data {params : List Param} (h : ∀ p ∈ params, p.decl.IsProper true) :
    writeAll (params.map fun p => p.decl.datum) = (Param.renderAll params).toList := by
  induction params with
  | nil => rfl
  | cons p params ih =>
    obtain ⟨hp, hparams⟩ := List.forall_mem_cons.1 h
    have hdatum := Decl.write_datum hp.whole
    cases params with
    | nil => simp [renderAll, writeAll, writeRest, hdatum]
    | cons q params =>
      have hcons : renderAll (p :: q :: params) = p.decl.render ++ " " ++ renderAll (q :: params) :=
        String.intercalate_cons_cons
      rw [hcons, String.toList_append, String.toList_append, ← ih hparams, ← hdatum]
      simp [writeAll, writeRest]

namespace Expr

mutual

/-- The text of a well-formed expression is its concrete form. -/
theorem write_datum {e : Expr} (h : e.WellFormed) : e.datum.write = e.render.toList := by
  obtain ⟨hproper, hchildren⟩ := wellFormed_iff.1 h
  cases e with
  | missing | program => exact hproper.elim
  | number | boolean | string => rfl
  | quoted mark v span => simp [datum, render, Value.write_datum]
  | primitive | var => simp [datum, render]
  | cond span test consequent alternative =>
    simp only [children, List.forall_mem_cons] at hchildren
    obtain ⟨htest, hconsequent, halternative, -⟩ := hchildren
    simp [datum, render, Keyword.name, writeAll, writeRest, write_datum htest,
      write_datum hconsequent, write_datum halternative]
  | lambda span params result body =>
    obtain ⟨-, hparams, hresult⟩ := hproper
    have hbody : writeRest (data body) = (renderRest body).toList := writeRest_data hchildren
    simp [datum, render, Keyword.name, writeAll, writeRest, Param.write_data hparams,
      Ty.write_datum hresult, hbody]
  | app span operator operands =>
    obtain ⟨hoperator, hoperands⟩ := List.forall_mem_cons.1 hchildren
    simp [datum, render, writeAll, write_datum hoperator, writeRest_data hoperands]
  | letin span bindings body =>
    obtain ⟨hbindings, hbody⟩ := List.forall_mem_append.1 hchildren
    have hbindings := writeAll_bindingData hproper.2 hbindings
    simp [datum, render, Keyword.name, writeAll, writeRest, writeRest_data hbody, hbindings]
  | letrec span bindings body =>
    obtain ⟨hbindings, hbody⟩ := List.forall_mem_append.1 hchildren
    have hbindings := writeAll_bindingData hproper.2 hbindings
    simp [datum, render, Keyword.name, writeAll, writeRest, writeRest_data hbody, hbindings]
  | define span decl value =>
    simp [datum, render, Keyword.name, writeAll, writeRest, Decl.write_datum hproper.whole,
      write_datum (hchildren value (by simp [children]))]

/-- The data of expressions in a row are written as the expressions are. -/
theorem writeRest_data {es : List Expr} (h : ∀ e ∈ es, e.WellFormed) :
    writeRest (data es) = (renderRest es).toList := by
  cases es with
  | nil => rfl
  | cons e es =>
    obtain ⟨he, hes⟩ := List.forall_mem_cons.1 h
    simp [data, writeRest, renderRest, write_datum he, writeRest_data hes]

/-- The data of bindings are written as the bindings are. -/
theorem writeAll_bindingData {typed : Bool} {bs : List (Decl × Expr)}
    (hproper : ∀ b ∈ bs, b.1.IsProper typed) (h : ∀ e ∈ bs.map (·.2), e.WellFormed) :
    writeAll (bindingData bs) = (renderBindings bs).toList := by
  match bs with
  | [] => rfl
  | (decl, value) :: rest =>
    obtain ⟨hdecl, hproper⟩ := List.forall_mem_cons.1 hproper
    obtain ⟨hvalue, h⟩ := List.forall_mem_cons.1 h
    have hdecl := Decl.write_datum hdecl.whole
    have hvalue := write_datum hvalue
    have hrest := writeAll_bindingData hproper h
    match rest with
    | [] => simp [bindingData, renderBindings, writeAll, writeRest, hdecl, hvalue]
    | (decl', value') :: rest =>
      rw [renderBindings, String.toList_append, ← hrest]
      · simp [bindingData, writeAll, writeRest, hdecl, hvalue]
      · simp

end

/-! ## Plain tokens -/

end Expr

/-- A declaration can always be scanned again: it has no literals. -/
@[simp] theorem Decl.each_isPlain_datum (d : Decl) : d.datum.Each Token.IsPlain := by
  unfold Decl.datum
  cases d.ty? <;> simp

namespace Expr

mutual

/-- The tokens of an expression are plain exactly if those of its numbers and strings are. -/
theorem each_isPlain_datum (e : Expr) :
    e.datum.Each Token.IsPlain ↔ ∀ w ∈ e.literals, w.token.IsPlain := by
  cases e with
  | missing | primitive | var => simp [datum, literals]
  | number | string => simp [datum, literals, each_atom]
  | boolean t b => exact each_atom.trans (Value.isPlain_token_iff rfl)
  | quoted mark v span => exact each_isPlain_quoteOf.trans (Value.each_isPlain_datum v)
  | cond span a b c =>
    simp [datum, literals, each_isPlain_datum a, each_isPlain_datum b, each_isPlain_datum c, or_imp,
      forall_and]
  | lambda span params result body => simp [datum, literals, each_isPlain_data body]
  | app span f es =>
    simp [datum, literals, each_isPlain_datum f, each_isPlain_data es, or_imp, forall_and]
  | letin span bs body | letrec span bs body =>
    simp [datum, literals, each_isPlain_bindingData bs, each_isPlain_data body, or_imp, forall_and]
  | define span decl value => simp [datum, literals, each_isPlain_datum value]
  | program forms => simp [datum, literals, each_isPlain_data forms]

/-- Expressions can be scanned again if their literals can. -/
theorem each_isPlain_data (es : List Expr) :
    (∀ d ∈ data es, d.Each Token.IsPlain) ↔ ∀ w ∈ literalsAll es, w.token.IsPlain := by
  cases es with
  | nil => simp [data, literalsAll]
  | cons e es =>
    rw [data, literalsAll, List.forall_mem_cons, List.forall_mem_append, each_isPlain_datum e,
      each_isPlain_data es]

theorem each_isPlain_bindingData (bs : List (Decl × Expr)) :
    (∀ d ∈ bindingData bs, d.Each Token.IsPlain) ↔ ∀ w ∈ literalsBound bs, w.token.IsPlain := by
  match bs with
  | [] => simp [bindingData, literalsBound]
  | (decl, value) :: rest =>
    rw [bindingData, literalsBound, List.forall_mem_cons, List.forall_mem_append,
      each_isPlain_bindingData rest]
    simp [each_isPlain_datum value]

end

/-! ## Written tokens -/

theorem written_keyword (keyword : Keyword) : (word keyword.name).Written :=
  written_word (isSymbolText_of_isWord (by cases keyword <;> decide +kernel))

end Expr

/-- A declaration of a name that can be scanned is written with tokens that can be. -/
theorem Decl.written_datum {d : Decl} (hname : IsSymbolText d.name.toList)
    (h : ∀ t, d.ty? = some t → t.isWhole = true) : d.datum.Written := by
  unfold Decl.datum
  cases ht : d.ty? with
  | none => exact written_word hname
  | some t =>
    refine written_list ?_
    simp only [List.forall_mem_cons]
    exact ⟨written_word hname, written_colon, Ty.written_datum (h t ht), by simp⟩

namespace Expr

/-- A name that comes from a text is the text of a symbol. -/
theorem IsName.isSymbolText {t : Token} (h : IsName t) (ht : (Datum.atom t).Each Token.Scanned) :
    IsSymbolText t.text.toList :=
  (each_atom.1 ht).isSymbolText h.1

theorem ReadsParam.isSymbolText {n n' : Numbering} {d : Datum} {p : Param}
    (h : ReadsParam n d p n') (hd : d.Each Token.Scanned) : IsSymbolText p.name.toList := by
  cases h with
  | mk hname _ _ => exact hname.isSymbolText ((each_list.1 hd).2.1 _ (by simp))

theorem ReadsParams.written {seen : List String} {n n' : Numbering} {ds : List Datum}
    {ps : List Param} (h : ReadsParams seen n ds ps n') (hds : ∀ d ∈ ds, d.Each Token.Scanned) :
    ∀ p ∈ ps, p.decl.datum.Written := by
  induction h with
  | nil => simp
  | cons hp _ _ ih =>
    obtain ⟨hd, hds⟩ := List.forall_mem_cons.1 hds
    exact List.forall_mem_cons.2
      ⟨Decl.written_datum (hp.isSymbolText hd) hp.isProper.whole, ih hds⟩

/-- A declaration that is read from a text stands for something written. -/
theorem ReadsDecl.written {untyped : Bool} {k k' : Nat} {ds : List Datum} {decl : Decl}
    (h : ReadsDecl untyped k ds decl k') (hds : ∀ d ∈ ds, d.Each Token.Scanned) :
    decl.datum.Written := by
  refine Decl.written_datum ?_ h.isProper.whole
  cases h with
  | bare hname => exact hname.isSymbolText (hds _ (by simp))
  | enclosed hp => exact hp.isSymbolText (hds _ (by simp))
  | inline hname _ _ => exact hname.isSymbolText (hds _ (by simp))

/-- An atom that is read from a text stands for something written. -/
theorem ReadsAtom.written {t : Token} {e : Expr} (h : ReadsAtom t e) (ht : t.Scanned) :
    e.datum.Written := by
  cases h with
  | number hkind hn => exact Value.written_token (v := .number _) (ht.isFinite hkind hn) rfl
  | boolean => exact Value.written_token (v := .boolean _) trivial rfl
  | string hkind hs => exact Value.written_token (v := .string _) (ht.isText hkind hs) rfl
  | primitive hkind _ => exact written_word (ht.isSymbolText hkind)
  | var hname _ => exact written_word (ht.isSymbolText hname.1)

mutual

/-- The datum of an expression that comes from a text can be written. -/
theorem Reads.written {k k' : Nat} {d : Datum} {e : Expr} (hd : d.Each Token.Scanned) :
    Reads k d e k' → e.datum.Written
  | .atom h => h.written (each_atom.1 hd)
  | .quoted h => written_quote (Value.written_datum (h.isLegible (each_quoted.1 hd).2))
  | .quoteForm _ h =>
    written_quote (Value.written_datum (h.isLegible ((each_list.1 hd).2.1 _ (by simp))))
  | .cond _ ha hb hc => by
    have hds := (each_list.1 hd).2.1
    simp only [List.forall_mem_cons] at hds
    obtain ⟨-, hda, hdb, hdc, -⟩ := hds
    refine written_list ?_
    simp only [List.forall_mem_cons]
    exact ⟨written_keyword .cond, ha.written hda, hb.written hdb, hc.written hdc, by simp⟩
  | .lambda _ _ hparams hresult hbody => by
    have hds := (each_list.1 hd).2.1
    simp only [List.forall_mem_cons, each_list] at hds
    obtain ⟨-, ⟨-, hdparams, -⟩, -, -, hdbody⟩ := hds
    refine written_list ?_
    simp only [List.forall_mem_cons]
    refine ⟨written_keyword .lambda, written_list ?_, written_colon,
      Ty.written_datum hresult.isWhole, hbody.written hdbody⟩
    exact List.forall_mem_map.2 (hparams.written hdparams)
  | .app _ hf hes => by
    obtain ⟨hdf, hdes⟩ := List.forall_mem_cons.1 (each_list.1 hd).2.1
    exact written_list (List.forall_mem_cons.2 ⟨hf.written hdf, hes.written hdes⟩)
  | @Reads.letForm recursive _ _ _ _ _ _ _ _ _ _ bindings es _ hbindings hbody => by
    have hds := (each_list.1 hd).2.1
    simp only [List.forall_mem_cons, each_list] at hds
    obtain ⟨-, ⟨-, hdbindings, -⟩, hdbody⟩ := hds
    -- The two forms differ in their keyword alone.
    have hall : ∀ keyword : Keyword,
        (listOf (word keyword.name :: listOf (bindingData bindings) :: data es)).Written := by
      intro keyword
      refine written_list ?_
      simp only [List.forall_mem_cons]
      exact ⟨written_keyword keyword, written_list (hbindings.written hdbindings),
        hbody.written hdbody⟩
    cases recursive with
    | false => exact hall .letin
    | true => exact hall .letrec
  | .define _ hdecl hvalue => by
    have hds := (each_list.1 hd).2.1
    simp only [List.forall_mem_cons, List.forall_mem_append] at hds
    obtain ⟨-, hddecl, hdvalue, -⟩ := hds
    refine written_list ?_
    simp only [List.forall_mem_cons]
    exact ⟨written_keyword .define, hdecl.written hddecl, hvalue.written hdvalue, by simp⟩

theorem ReadsAll.written {k k' : Nat} {ds : List Datum} {es : List Expr}
    (hds : ∀ d ∈ ds, d.Each Token.Scanned) : ReadsAll k ds es k' → ∀ d ∈ data es, d.Written
  | .nil => by simp [data]
  | .cons he hes => by
    obtain ⟨hd, hds⟩ := List.forall_mem_cons.1 hds
    exact List.forall_mem_cons.2 ⟨he.written hd, hes.written hds⟩

theorem ReadsBindings.written {recursive : Bool} {seen : List String} {k k' : Nat}
    {ds : List Datum} {bs : List (Decl × Expr)} (hds : ∀ d ∈ ds, d.Each Token.Scanned) :
    ReadsBindings recursive seen k ds bs k' → ∀ d ∈ bindingData bs, d.Written
  | .nil => by simp [bindingData]
  | .cons hdecl hvalue _ hrest => by
    obtain ⟨hd, hds⟩ := List.forall_mem_cons.1 hds
    have hd := (each_list.1 hd).2.1
    simp only [List.forall_mem_cons, List.forall_mem_append] at hd
    refine List.forall_mem_cons.2 ⟨written_list ?_, hrest.written hds⟩
    simp only [List.forall_mem_cons]
    exact ⟨hdecl.written hd.1, hvalue.written hd.2.1, by simp⟩

end

end Expr

end TypedScheme
