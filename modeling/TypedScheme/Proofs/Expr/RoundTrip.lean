import TypedScheme.Proofs.Expr.Annotations
import TypedScheme.Proofs.Expr.Writing

/-!
# Reading back what has been printed

The concrete form of an expression that comes from a text is read again, unless it shows a number with an
exponent or a string with an uncommon escape. What is read is the same expression: other tokens in other
places, and other numbers for the type variables, but the same forms, names, values and types.

## What this module delivers

- `Expr.outline`, an expression without the places and spellings of its parts.
- `Expr.Reads.fresh`: the type variables of an expression are numbered after those of what was read
  before.
- `Expr.Reads.reread`, one case for every form: the datum that an expression is written as is read as the
  same expression with its type variables renamed.
- `Expr.parse_render`: when the concrete form of an expression is read, and as what.
-/

set_option autoImplicit false

namespace TypedScheme

open Datum

/-! ## Outlines -/

/-- A token of which only the name counts. -/
def Token.ofName (name : String) : Token := ⟨.symbol, .absent, name⟩

/-- A token of which nothing counts. -/
def Token.blank : Token := .bare .endOfInput .absent

/-- A parameter by its name and type. -/
def Param.outline (p : Param) : Param := ⟨.ofName p.name, p.ty, .absent⟩

/-- A declaration by its name and type. -/
def Decl.outline (d : Decl) : Decl := ⟨.ofName d.name, d.ty?, .absent⟩

/-- Declarations of one outline have one name. -/
theorem Decl.name_eq_of_outline {d d' : Decl} (h : d.outline = d'.outline) : d.name = d'.name := by
  have hname : d.outline.name = d'.outline.name := congrArg Decl.name h
  exact hname

theorem Param.outline_decl {p p' : Param} (h : p.outline = p'.outline) :
    p.decl.outline = p'.decl.outline :=
  congrArg Param.decl h

namespace Expr

mutual

/-- An expression by its forms, names, values and types, without the places and spellings of its
parts. -/
def outline : Expr → Expr
  | missing => missing
  | number _ n => number .blank n
  | boolean _ b => boolean .blank b
  | string _ s => string .blank s
  | quoted _ v _ => quoted .blank v .absent
  | primitive t => primitive (.ofName t.text)
  | var t => var (.ofName t.text)
  | cond _ test consequent alternative =>
    cond .absent (outline test) (outline consequent) (outline alternative)
  | lambda _ params result body =>
    lambda .absent (params.map Param.outline) result (outlineAll body)
  | app _ operator operands => app .absent (outline operator) (outlineAll operands)
  | letin _ bindings body => letin .absent (outlineBound bindings) (outlineAll body)
  | letrec _ bindings body => letrec .absent (outlineBound bindings) (outlineAll body)
  | define _ decl value => define .absent decl.outline (outline value)
  | program forms => program (outlineAll forms)

/-- Expressions by their outlines. -/
def outlineAll : List Expr → List Expr
  | [] => []
  | e :: es => outline e :: outlineAll es

/-- Bindings by their outlines. -/
def outlineBound : List (Decl × Expr) → List (Decl × Expr)
  | [] => []
  | (decl, value) :: rest => (decl.outline, outline value) :: outlineBound rest

end

/-! ## New type variables -/

theorem over_Ioi_mono {k k' : Nat} (hk : k ≤ k') {ts : List Ty}
    (h : ∀ t ∈ ts, t.Over (Set.Ioi k')) : ∀ t ∈ ts, t.Over (Set.Ioi k) :=
  fun t ht x hx => Nat.lt_of_le_of_lt hk (h t ht x hx)

/-- A parameter that is read has only variables after the number where the reading started. -/
theorem ReadsParam.within {k : Nat} {n n' : Numbering} {d : Datum} {p : Param} (hn : n.Within k)
    (h : ReadsParam n d p n') :
    n'.Within k ∧ n.last ≤ n'.last ∧ p.ty.Over (Set.Ioi k) := by
  cases h with
  | mk _ _ ht => exact ht.within hn

theorem ReadsParams.within {seen : List String} {k : Nat} {n n' : Numbering} {ds : List Datum}
    {ps : List Param} (hn : n.Within k) (h : ReadsParams seen n ds ps n') :
    n'.Within k ∧ n.last ≤ n'.last ∧ ∀ p ∈ ps, p.ty.Over (Set.Ioi k) := by
  induction h with
  | nil => exact ⟨hn, Nat.le_refl _, by simp⟩
  | cons hp _ _ ih =>
    obtain ⟨hn₁, hle₁, hover⟩ := hp.within hn
    obtain ⟨hn₂, hle₂, hovers⟩ := ih hn₁
    exact ⟨hn₂, Nat.le_trans hle₁ hle₂, List.forall_mem_cons.2 ⟨hover, hovers⟩⟩

/-- A declaration that is read has only variables after the number where the reading started. -/
theorem ReadsDecl.fresh {untyped : Bool} {k k' : Nat} {ds : List Datum} {decl : Decl}
    (h : ReadsDecl untyped k ds decl k') :
    k ≤ k' ∧ ∀ t, decl.ty? = some t → t.Over (Set.Ioi k) := by
  cases h with
  | bare => exact ⟨Nat.le_refl k, nofun⟩
  | enclosed hp =>
    obtain ⟨-, hle, hover⟩ := hp.within (Numbering.within_start k)
    refine ⟨hle, fun t ht => ?_⟩
    cases ht
    exact hover
  | inline _ _ ht =>
    obtain ⟨-, hle, hover⟩ := ht.within (Numbering.within_start k)
    refine ⟨hle, fun t ht => ?_⟩
    cases ht
    exact hover

mutual

/-- The type variables of an expression are numbered after those of what was read before. -/
theorem Reads.fresh {k k' : Nat} {d : Datum} {e : Expr} :
    Reads k d e k' → k ≤ k' ∧ e.Carries (Ty.Over (Set.Ioi k))
  | .atom h => by
    refine ⟨Nat.le_refl k, ?_⟩
    cases h <;> simp [Carries, annotations]
  | .quoted _ | .quoteForm _ _ => ⟨Nat.le_refl k, by simp [Carries, annotations]⟩
  | .cond _ ha hb hc => by
    obtain ⟨hle₁, hcarries₁⟩ := ha.fresh
    obtain ⟨hle₂, hcarries₂⟩ := hb.fresh
    obtain ⟨hle₃, hcarries₃⟩ := hc.fresh
    -- Numbers only grow, so what is new for a part is new for the whole.
    exact ⟨by omega, carries_cond.2 ⟨hcarries₁, over_Ioi_mono hle₁ hcarries₂,
      over_Ioi_mono (Nat.le_trans hle₁ hle₂) hcarries₃⟩⟩
  | .lambda _ _ hparams hresult hbody => by
    obtain ⟨hn₁, hle₁, hover₁⟩ := hparams.within (Numbering.within_start k)
    obtain ⟨hn₂, hle₂, hover₂⟩ := hresult.within hn₁
    obtain ⟨hle₃, hcarries⟩ := hbody.fresh
    exact ⟨Nat.le_trans hn₂.1 hle₃,
      carries_lambda.2 ⟨hover₁, hover₂, over_Ioi_mono hn₂.1 hcarries⟩⟩
  | .app _ hf hes => by
    obtain ⟨hle₁, hcarries₁⟩ := hf.fresh
    obtain ⟨hle₂, hcarries₂⟩ := hes.fresh
    exact ⟨Nat.le_trans hle₁ hle₂,
      carries_app.2 ⟨hcarries₁, over_Ioi_mono hle₁ hcarries₂⟩⟩
  | @Reads.letForm recursive _ _ _ _ _ _ _ _ _ _ bindings es _ hbindings hbody => by
    obtain ⟨hle₁, hcarries₁⟩ := hbindings.fresh
    obtain ⟨hle₂, hcarries₂⟩ := hbody.fresh
    have hcarries₂ : CarriesAll (Ty.Over (Set.Ioi k)) es := over_Ioi_mono hle₁ hcarries₂
    refine ⟨Nat.le_trans hle₁ hle₂, ?_⟩
    cases recursive with
    | false => exact carries_letin.2 ⟨hcarries₁, hcarries₂⟩
    | true => exact carries_letrec.2 ⟨hcarries₁, hcarries₂⟩
  | .define _ hdecl hvalue => by
    obtain ⟨hle₁, hcarries₁⟩ := hdecl.fresh
    obtain ⟨hle₂, hcarries₂⟩ := hvalue.fresh
    exact ⟨Nat.le_trans hle₁ hle₂,
      carries_define.2 ⟨hcarries₁, over_Ioi_mono hle₁ hcarries₂⟩⟩

theorem ReadsAll.fresh {k k' : Nat} {ds : List Datum} {es : List Expr} :
    ReadsAll k ds es k' → k ≤ k' ∧ CarriesAll (Ty.Over (Set.Ioi k)) es
  | .nil => ⟨Nat.le_refl k, by simp [CarriesAll, annotationsAll]⟩
  | .cons he hes => by
    obtain ⟨hle₁, hcarries₁⟩ := he.fresh
    obtain ⟨hle₂, hcarries₂⟩ := hes.fresh
    exact ⟨Nat.le_trans hle₁ hle₂,
      carriesAll_cons.2 ⟨hcarries₁, over_Ioi_mono hle₁ hcarries₂⟩⟩

theorem ReadsBindings.fresh {recursive : Bool} {seen : List String} {k k' : Nat} {ds : List Datum}
    {bs : List (Decl × Expr)} :
    ReadsBindings recursive seen k ds bs k' → k ≤ k' ∧ CarriesBound (Ty.Over (Set.Ioi k)) bs
  | .nil => ⟨Nat.le_refl k, by simp [CarriesBound, annotationsBound]⟩
  | .cons hdecl hvalue _ hrest => by
    obtain ⟨hle₁, hcarries₁⟩ := hdecl.fresh
    obtain ⟨hle₂, hcarries₂⟩ := hvalue.fresh
    obtain ⟨hle₃, hcarries₃⟩ := hrest.fresh
    exact ⟨by omega, carriesBound_cons.2 ⟨hcarries₁, over_Ioi_mono hle₁ hcarries₂,
      over_Ioi_mono (Nat.le_trans hle₁ hle₂) hcarries₃⟩⟩

end

/-! ## Reading what has been written -/

variable {ρ : Nat → Nat}

/-- A declaration in parentheses is read with its type renamed. -/
theorem exists_readsParam {k : Nat} {n n' : Numbering} {token : Token} {ty d : Datum} {t : Ty}
    (hn : n.Within k) (hρ : Numbering.Shifts ρ k) (hname : IsName token) (ht : Ty.Spelled n ty t n')
    (hmatch : Matches (listOf [word token.text, colon, t.datum]) d) :
    ∃ p, ReadsParam (n.respell ρ) d p (n'.respell ρ) ∧
      p.outline = ⟨.ofName token.text, t.rename ρ, .absent⟩ := by
  obtain ⟨left, _, right, rfl, hds⟩ := matches_listOf hmatch
  obtain _ | ⟨hword, _ | ⟨hcolon, _ | ⟨hty, _ | _⟩⟩⟩ := hds
  obtain ⟨token', rfl, hkind, htext⟩ := matches_word hword
  have hname' : IsName token' := ⟨hkind, by rw [htext]; exact hname.2⟩
  refine ⟨_, .mk hname' (isColon_of_matches hcolon) (ht.reread hn hρ hty), ?_⟩
  rw [Param.outline, Param.name, htext]

/-- The datum that a parameter is written as is read as the parameter, renamed. -/
theorem ReadsParam.reread {k : Nat} {n n' : Numbering} {d d' : Datum} {p : Param} (hn : n.Within k)
    (hρ : Numbering.Shifts ρ k) (h : ReadsParam n d p n') (hmatch : Matches p.decl.datum d') :
    ∃ p', ReadsParam (n.respell ρ) d' p' (n'.respell ρ) ∧ p'.outline = (p.rename ρ).outline := by
  cases h with
  | mk hname _ ht => exact exists_readsParam hn hρ hname ht hmatch

/-- The data that parameters are written as are read as the parameters, renamed. -/
theorem ReadsParams.reread {seen : List String} {k : Nat} {n n' : Numbering} {ds ds' : List Datum}
    {ps : List Param} (hn : n.Within k) (hρ : Numbering.Shifts ρ k) (h : ReadsParams seen n ds ps n')
    (hmatch : List.Forall₂ Matches (ps.map fun p => p.decl.datum) ds') :
    ∃ ps', ReadsParams seen (n.respell ρ) ds' ps' (n'.respell ρ) ∧
      ps'.map Param.outline = (ps.map (Param.rename ρ)).map Param.outline := by
  induction h generalizing ds' with
  | nil =>
    cases hmatch
    exact ⟨[], .nil, rfl⟩
  | @cons seen n n₁ n₂ d ds p ps hp hseen _ ih =>
    obtain _ | ⟨hmp, hmps⟩ := hmatch
    obtain ⟨p', hp', houtline⟩ := hp.reread hn hρ hmp
    obtain ⟨ps', hps', houtlines⟩ := ih (hp.within hn).1 hmps
    have hname : p'.name = p.name := Decl.name_eq_of_outline (Param.outline_decl houtline)
    refine ⟨p' :: ps', .cons hp' (by rwa [hname]) (by rwa [hname]), ?_⟩
    rw [List.map_cons, List.map_cons, List.map_cons, houtline, houtlines]

/-- The datum that a declaration is written as is read as the declaration, renamed. -/
theorem ReadsDecl.reread {untyped : Bool} {k k' : Nat} {ds : List Datum} {d' : Datum} {decl : Decl}
    (hρ : Numbering.Shifts ρ k) (h : ReadsDecl untyped k ds decl k') (hmatch : Matches decl.datum d') :
    ∃ decl', ReadsDecl untyped (ρ k) [d'] decl' (ρ k') ∧
      decl'.outline = (decl.rename ρ).outline := by
  cases h with
  | bare hname =>
    obtain ⟨token', rfl, hkind, htext⟩ := matches_word hmatch
    refine ⟨_, .bare ⟨hkind, by rw [htext]; exact hname.2⟩, ?_⟩
    rw [Decl.outline, Decl.name, htext]
    rfl
  | enclosed hp =>
    obtain ⟨p', hp', houtline⟩ := hp.reread (Numbering.within_start k) hρ hmatch
    exact ⟨p'.decl, .enclosed hp', Param.outline_decl houtline⟩
  | inline hname _ ht =>
    obtain ⟨p', hp', houtline⟩ := exists_readsParam (Numbering.within_start k) hρ hname ht hmatch
    exact ⟨p'.decl, .enclosed hp', congrArg Param.decl houtline⟩

/-- A keyword is read again as the keyword. -/
theorem headKeyword?_of_matches {keyword : Keyword} {d : Datum}
    (h : Matches (word keyword.name) d) : headKeyword? [d] = some keyword := by
  obtain ⟨t, rfl, hkind, htext⟩ := matches_word h
  rw [headKeyword?, if_pos hkind, htext]
  cases keyword <;> rfl

/-- No operator has the name of a keyword. -/
theorem ofName?_of_isPrimitive {name : String} (h : isPrimitive name = true) :
    Keyword.ofName? name = none := by
  have hall : ∀ name ∈ primitiveNames, Keyword.ofName? name = none := by decide
  exact hall name (List.contains_iff_mem.1 h)

/-- No expression is written as a keyword. -/
theorem Reads.headKeyword?_of_matches {k k' : Nat} {d d' : Datum} {e : Expr} (h : Reads k d e k')
    (hmatch : Matches e.datum d') : headKeyword? [d'] = none := by
  -- An expression is written as a word, as a list or as a quotation.
  have hword {name : String} (h : Matches (word name) d') (hname : Keyword.ofName? name = none) :
      headKeyword? [d'] = none := by
    obtain ⟨t, rfl, hkind, htext⟩ := matches_word h
    rw [headKeyword?, if_pos hkind, htext, hname]
  have hlist {ds : List Datum} (h : Matches (listOf ds) d') : headKeyword? [d'] = none := by
    obtain ⟨_, _, _, rfl, -⟩ := matches_listOf h
    rfl
  have hquote {d : Datum} (h : Matches (Datum.quoteOf d) d') : headKeyword? [d'] = none := by
    obtain ⟨_, _, rfl, -⟩ := matches_quoteOf h
    rfl
  cases h with
  | atom h =>
    cases h with
    | number | boolean | string =>
      cases hmatch with
      | atom h =>
        rw [headKeyword?, if_neg]
        rw [h.1]
        nofun
    | primitive _ hprimitive => exact hword hmatch (ofName?_of_isPrimitive hprimitive)
    | var hname _ => exact hword hmatch hname.2
  | quoted | quoteForm => exact hquote hmatch
  | cond | lambda | app | define => exact hlist hmatch
  | @letForm recursive => cases recursive <;> exact hlist hmatch

/-- The datum that an atom is written as is read as the atom. -/
theorem ReadsAtom.reread {t : Token} {d' : Datum} {e : Expr} (h : ReadsAtom t e) (ht : t.Scanned)
    (hplain : ∀ w ∈ e.literals, w.token.IsPlain) (hmatch : Matches e.datum d') (k : Nat) :
    ∃ e', Reads k d' e' k ∧ e'.outline = (e.rename ρ).outline := by
  cases h with
  | @number n hkind hn =>
    cases hmatch with
    | atom h =>
      have hlegible : (Value.number n).IsLegible := ht.isFinite hkind hn
      cases Value.denotedAtom_of_same hlegible rfl (hplain _ List.mem_cons_self) h with
      | number hkind hn => exact ⟨_, .atom (.number hkind hn), rfl⟩
  | boolean =>
    cases hmatch with
    | atom h =>
      refine ⟨_, .atom (.boolean h.1), ?_⟩
      rw [outline, h.2, Value.token, Value.booleanValue_renderBoolean]
      rfl
  | @string s hkind hs =>
    cases hmatch with
    | atom h =>
      have hlegible : (Value.string s).IsLegible := ht.isText hkind hs
      cases Value.denotedAtom_of_same hlegible rfl (hplain _ List.mem_cons_self) h with
      | string hkind hs => exact ⟨_, .atom (.string hkind hs), rfl⟩
  | primitive hkind hprimitive =>
    obtain ⟨t', rfl, hkind, htext⟩ := matches_word hmatch
    refine ⟨_, .atom (.primitive hkind (by rwa [htext])), ?_⟩
    rw [outline, htext]
    rfl
  | var hname hprimitive =>
    obtain ⟨t', rfl, hkind, htext⟩ := matches_word hmatch
    refine ⟨_, .atom (.var ⟨hkind, by rw [htext]; exact hname.2⟩ (by rwa [htext])), ?_⟩
    rw [outline, htext]
    rfl

mutual

/-- The datum that an expression is written as is read as the same expression, with its type variables
renamed. -/
theorem Reads.reread {k k' : Nat} {d d' : Datum} {e : Expr} (hρ : Numbering.Shifts ρ k)
    (hd : d.Each Token.Scanned) (hplain : ∀ w ∈ e.literals, w.token.IsPlain)
    (hmatch : Matches e.datum d') :
    Reads k d e k' → ∃ e', Reads (ρ k) d' e' (ρ k') ∧ e'.outline = (e.rename ρ).outline
  | .atom h => h.reread (each_atom.1 hd) hplain hmatch (ρ k)
  | .quoted h => by
    obtain ⟨mark, d', rfl, hd'⟩ := matches_quoteOf hmatch
    exact ⟨_, .quoted (Value.denoted_of_matches (h.isLegible (each_quoted.1 hd).2) hplain hd'), rfl⟩
  | .quoteForm _ h => by
    obtain ⟨mark, d', rfl, hd'⟩ := matches_quoteOf hmatch
    have hlegible := h.isLegible ((each_list.1 hd).2.1 _ (by simp))
    exact ⟨_, .quoted (Value.denoted_of_matches hlegible hplain hd'), rfl⟩
  | .cond _ ha hb hc => by
    have hds := (each_list.1 hd).2.1
    simp only [List.forall_mem_cons] at hds
    obtain ⟨-, hda, hdb, hdc, -⟩ := hds
    simp only [literals, List.forall_mem_append] at hplain
    obtain ⟨⟨hpa, hpb⟩, hpc⟩ := hplain
    -- What matches a written list is a list of as many data, which match one by one.
    obtain ⟨left, _, right, rfl, hmatches⟩ := matches_listOf hmatch
    obtain _ | ⟨hmk, _ | ⟨hma, _ | ⟨hmb, _ | ⟨hmc, _ | _⟩⟩⟩⟩ := hmatches
    have hρ₁ := hρ.mono ha.fresh.1
    have hρ₂ := hρ₁.mono hb.fresh.1
    obtain ⟨a', ha', houta⟩ := ha.reread hρ hda hpa hma
    obtain ⟨b', hb', houtb⟩ := hb.reread hρ₁ hdb hpb hmb
    obtain ⟨c', hc', houtc⟩ := hc.reread hρ₂ hdc hpc hmc
    refine ⟨_, .cond (headKeyword?_of_matches hmk) ha' hb' hc', ?_⟩
    rw [outline, rename, outline, houta, houtb, houtc]
  | .lambda _ _ hparams hresult hbody => by
    have hds := (each_list.1 hd).2.1
    simp only [List.forall_mem_cons, each_list] at hds
    obtain ⟨-, ⟨-, hdparams, -⟩, -, -, hdbody⟩ := hds
    obtain ⟨left, _, right, rfl, hmatches⟩ := matches_listOf hmatch
    obtain _ | ⟨hmk, _ | ⟨hmparams, _ | ⟨hmcolon, _ | ⟨hmresult, hmbody⟩⟩⟩⟩ := hmatches
    obtain ⟨open_, ds', close, rfl, hmds⟩ := matches_listOf hmparams
    have hn₁ := (hparams.within (Numbering.within_start k)).1
    have hn₂ := (hresult.within hn₁).1
    obtain ⟨ps', hps', houtps⟩ := hparams.reread (Numbering.within_start k) hρ hmds
    obtain ⟨es', hes', houtes⟩ := hbody.reread (hρ.mono hn₂.1) hdbody hplain hmbody
    refine ⟨_, .lambda (headKeyword?_of_matches hmk) (isColon_of_matches hmcolon) hps'
      (hresult.reread hn₁ hρ hmresult) hes', ?_⟩
    rw [outline, rename, outline, houtps, houtes]
  | .app _ hf hes => by
    obtain ⟨hdf, hdes⟩ := List.forall_mem_cons.1 (each_list.1 hd).2.1
    obtain ⟨hpf, hpes⟩ := List.forall_mem_append.1 hplain
    obtain ⟨left, _, right, rfl, hmatches⟩ := matches_listOf hmatch
    obtain _ | ⟨hmf, hmes⟩ := hmatches
    obtain ⟨f', hf', houtf⟩ := hf.reread hρ hdf hpf hmf
    obtain ⟨es', hes', houtes⟩ := hes.reread (hρ.mono hf.fresh.1) hdes hpes hmes
    refine ⟨_, .app (hf.headKeyword?_of_matches hmf) hf' hes', ?_⟩
    rw [outline, rename, outline, houtf, houtes]
  | @Reads.letForm recursive _ _ _ _ _ _ _ _ _ _ bindings es _ hbindings hbody => by
    have hds := (each_list.1 hd).2.1
    simp only [List.forall_mem_cons, each_list] at hds
    obtain ⟨-, ⟨-, hdbindings, -⟩, hdbody⟩ := hds
    -- The two forms differ in their keyword alone.
    have hplain : ∀ w ∈ literalsBound bindings ++ literalsAll es, w.token.IsPlain := by
      cases recursive <;> exact hplain
    have hmatch : Matches (listOf (word (keywordOf recursive).name ::
        listOf (bindingData bindings) :: data es)) d' := by
      cases recursive <;> exact hmatch
    obtain ⟨hpbindings, hpbody⟩ := List.forall_mem_append.1 hplain
    obtain ⟨left, _, right, rfl, hmatches⟩ := matches_listOf hmatch
    obtain _ | ⟨hmk, _ | ⟨hmbindings, hmbody⟩⟩ := hmatches
    obtain ⟨open_, ds', close, rfl, hmds⟩ := matches_listOf hmbindings
    obtain ⟨bs', hbs', houtbs⟩ := hbindings.reread hρ hdbindings hpbindings hmds
    obtain ⟨es', hes', houtes⟩ :=
      hbody.reread (hρ.mono hbindings.fresh.1) hdbody hpbody hmbody
    refine ⟨_, .letForm (headKeyword?_of_matches hmk) hbs' hes', ?_⟩
    cases recursive with
    | false => rw [if_neg nofun, if_neg nofun, outline, rename, outline, houtbs, houtes]
    | true => rw [if_pos rfl, if_pos rfl, outline, rename, outline, houtbs, houtes]
  | .define _ hdecl hvalue => by
    have hds := (each_list.1 hd).2.1
    simp only [List.forall_mem_cons, List.forall_mem_append] at hds
    obtain ⟨-, -, hdvalue, -⟩ := hds
    rw [literals] at hplain
    obtain ⟨left, _, right, rfl, hmatches⟩ := matches_listOf hmatch
    obtain _ | ⟨hmk, _ | ⟨hmdecl, _ | ⟨hmvalue, _ | _⟩⟩⟩ := hmatches
    obtain ⟨decl', hdecl', houtdecl⟩ := hdecl.reread hρ hmdecl
    obtain ⟨value', hvalue', houtvalue⟩ :=
      hvalue.reread (hρ.mono hdecl.fresh.1) hdvalue hplain hmvalue
    refine ⟨_, .define (headKeyword?_of_matches hmk) hdecl' hvalue', ?_⟩
    rw [outline, rename, outline, houtdecl, houtvalue]

theorem ReadsAll.reread {k k' : Nat} {ds ds' : List Datum} {es : List Expr} (hρ : Numbering.Shifts ρ k)
    (hds : ∀ d ∈ ds, d.Each Token.Scanned) (hplain : ∀ w ∈ literalsAll es, w.token.IsPlain)
    (hmatch : List.Forall₂ Matches (data es) ds') :
    ReadsAll k ds es k' →
      ∃ es', ReadsAll (ρ k) ds' es' (ρ k') ∧ outlineAll es' = outlineAll (renameAll ρ es)
  | .nil => by
    cases hmatch
    exact ⟨[], .nil, rfl⟩
  | .cons he hes => by
    obtain ⟨hd, hds⟩ := List.forall_mem_cons.1 hds
    obtain ⟨hpe, hpes⟩ := List.forall_mem_append.1 hplain
    obtain _ | ⟨hme, hmes⟩ := hmatch
    obtain ⟨e', he', houte⟩ := he.reread hρ hd hpe hme
    obtain ⟨es', hes', houtes⟩ := hes.reread (hρ.mono he.fresh.1) hds hpes hmes
    refine ⟨e' :: es', .cons he' hes', ?_⟩
    rw [outlineAll, renameAll, outlineAll, houte, houtes]

theorem ReadsBindings.reread {recursive : Bool} {seen : List String} {k k' : Nat}
    {ds ds' : List Datum} {bs : List (Decl × Expr)} (hρ : Numbering.Shifts ρ k)
    (hds : ∀ d ∈ ds, d.Each Token.Scanned) (hplain : ∀ w ∈ literalsBound bs, w.token.IsPlain)
    (hmatch : List.Forall₂ Matches (bindingData bs) ds') :
    ReadsBindings recursive seen k ds bs k' →
      ∃ bs', ReadsBindings recursive seen (ρ k) ds' bs' (ρ k') ∧
        outlineBound bs' = outlineBound (renameBound ρ bs)
  | .nil => by
    cases hmatch
    exact ⟨[], .nil, rfl⟩
  | @ReadsBindings.cons _ _ _ _ _ _ _ _ _ _ _ decl _ _ hdecl hvalue hseen hrest => by
    obtain ⟨hd, hds⟩ := List.forall_mem_cons.1 hds
    have hd := (each_list.1 hd).2.1
    simp only [List.forall_mem_cons, List.forall_mem_append] at hd
    obtain ⟨hpvalue, hprest⟩ := List.forall_mem_append.1 hplain
    obtain _ | ⟨hm, hmrest⟩ := hmatch
    obtain ⟨left, _, right, rfl, hmatches⟩ := matches_listOf hm
    obtain _ | ⟨hmdecl, _ | ⟨hmvalue, _ | _⟩⟩ := hmatches
    have hρ₁ := hρ.mono hdecl.fresh.1
    obtain ⟨decl', hdecl', houtdecl⟩ := hdecl.reread hρ hmdecl
    obtain ⟨value', hvalue', houtvalue⟩ := hvalue.reread hρ₁ hd.2.1 hpvalue hmvalue
    obtain ⟨bs', hbs', houtbs⟩ := hrest.reread (hρ₁.mono hvalue.fresh.1) hds hprest hmrest
    have hname : decl'.name = decl.name :=
      (Decl.name_eq_of_outline houtdecl).trans (Decl.name_rename ρ decl)
    refine ⟨(decl', value') :: bs', .cons hdecl' hvalue' (by rwa [hname]) (by rwa [hname]), ?_⟩
    rw [outlineBound, renameBound, outlineBound, houtdecl, houtvalue, houtbs]

end

/-! ## Texts -/

/-- The values of a list are plain exactly if no number shows an exponent and no string an uncommon
escape. -/
theorem isPlain_iff {vs : List Value} :
    (∀ v ∈ vs, v.token.IsPlain) ↔
      (∀ b, .number b ∈ vs → 'e' ∉ b.render.toList) ∧
      (∀ s, .string s ∈ vs → ∀ letter ∈ Text.Quoted.escapeLetters (Text.Quoted.pieces s).toList,
        letter ∈ Text.Quoted.commonEscapes) := by
  constructor
  · intro h
    exact ⟨fun b hb => (h _ hb).1 rfl, fun s hs => (h _ hs).2 rfl⟩
  · rintro ⟨hnumber, hstring⟩ v hv
    cases v with
    | number b => exact ⟨fun _ => hnumber b hv, nofun⟩
    | string s => exact ⟨nofun, fun _ => hstring s hv⟩
    | missing | boolean | symbol => exact (Value.isPlain_token_iff rfl).2 (by simp [Value.literals])
    | empty | pair => exact ⟨nofun, nofun⟩

/-- The datum of a text has tokens that come from the text. -/
theorem each_scanned_of_readAll {source : String} {d : Datum}
    (h : Datum.readAll source = .ok [d]) : d.Each Token.Scanned := by
  obtain ⟨-, hflatten⟩ := Datum.flattenAll_of_readAll h
  rw [Datum.flattenAll_singleton] at hflatten
  intro t ht
  rw [hflatten] at ht
  exact Token.scanned_of_mem_significantAt ht

/-- The concrete form of an expression that comes from a text is a datum exactly if its numbers and
strings are plain, and the datum is the one that it is written as. -/
theorem Reads.readAll_render {k k' : Nat} {d : Datum} {e : Expr} (h : Reads k d e k')
    (hd : d.Each Token.Scanned) :
    ((∃ F, Datum.readAll e.render = .ok F) ↔ ∀ w ∈ e.literals, w.token.IsPlain) ∧
      ∀ F, Datum.readAll e.render = .ok F → ∃ d', F = [d'] ∧ Matches e.datum d' := by
  rw [← each_isPlain_datum]
  exact Datum.readAll_write (h.written hd) (write_datum h.wellFormed).symm

/-- Plain numbers and strings are all that it takes to read an expression back. -/
theorem Reads.exists_parse_render {last last' : Nat} {d : Datum} {e : Expr}
    (h : Reads last d e last') (hd : d.Each Token.Scanned)
    (hplain : ∀ w ∈ e.literals, w.token.IsPlain) (k : Nat) :
    ∃ e' k', (parse e.render).runFrom k = (.ok e', k') ∧
      e'.outline = (e.rename (Numbering.move last k)).outline := by
  obtain ⟨hiff, hmatches⟩ := h.readAll_render hd
  obtain ⟨F, hF⟩ := hiff.2 hplain
  obtain ⟨d', rfl, hmatch⟩ := hmatches F hF
  obtain ⟨e', hreads, houtline⟩ := h.reread (Numbering.shifts_move last k) hd hplain hmatch
  rw [Numbering.move_last] at hreads
  exact ⟨e', _, parse_eq_ok_iff.2 ⟨d', hF, hreads⟩, houtline⟩

/-- The concrete form of an expression that comes from a text is an expression exactly if every number
in it, also inside quoted data, is written without an exponent and every string with common escapes
only. It is then the same expression up to places, spellings and an injective renaming of type
variables, whatever numbers were given out before. -/
theorem parse_render {source : String} {last last' : Nat} {e : Expr}
    (h : (parse source).runFrom last = (.ok e, last')) (k : Nat) :
    ((∃ e' k', (parse e.render).runFrom k = (.ok e', k')) ↔
      (∀ b, .number b ∈ e.literals → 'e' ∉ b.render.toList) ∧
      (∀ s, .string s ∈ e.literals →
        ∀ letter ∈ Text.Quoted.escapeLetters (Text.Quoted.pieces s).toList,
          letter ∈ Text.Quoted.commonEscapes)) ∧
    ∀ e' k', (parse e.render).runFrom k = (.ok e', k') →
      ∃ ρ : Nat → Nat, Set.InjOn ρ {x | x ∈ e.typeVars} ∧ e'.outline = (e.rename ρ).outline := by
  obtain ⟨d, hread, hreads⟩ := parse_eq_ok_iff.1 h
  have hscanned := each_scanned_of_readAll hread
  have hparse := fun hplain => hreads.exists_parse_render hscanned hplain k
  have hplain {e' : Expr} {k' : Nat} (h' : (parse e.render).runFrom k = (.ok e', k')) :
      ∀ w ∈ e.literals, w.token.IsPlain := by
    obtain ⟨d', hread', -⟩ := parse_eq_ok_iff.1 h'
    exact (hreads.readAll_render hscanned).1.1 ⟨_, hread'⟩
  rw [← isPlain_iff]
  refine ⟨⟨?_, ?_⟩, ?_⟩
  · rintro ⟨e', k', h'⟩
    exact hplain h'
  · intro h'
    obtain ⟨e', k', hparsed, -⟩ := hparse h'
    exact ⟨e', k', hparsed⟩
  · intro e' k' h'
    obtain ⟨e'', k'', hparsed, houtline⟩ := hparse (hplain h')
    rw [h'] at hparsed
    cases hparsed
    -- All type variables are numbered after `last`, where moving is injective.
    refine ⟨Numbering.move last k, (Numbering.injOn_move last k).mono fun x hx => ?_, houtline⟩
    obtain ⟨t, ht, hxt⟩ := mem_typeVars.1 hx
    exact hreads.fresh.2 t ht x hxt

/-- A binding without parentheses around its declaration, a type without parameters and quoted data
with a dot: all three are printed in another shape, and read back as they were. -/
theorem parse_render_shapes :
    ∃ e e', ((parse "(let ((f : (-> (Pair T U)) '(1.50 . (\"a\\n\" ''b)))) (f))").runFrom 2).1 = .ok e ∧
      e.render = "(let (((f : (Empty -> (Pair T_3 T_4))) '(1.5 \"a\\n\" (quote (quote b))))) (f))" ∧
      ((parse e.render).runFrom 7).1 = .ok e' ∧
      ∃ ρ : Nat → Nat, Set.InjOn ρ {x | x ∈ e.typeVars} ∧ e'.outline = (e.rename ρ).outline := by
  have hrun : (match (parse "(let ((f : (-> (Pair T U)) '(1.50 . (\"a\\n\" ''b)))) (f))").runFrom 2 with
      | (.ok e, _) => decide (e.render =
          "(let (((f : (Empty -> (Pair T_3 T_4))) '(1.5 \"a\\n\" (quote (quote b))))) (f))") &&
        match (parse e.render).runFrom 7 with
        | (.ok _, _) => true
        | (.error _, _) => false
      | (.error _, _) => false) = true := by decide +kernel
  rcases hparse : (parse "(let ((f : (-> (Pair T U)) '(1.50 . (\"a\\n\" ''b)))) (f))").runFrom 2
    with ⟨_ | e, last⟩
  · simp [hparse] at hrun
  · rcases hback : (parse e.render).runFrom 7 with ⟨_ | e', k⟩
    · simp [hparse, hback] at hrun
    · have hrender := hrun
      simp only [hparse, hback, Bool.and_true, decide_eq_true_eq] at hrender
      exact ⟨e, e', rfl, hrender, by rw [hback], (parse_render hparse 7).2 e' k hback⟩

end Expr

end TypedScheme
