import TypedScheme.Proofs.Expr.Grammar

/-!
# Which data are expressions

Whether a datum is an expression depends on the datum alone and not on the numbers that were given out
before it, and every string in an expression is a literal that can be decoded.

## What this module delivers

- `Expr.Reads.exists_from`: an expression is one after any number.
- `Datum.Decodes`: the strings of a datum can be decoded, with `Value.Denoted.decodes` and
  `Expr.Reads.decodes`.
-/

set_option autoImplicit false

namespace TypedScheme

/-! ## Numbers do not matter -/

namespace Expr

/-- A parameter is read after any numbering, under its name. -/
theorem ReadsParam.exists_after {n n' : Numbering} {d : Datum} {p : Param}
    (h : ReadsParam n d p n') (m : Numbering) :
    ∃ p' m', ReadsParam m d p' m' ∧ p'.name = p.name := by
  cases h with
  | mk hname hcolon ht =>
    obtain ⟨t, m', ht⟩ := ht.exists_after m
    exact ⟨_, _, .mk hname hcolon ht, rfl⟩

/-- Parameters are read after any numbering. -/
theorem ReadsParams.exists_after {seen : List String} {n n' : Numbering} {ds : List Datum}
    {ps : List Param} (h : ReadsParams seen n ds ps n') (m : Numbering) :
    ∃ ps' m', ReadsParams seen m ds ps' m' := by
  induction h generalizing m with
  | nil => exact ⟨_, _, .nil⟩
  | cons hp hseen hps ih =>
    obtain ⟨p', m₁, hp', hname⟩ := hp.exists_after m
    obtain ⟨ps', m₂, hps'⟩ := ih m₁
    rw [← hname] at hseen hps'
    exact ⟨_, _, .cons hp' hseen hps'⟩

/-- A declaration is read after any number, under its name. -/
theorem ReadsDecl.exists_from {untyped : Bool} {k k' : Nat} {ds : List Datum} {decl : Decl}
    (h : ReadsDecl untyped k ds decl k') (j : Nat) :
    ∃ decl' j', ReadsDecl untyped j ds decl' j' ∧ decl'.name = decl.name := by
  cases h with
  | bare hname => exact ⟨_, _, .bare hname, rfl⟩
  | enclosed hp =>
    obtain ⟨p', m', hp', hname⟩ := hp.exists_after ⟨j, []⟩
    exact ⟨_, _, .enclosed hp', hname⟩
  | inline hname hcolon ht =>
    obtain ⟨t, m', ht⟩ := ht.exists_after ⟨j, []⟩
    exact ⟨_, _, .inline hname hcolon ht, rfl⟩

mutual

/-- An expression is one after any number. -/
theorem Reads.exists_from {k k' : Nat} {d : Datum} {e : Expr} (j : Nat) :
    Reads k d e k' → ∃ e' j', Reads j d e' j'
  | .atom h => ⟨_, _, .atom h⟩
  | .quoted hv => ⟨_, _, .quoted hv⟩
  | .quoteForm hhead hv => ⟨_, _, .quoteForm hhead hv⟩
  | .cond hhead ha hb hc => by
    obtain ⟨_, j₁, ha⟩ := ha.exists_from j
    obtain ⟨_, j₂, hb⟩ := hb.exists_from j₁
    obtain ⟨_, j₃, hc⟩ := hc.exists_from j₂
    exact ⟨_, _, .cond hhead ha hb hc⟩
  | .lambda hhead hcolon hparams hresult hbody => by
    obtain ⟨_, m₁, hparams⟩ := hparams.exists_after ⟨j, []⟩
    obtain ⟨_, m₂, hresult⟩ := hresult.exists_after m₁
    obtain ⟨_, _, hbody⟩ := hbody.exists_from m₂.last
    exact ⟨_, _, .lambda hhead hcolon hparams hresult hbody⟩
  | .app hhead hf hes => by
    obtain ⟨_, j₁, hf⟩ := hf.exists_from j
    obtain ⟨_, _, hes⟩ := hes.exists_from j₁
    exact ⟨_, _, .app hhead hf hes⟩
  | .letForm hhead hbindings hbody => by
    obtain ⟨_, j₁, hbindings⟩ := hbindings.exists_from j
    obtain ⟨_, _, hbody⟩ := hbody.exists_from j₁
    exact ⟨_, _, .letForm hhead hbindings hbody⟩
  | .define hhead hdecl hvalue => by
    obtain ⟨_, j₁, hdecl, -⟩ := hdecl.exists_from j
    obtain ⟨_, _, hvalue⟩ := hvalue.exists_from j₁
    exact ⟨_, _, .define hhead hdecl hvalue⟩

theorem ReadsAll.exists_from {k k' : Nat} {ds : List Datum} {es : List Expr} (j : Nat) :
    ReadsAll k ds es k' → ∃ es' j', ReadsAll j ds es' j'
  | .nil => ⟨_, _, .nil⟩
  | .cons he hes => by
    obtain ⟨_, j₁, he⟩ := he.exists_from j
    obtain ⟨_, _, hes⟩ := hes.exists_from j₁
    exact ⟨_, _, .cons he hes⟩

/-- Bindings are read after any number. The names are the same, so that none is bound twice here
either. -/
theorem ReadsBindings.exists_from {recursive : Bool} {seen : List String} {k k' : Nat}
    {ds : List Datum} {bindings : List (Decl × Expr)} (j : Nat) :
    ReadsBindings recursive seen k ds bindings k' →
      ∃ bindings' j', ReadsBindings recursive seen j ds bindings' j'
  | .nil => ⟨_, _, .nil⟩
  | .cons hdecl hvalue hseen hrest => by
    obtain ⟨decl', j₁, hdecl', hname⟩ := hdecl.exists_from j
    obtain ⟨_, j₂, hvalue⟩ := hvalue.exists_from j₁
    obtain ⟨_, _, hrest⟩ := hrest.exists_from j₂
    rw [← hname] at hseen hrest
    exact ⟨_, _, .cons hdecl' hvalue hseen hrest⟩

end

/-- A first part of data that are read is read. -/
theorem readsAll_append {k k' : Nat} {ds ds' : List Datum} {es : List Expr}
    (h : ReadsAll k (ds ++ ds') es k') : ∃ es' j, ReadsAll k ds es' j := by
  induction ds generalizing k es with
  | nil => exact ⟨_, _, .nil⟩
  | cons d ds ih =>
    cases h with
    | cons he hes =>
      obtain ⟨_, _, hes⟩ := ih hes
      exact ⟨_, _, .cons he hes⟩

end Expr

/-! ## Strings can be decoded -/

namespace Datum

mutual

/-- Every string of a datum is a literal with a value. -/
def Decodes : Datum → Prop
  | atom t => t.kind = .string → (Text.Quoted.decode? t.text).isSome
  | quoted _ d => Decodes d
  | list _ ds _ => AllDecode ds
  | dotted _ ds _ tail _ => AllDecode ds ∧ Decodes tail

/-- Every string of data in a row is a literal with a value. -/
def AllDecode : List Datum → Prop
  | [] => True
  | d :: ds => Decodes d ∧ AllDecode ds

end

/-- Data decode if each of them does. -/
theorem allDecode_iff {ds : List Datum} : AllDecode ds ↔ ∀ d ∈ ds, d.Decodes := by
  induction ds with
  | nil => simp [AllDecode]
  | cons d ds ih => simp [AllDecode, ih]

theorem allDecode_append {ds es : List Datum} :
    AllDecode (ds ++ es) ↔ AllDecode ds ∧ AllDecode es := by
  simp [allDecode_iff, or_imp, forall_and]

/-- An atom that is no string decodes, whatever its text. -/
theorem decodes_atom {t : Token} (h : t.kind ≠ .string) : (atom t).Decodes :=
  fun hstring => absurd hstring h

theorem decodes_of_isSymbol {d : Datum} {name : String} (h : d.isSymbol name) : d.Decodes := by
  cases d with
  | atom t =>
    obtain ⟨hkind, -⟩ : t.kind = .symbol ∧ t.text = name := by simpa [isSymbol, Token.isSymbol] using h
    exact decodes_atom (by simp [hkind])
  | quoted | list | dotted => cases h

theorem decodes_of_isColon {d : Datum} (h : d.isColon) : d.Decodes := by
  cases d with
  | atom t =>
    have hkind : t.kind = .colon := by simpa [isColon] using h
    exact decodes_atom (by simp [hkind])
  | quoted | list | dotted => cases h

/-- If a datum decodes, so does every part of it. -/
theorem hereditary_decodes : Hereditary Decodes where
  quoted h := h
  list h := allDecode_iff.1 h
  dotted h := ⟨allDecode_iff.1 h.1, h.2⟩

/-- The strings among the tokens of a well-formed datum are those of its atoms. -/
theorem Decodes.isSome {d : Datum} (h : d.Decodes) (hd : d.WellFormed) {t : Token}
    (ht : t ∈ d.flatten) (hstring : t.kind = .string) : (Text.Quoted.decode? t.text).isSome := by
  rcases hd.punctuation_or_atom hereditary_decodes h ht with hkind | hatom
  · simp [hstring] at hkind
  · exact hatom hstring

end Datum

open Datum

namespace Value

mutual

/-- Quoted data have values only if their strings do. -/
theorem Denoted.decodes {d : Datum} {v : Value} : Denoted d v → d.Decodes
  | .atom h => by
    intro hstring
    cases h with
    | string _ hs => simp [hs]
    | number hkind | boolean hkind | symbol hkind | colon hkind => simp [hkind] at hstring
  | .quoted h => h.decodes
  | .list h => h.allDecode
  | .dotted h hlast => ⟨h.allDecode, hlast.decodes⟩

/-- Data that denote values decode. -/
theorem DenotedAll.allDecode {ds : List Datum} {vs : List Value} : DenotedAll ds vs → AllDecode ds
  | .nil => trivial
  | .cons hv hvs => ⟨hv.decodes, hvs.allDecode⟩

end

end Value

namespace Ty

mutual

/-- What spells a type decodes: there is no string in it. -/
theorem Spelled.decodes {n n' : Numbering} {d : Datum} {t : Ty} : Spelled n d t n' → d.Decodes
  | .base hkind _ => decodes_atom (by simp [hkind])
  | .var hkind _ _ => decodes_atom (by simp [hkind])
  | .pair hpair ha hd => ⟨decodes_of_isSymbol hpair, ha.decodes, hd.decodes, trivial⟩
  | .proc harrow hd hparams =>
    allDecode_append.2 ⟨hparams.allDecode, decodes_of_isSymbol harrow, hd.decodes, trivial⟩

theorem Params.allDecode {n n' : Numbering} {ds : List Datum} {ts : List Ty} :
    Params n ds ts n' → AllDecode ds
  | .nil => trivial
  | .empty hempty => ⟨decodes_of_isSymbol hempty, trivial⟩
  | .cons _ ht hts => ⟨ht.decodes, hts.allDecode⟩

theorem Starred.allDecode {n n' : Numbering} {ds : List Datum} {ts : List Ty} :
    Starred n ds ts n' → AllDecode ds
  | .nil => trivial
  | .cons hstar ht hts => ⟨decodes_of_isSymbol hstar, ht.decodes, hts.allDecode⟩

end

end Ty

namespace Expr

theorem IsName.decodes {t : Token} (h : IsName t) : (Datum.atom t).Decodes :=
  decodes_atom (by simp [h.1])

/-- A keyword decodes. -/
theorem decodes_of_headKeyword? {d : Datum} {keyword : Keyword} (h : headKeyword? [d] = some keyword) :
    d.Decodes := by
  cases d with
  | atom t =>
    by_cases hkind : t.kind = .symbol
    · exact decodes_atom (by simp [hkind])
    · simp [headKeyword?, hkind] at h
  | quoted | list | dotted => cases h

theorem ReadsParam.decodes {n n' : Numbering} {d : Datum} {p : Param} (h : ReadsParam n d p n') :
    d.Decodes := by
  cases h with
  | mk hname hcolon ht => exact ⟨hname.decodes, decodes_of_isColon hcolon, ht.decodes, trivial⟩

theorem ReadsParams.allDecode {seen : List String} {n n' : Numbering} {ds : List Datum}
    {ps : List Param} (h : ReadsParams seen n ds ps n') : AllDecode ds := by
  induction h with
  | nil => trivial
  | cons hp _ _ ih => exact ⟨hp.decodes, ih⟩

/-- A declaration that is read decodes. -/
theorem ReadsDecl.allDecode {untyped : Bool} {k k' : Nat} {ds : List Datum} {decl : Decl}
    (h : ReadsDecl untyped k ds decl k') : AllDecode ds := by
  cases h with
  | bare hname => exact ⟨hname.decodes, trivial⟩
  | enclosed hp => exact ⟨hp.decodes, trivial⟩
  | inline hname hcolon ht => exact ⟨hname.decodes, decodes_of_isColon hcolon, ht.decodes, trivial⟩

theorem ReadsAtom.decodes {t : Token} {e : Expr} (h : ReadsAtom t e) : (Datum.atom t).Decodes := by
  intro hstring
  cases h with
  | string _ hs => simp [hs]
  | var hname => simp [hname.1] at hstring
  | number hkind | boolean hkind | primitive hkind => simp [hkind] at hstring

mutual

/-- A datum is an expression only if its strings can be decoded. -/
theorem Reads.decodes {k k' : Nat} {d : Datum} {e : Expr} : Reads k d e k' → d.Decodes
  | .atom h => h.decodes
  | .quoted hv => hv.decodes
  | .quoteForm hhead hv => ⟨decodes_of_headKeyword? hhead, hv.decodes, trivial⟩
  | .cond hhead ha hb hc =>
    ⟨decodes_of_headKeyword? hhead, ha.decodes, hb.decodes, hc.decodes, trivial⟩
  | .lambda hhead hcolon hparams hresult hbody =>
    ⟨decodes_of_headKeyword? hhead, hparams.allDecode, decodes_of_isColon hcolon, hresult.decodes,
      hbody.allDecode⟩
  | .app _ hf hes => ⟨hf.decodes, hes.allDecode⟩
  | .letForm hhead hbindings hbody =>
    ⟨decodes_of_headKeyword? hhead, hbindings.allDecode, hbody.allDecode⟩
  | .define hhead hdecl hvalue =>
    ⟨decodes_of_headKeyword? hhead, allDecode_append.2 ⟨hdecl.allDecode, hvalue.decodes, trivial⟩⟩

theorem ReadsAll.allDecode {k k' : Nat} {ds : List Datum} {es : List Expr} :
    ReadsAll k ds es k' → AllDecode ds
  | .nil => trivial
  | .cons he hes => ⟨he.decodes, hes.allDecode⟩

theorem ReadsBindings.allDecode {recursive : Bool} {seen : List String} {k k' : Nat}
    {ds : List Datum} {bindings : List (Decl × Expr)} :
    ReadsBindings recursive seen k ds bindings k' → AllDecode ds
  | .nil => trivial
  | .cons hdecl hvalue _ hrest =>
    ⟨allDecode_append.2 ⟨hdecl.allDecode, hvalue.decodes, trivial⟩, hrest.allDecode⟩

end

end Expr

end TypedScheme
