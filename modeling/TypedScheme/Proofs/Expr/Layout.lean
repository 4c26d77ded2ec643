import TypedScheme.Proofs.Datum.Layout
import TypedScheme.Proofs.Expr.RoundTrip

/-!
# Parsing does not look at places

Data that agree but for the places of their tokens are parsed alike: with the same numbers for the type
variables, to types and values that are the same and to expressions of the same outline, or with the
same fault.

## What this module delivers

- `Parse.Parallel R c₁ c₂`: from every numbering, the two ways of reading end in the same numbering, and
  either both have results related by `R` or both have the same fault; with a rule for every step that
  it is used with.
- `Ty.parallel_ofDatum`, `Value.alike_ofDatum` and `Expr.parallel_ofDatum`, with one case for every
  form.
- `Program.parallel_parse` and `Expr.parallel_parse` for texts with the same significant tokens.
-/

set_option autoImplicit false

namespace TypedScheme

open SyntaxError Datum

/-! ## Reading side by side -/

namespace Parse

variable {α β γ δ : Type}

/-- From every numbering, two ways of reading end in the same numbering with results related by `R` or
with the same fault. -/
def Parallel (R : α → β → Prop) (c₁ : Parse α) (c₂ : Parse β) : Prop :=
  ∀ n, (c₁.run n).2 = (c₂.run n).2 ∧ Alike R (c₁.run n).1 (c₂.run n).1

namespace Parallel

variable {R : α → β → Prop} {S : γ → δ → Prop}

/-- Related results are read in parallel. -/
theorem pure {a : α} {b : β} (h : R a b) : Parallel R (Pure.pure a) (Pure.pure b) :=
  fun _ => ⟨rfl, .ok h⟩

/-- The same fault is read in parallel, wherever it is. -/
theorem fault {f₁ f₂ : SyntaxFault} {span₁ span₂ : Span} (h : f₁ = f₂) :
    Parallel R (Parse.fault f₁ span₁) (Parse.fault f₂ span₂) :=
  fun _ => ⟨rfl, .error h⟩

/-- Results that are alike are read in parallel. -/
theorem lift {r₁ : Except SyntaxError α} {r₂ : Except SyntaxError β} (h : Alike R r₁ r₂) :
    Parallel R (liftM r₁ : Parse α) (liftM r₂ : Parse β) :=
  fun _ => ⟨rfl, h⟩

theorem refl (c : Parse α) : Parallel Eq c c := by
  intro n
  refine ⟨rfl, ?_⟩
  cases (c.run n).1 with
  | error e => exact .error rfl
  | ok a => exact .ok rfl

/-- Two binds go side by side if their first parts do, and their second parts after related results. -/
theorem bind {c₁ : Parse α} {c₂ : Parse β} {f : α → Parse γ} {g : β → Parse δ}
    (hc : Parallel R c₁ c₂) (hfg : ∀ a b, R a b → Parallel S (f a) (g b)) :
    Parallel S (c₁ >>= f) (c₂ >>= g) := by
  intro n
  obtain ⟨hn, halike⟩ := hc n
  rw [run_bind, run_bind]
  rcases h₁ : c₁.run n with ⟨r₁, n₁⟩
  rcases h₂ : c₂.run n with ⟨r₂, n₂⟩
  rw [h₁, h₂] at hn halike
  obtain rfl : n₁ = n₂ := hn
  cases halike with
  | ok hab => exact hfg _ _ hab n₁
  | error he => exact ⟨rfl, .error he⟩

/-- Readings in parallel give out the same numbers, and end alike. -/
theorem runFrom {c₁ : Parse α} {c₂ : Parse β} (h : Parallel R c₁ c₂) (last : Nat) :
    (c₁.runFrom last).2 = (c₂.runFrom last).2 ∧ Alike R (c₁.runFrom last).1 (c₂.runFrom last).1 :=
  ⟨congrArg Numbering.last (h ⟨last, []⟩).1, (h ⟨last, []⟩).2⟩

end Parallel

end Parse

open Parse

/-! ## Types -/

namespace Datum

variable {d d' : Datum}

/-- Data that match are symbols of the same names. -/
theorem isSymbol_eq_of_matches (h : Matches d d') (name : String) :
    d.isSymbol name = d'.isSymbol name := by
  cases h with
  | atom h => rw [isSymbol, isSymbol, Token.isSymbol, Token.isSymbol, h.1, h.2]
  | quoted | list | dotted => rfl

theorem isColon_eq_of_matches (h : Matches d d') : d.isColon = d'.isColon := by
  cases h with
  | atom h => rw [isColon, isColon, h.1]
  | quoted | list | dotted => rfl

end Datum

namespace Ty

/-- Data that match have their arrows at the same places. -/
theorem arrowBeforeLast_eq_of_matches {ds ds' : List Datum} (h : List.Forall₂ Matches ds ds') :
    arrowBeforeLast ds = arrowBeforeLast ds' := by
  match ds, ds', h with
  | _, _, .nil | _, _, .cons _ .nil => rfl
  | _, _, .cons ha (.cons _ .nil) => exact isSymbol_eq_of_matches ha "->"
  | _, _, .cons _ (.cons h₁ (.cons h₂ h)) =>
    have ih := arrowBeforeLast_eq_of_matches (.cons h₁ (.cons h₂ h))
    exact ih

theorem hasNoParameters_eq_of_matches {ds ds' : List Datum} (h : List.Forall₂ Matches ds ds') :
    hasNoParameters ds = hasNoParameters ds' := by
  match ds, ds', h with
  | _, _, .cons hd (.cons _ (.cons _ .nil)) => exact isSymbol_eq_of_matches hd "Empty"
  | _, _, .nil | _, _, .cons _ .nil | _, _, .cons _ (.cons _ .nil)
  | _, _, .cons _ (.cons _ (.cons _ (.cons _ _))) => rfl

/-- Data that match are of the same form of type. -/
theorem form_eq_of_matches {ds ds' : List Datum} (h : List.Forall₂ Matches ds ds') :
    form ds = form ds' := by
  have harrow := arrowBeforeLast_eq_of_matches h
  cases h with
  | nil => rfl
  | cons hd hds =>
    rw [form, form, harrow, isSymbol_eq_of_matches hd, hds.length_eq]
    cases hds with
    | nil => rfl
    | cons _ _ => rfl

/-- Tokens of one text are the same type. -/
theorem parallel_ofToken {t t' : Token} (h : t.Same t') :
    Parallel Eq (ofToken t) (ofToken t') := by
  unfold ofToken
  rw [h.1, h.2]
  split
  · split
    · exact .pure rfl
    · split
      · exact .fault rfl
      · exact .refl _
  · exact .fault rfl

mutual

/-- Data that match are read as the same type. -/
theorem parallel_ofDatum {d d' : Datum} (h : Matches d d') :
    Parallel Eq (ofDatum d) (ofDatum d') := by
  match d, d', h with
  | _, _, .atom ht => exact parallel_ofToken ht
  | _, _, .quoted _ => exact .fault rfl
  | _, _, .dotted _ _ => exact .fault rfl
  | _, _, .list hds =>
    rw [ofDatum, ofDatum, form_eq_of_matches hds, hasNoParameters_eq_of_matches hds]
    dsimp only
    split
    · exact .fault rfl
    · exact parallel_ofPair hds
    · -- The result is read first in both, so its variables get the same numbers.
      refine .bind (parallel_ofLast hds) ?_
      rintro result _ rfl
      split
      · exact .pure rfl
      · refine .bind (parallel_ofParameters _ _ hds) ?_
        rintro params _ rfl
        exact .pure rfl
termination_by sizeOf d

theorem parallel_ofPair {ds ds' : List Datum} (h : List.Forall₂ Matches ds ds') :
    Parallel Eq (ofPair ds) (ofPair ds') := by
  match ds, ds', h with
  | _, _, .cons _ (.cons ha (.cons hd .nil)) =>
    refine .bind (parallel_ofDatum ha) ?_
    rintro car _ rfl
    refine .bind (parallel_ofDatum hd) ?_
    rintro cdr _ rfl
    exact .pure rfl
  | _, _, .nil | _, _, .cons _ .nil | _, _, .cons _ (.cons _ .nil)
  | _, _, .cons _ (.cons _ (.cons _ (.cons _ _))) => exact .fault rfl
termination_by sizeOf ds

theorem parallel_ofLast {ds ds' : List Datum} (h : List.Forall₂ Matches ds ds') :
    Parallel Eq (ofLast ds) (ofLast ds') := by
  match ds, ds', h with
  | _, _, .nil => exact .fault rfl
  | _, _, .cons hd .nil => exact parallel_ofDatum hd
  | _, _, .cons _ (.cons hd h) =>
    have ih := parallel_ofLast (.cons hd h)
    exact ih
termination_by sizeOf ds

/-- Parameters that match are read as the same types. -/
theorem parallel_ofParameters (whole whole' : Span) {ds ds' : List Datum}
    (h : List.Forall₂ Matches ds ds') :
    Parallel Eq (ofParameters whole ds) (ofParameters whole' ds') := by
  match ds, ds', h with
  | _, _, .nil | _, _, .cons _ (.cons _ .nil) => exact .pure rfl
  | _, _, .cons hd .nil =>
    refine .bind (parallel_ofDatum hd) ?_
    rintro t _ rfl
    exact .pure rfl
  | _, _, .cons hd (.cons h₁ (.cons h₂ h)) =>
    refine .bind (parallel_ofDatum hd) ?_
    rintro t _ rfl
    refine .bind (parallel_ofStarred whole whole' (.cons h₁ (.cons h₂ h))) ?_
    rintro ts _ rfl
    exact .pure rfl
termination_by sizeOf ds

theorem parallel_ofStarred (whole whole' : Span) {ds ds' : List Datum}
    (h : List.Forall₂ Matches ds ds') :
    Parallel Eq (ofStarred whole ds) (ofStarred whole' ds') := by
  match ds, ds', h with
  | _, _, .nil | _, _, .cons _ .nil | _, _, .cons _ (.cons _ .nil) => exact .pure rfl
  | _, _, .cons hstar (.cons _ (.cons _ .nil)) =>
    rw [ofStarred, ofStarred, isSymbol_eq_of_matches hstar]
    split
    · exact .fault rfl
    · exact .fault rfl
  | _, _, .cons hstar (.cons hd (.cons h₁ (.cons h₂ h))) =>
    unfold ofStarred
    dsimp only
    rw [isSymbol_eq_of_matches hstar]
    split
    · refine .bind (parallel_ofDatum hd) ?_
      rintro t _ rfl
      refine .bind (parallel_ofStarred whole whole' (.cons h₁ (.cons h₂ h))) ?_
      rintro ts _ rfl
      exact .pure rfl
    · exact .fault rfl
termination_by sizeOf ds

end

end Ty

/-! ## Values -/

namespace Value

theorem alike_numberValue {t t' : Token} (h : t.Same t') :
    Alike Eq t.numberValue t'.numberValue := by
  unfold Token.numberValue
  rw [h.2]
  split
  · exact .ok rfl
  · exact .error rfl

theorem alike_stringValue {t t' : Token} (h : t.Same t') :
    Alike Eq t.stringValue t'.stringValue := by
  unfold Token.stringValue
  rw [h.2]
  split
  · exact .ok rfl
  · exact .error rfl

theorem alike_ofToken {t t' : Token} (h : t.Same t') : Alike Eq (ofToken t) (ofToken t') := by
  unfold ofToken
  rw [h.1, h.2]
  split
  · exact (alike_numberValue h).bind fun n _ hn => .ok (by rw [hn])
  · exact .ok rfl
  · exact (alike_stringValue h).bind fun s _ hs => .ok (by rw [hs])
  · exact .ok rfl
  · exact .ok rfl
  · exact .error rfl

mutual

/-- Data that match have the same value. -/
theorem alike_ofDatum {d d' : Datum} (h : Matches d d') : Alike Eq (ofDatum d) (ofDatum d') := by
  match d, d', h with
  | _, _, .atom ht => exact alike_ofToken ht
  | _, _, .quoted hd =>
    refine .bind (alike_ofDatum hd) ?_
    rintro v _ rfl
    exact .ok rfl
  | _, _, .list hds =>
    refine .bind (alike_ofData hds) ?_
    rintro vs _ rfl
    exact .ok rfl
  | _, _, .dotted hds htail =>
    refine .bind (alike_ofDatum htail) ?_
    rintro last _ rfl
    refine .bind (alike_ofData hds) ?_
    rintro vs _ rfl
    exact .ok rfl
termination_by sizeOf d

theorem alike_ofData {ds ds' : List Datum} (h : List.Forall₂ Matches ds ds') :
    Alike Eq (ofData ds) (ofData ds') := by
  match ds, ds', h with
  | _, _, .nil => exact .ok rfl
  | _, _, .cons hd hds =>
    refine .bind (alike_ofDatum hd) ?_
    rintro v _ rfl
    refine .bind (alike_ofData hds) ?_
    rintro vs _ rfl
    exact .ok rfl
termination_by sizeOf ds

end

end Value

/-! ## Declarations -/

namespace Expr

/-- Data that match are the same name or none. -/
theorem parallel_nameOf {d d' : Datum} (h : Matches d d') :
    Parallel Token.Same (nameOf d) (nameOf d') := by
  cases h with
  | atom h =>
    rw [nameOf, nameOf, h.1, h.2]
    split
    · split
      · exact .fault rfl
      · exact .pure h
    · exact .fault rfl
  | quoted | list | dotted => exact .fault rfl

/-- A name with its type is read to the same outline. -/
theorem parallel_typedName {name name' colon colon' ty ty' : Datum} (hname : Matches name name')
    (hcolon : Matches colon colon') (hty : Matches ty ty') (stop stop' : Span) :
    Parallel (fun p p' => p.outline = p'.outline) (typedName name colon ty stop)
      (typedName name' colon' ty' stop') := by
  refine .bind (parallel_nameOf hname) fun token token' htoken => ?_
  rw [isColon_eq_of_matches hcolon]
  split
  · refine .bind (Ty.parallel_ofDatum hty) ?_
    rintro t _ rfl
    exact .pure (by rw [Param.outline, Param.outline, Param.name, Param.name, htoken.2])
  · exact .fault (by rw [htoken.2])

theorem parallel_paramOf {d d' : Datum} (h : Matches d d') :
    Parallel (fun p p' => p.outline = p'.outline) (paramOf d) (paramOf d') := by
  cases h with
  | atom h =>
    exact .bind (parallel_nameOf (.atom h)) fun token token' htoken => .fault (by rw [htoken.2])
  | quoted | dotted => exact .fault rfl
  | list hds =>
    match hds with
    | .cons hname (.cons hcolon (.cons hty .nil)) => exact parallel_typedName hname hcolon hty _ _
    | .nil | .cons _ .nil | .cons _ (.cons _ .nil)
    | .cons _ (.cons _ (.cons _ (.cons _ _))) => exact .fault rfl

/-- Data that match are the same parameters, but for their places. -/
theorem parallel_paramsOf (seen : List String) {ds ds' : List Datum}
    (h : List.Forall₂ Matches ds ds') :
    Parallel (fun ps ps' => ps.map Param.outline = ps'.map Param.outline) (paramsOf seen ds)
      (paramsOf seen ds') := by
  induction h generalizing seen with
  | nil => exact .pure rfl
  | cons hd _ ih =>
    refine .bind (parallel_paramOf hd) fun p p' hp => ?_
    have hname : p.name = p'.name := Decl.name_eq_of_outline (Param.outline_decl hp)
    rw [hname]
    split
    · exact .fault rfl
    · refine .bind (ih _) fun ps ps' hps => ?_
      exact .pure (by rw [List.map_cons, List.map_cons, hp, hps])

/-- Data that match are declarations of one outline. -/
theorem parallel_declOf (untyped : Bool) {d d' : Datum} (h : Matches d d') :
    Parallel (fun decl decl' => decl.outline = decl'.outline) (declOf untyped d)
      (declOf untyped d') := by
  refine .bind (.refl _) fun _ _ _ => ?_
  -- A bare name declares no type where types may be left out, and else is at fault.
  have hparam : Parallel (fun decl decl' => decl.outline = decl'.outline)
      (do let p ← paramOf d; pure p.decl) (do let p ← paramOf d'; pure p.decl) :=
    .bind (parallel_paramOf h) fun p p' hp => .pure (Param.outline_decl hp)
  cases untyped with
  | false => exact hparam
  | true =>
    cases h with
    | quoted | list | dotted => exact hparam
    | atom h =>
      refine .bind (parallel_nameOf (.atom h)) fun token token' htoken => ?_
      exact .pure (by rw [Decl.outline, Decl.outline, Decl.name, Decl.name, htoken.2])

theorem parallel_inlineDeclOf {name name' colon colon' ty ty' : Datum} (hname : Matches name name')
    (hcolon : Matches colon colon') (hty : Matches ty ty') :
    Parallel (fun decl decl' => decl.outline = decl'.outline) (inlineDeclOf name colon ty)
      (inlineDeclOf name' colon' ty') := by
  refine .bind (.refl _) fun _ _ _ => ?_
  refine .bind (parallel_typedName hname hcolon hty _ _) fun p p' hp => ?_
  exact .pure (Param.outline_decl hp)

/-! ## Expressions -/

/-- Two expressions are the same but for the places and spellings of their parts. -/
def SameOutline (e e' : Expr) : Prop := e.outline = e'.outline

/-- Tokens of one text are expressions of one outline. -/
theorem parallel_ofToken {t t' : Token} (h : t.Same t') :
    Parallel SameOutline (ofToken t) (ofToken t') := by
  unfold ofToken
  rw [h.1, h.2]
  split
  · refine .bind (.lift (Value.alike_numberValue h)) ?_
    rintro n _ rfl
    exact .pure rfl
  · exact .pure rfl
  · refine .bind (.lift (Value.alike_stringValue h)) ?_
    rintro s _ rfl
    exact .pure rfl
  · split
    · exact .pure (by rw [SameOutline, outline, outline, h.2])
    · split
      · exact .fault rfl
      · exact .pure (by rw [SameOutline, outline, outline, h.2])
  · exact .fault rfl
  · exact .fault rfl

/-- Data that match are quoted to one outline. -/
theorem parallel_quoteOf (mark mark' : Token) {d d' : Datum} (h : Matches d d')
    (stop stop' : Span) : Parallel SameOutline (quoteOf mark d stop) (quoteOf mark' d' stop') := by
  refine .bind (.lift (Value.alike_ofDatum h)) ?_
  rintro v _ rfl
  exact .pure rfl

theorem parallel_quoteFormOf (whole whole' stop stop' : Span) {ds ds' : List Datum}
    (h : List.Forall₂ Matches ds ds') :
    Parallel SameOutline (quoteFormOf whole stop ds) (quoteFormOf whole' stop' ds') := by
  cases h with
  | nil => exact .fault rfl
  | cons hmark hds =>
    cases hmark with
    | quoted | list | dotted => exact .fault rfl
    | atom _ =>
      match hds with
      | .cons hd .nil => exact parallel_quoteOf _ _ hd _ _
      | .nil | .cons _ (.cons _ _) => exact .fault rfl

/-- Data that match start with the same keyword. -/
theorem headKeyword?_eq_of_matches {ds ds' : List Datum} (h : List.Forall₂ Matches ds ds') :
    headKeyword? ds = headKeyword? ds' := by
  cases h with
  | nil => rfl
  | cons hd _ =>
    cases hd with
    | atom h => rw [headKeyword?, headKeyword?, h.1, h.2]
    | quoted | list | dotted => rfl

mutual

/-- Data that agree are parsed as expressions of the same outline. -/
theorem parallel_ofDatum {d d' : Datum} (h : Matches d d') :
    Parallel SameOutline (ofDatum d) (ofDatum d') := by
  match d, d', h with
  | _, _, .atom ht => exact parallel_ofToken ht
  | _, _, .quoted hd => exact parallel_quoteOf _ _ hd _ _
  | _, _, .dotted _ _ => exact .fault rfl
  | _, _, .list hds =>
    rw [ofDatum, ofDatum, headKeyword?_eq_of_matches hds]
    split
    · exact parallel_condOf _ _ hds
    · exact parallel_lambdaOf _ _ hds
    · exact parallel_letOf _ _ _ hds
    · exact parallel_letOf _ _ _ hds
    · exact parallel_defineOf _ _ hds
    · exact parallel_quoteFormOf _ _ _ _ hds
    · exact parallel_appOf _ _ hds
termination_by sizeOf d

/-- Data that match, one after the other, are expressions of one outline. -/
theorem parallel_ofData {ds ds' : List Datum} (h : List.Forall₂ Matches ds ds') :
    Parallel (fun es es' => outlineAll es = outlineAll es') (ofData ds) (ofData ds') := by
  match ds, ds', h with
  | _, _, .nil => exact .pure rfl
  | _, _, .cons hd hds =>
    refine .bind (parallel_ofDatum hd) fun e e' he => ?_
    refine .bind (parallel_ofData hds) fun es es' hes => ?_
    exact .pure (by rw [outlineAll, outlineAll, he, hes])
termination_by sizeOf ds

theorem parallel_condOf (whole whole' : Span) {ds ds' : List Datum}
    (h : List.Forall₂ Matches ds ds') :
    Parallel SameOutline (condOf whole ds) (condOf whole' ds') := by
  match ds, ds', h with
  | _, _, .cons _ (.cons ha (.cons hb (.cons hc .nil))) =>
    refine .bind (parallel_ofDatum ha) fun a a' ha => ?_
    refine .bind (parallel_ofDatum hb) fun b b' hb => ?_
    refine .bind (parallel_ofDatum hc) fun c c' hc => ?_
    exact .pure (by rw [SameOutline, outline, outline, ha, hb, hc])
  | _, _, .nil | _, _, .cons _ .nil | _, _, .cons _ (.cons _ .nil)
  | _, _, .cons _ (.cons _ (.cons _ .nil))
  | _, _, .cons _ (.cons _ (.cons _ (.cons _ (.cons _ _)))) => exact .fault rfl
termination_by sizeOf ds

/-- Procedures whose parts match have one outline. -/
theorem parallel_lambdaOf (whole whole' : Span) {ds ds' : List Datum}
    (h : List.Forall₂ Matches ds ds') :
    Parallel SameOutline (lambdaOf whole ds) (lambdaOf whole' ds') := by
  match ds, ds', h with
  | _, _, .cons _ (.cons hparams (.cons hcolon (.cons hresult hbody))) =>
    cases hparams with
    | list hds =>
      -- Parameters and result share their names, which are forgotten once for all of them.
      rw [lambdaOf, lambdaOf, isColon_eq_of_matches hcolon]
      split
      · refine .bind (.refl _) fun _ _ _ => ?_
        refine .bind (parallel_paramsOf [] hds) fun ps ps' hps => ?_
        refine .bind (Ty.parallel_ofDatum hresult) ?_
        rintro r _ rfl
        refine .bind (parallel_ofData hbody) fun es es' hes => ?_
        exact .pure (by rw [SameOutline, outline, outline, hps, hes])
      · exact .fault rfl
    | atom | quoted | dotted => exact .fault rfl
  | _, _, .nil | _, _, .cons _ .nil | _, _, .cons _ (.cons _ .nil)
  | _, _, .cons _ (.cons _ (.cons _ .nil)) => exact .fault rfl
termination_by sizeOf ds

theorem parallel_appOf (whole whole' : Span) {ds ds' : List Datum}
    (h : List.Forall₂ Matches ds ds') :
    Parallel SameOutline (appOf whole ds) (appOf whole' ds') := by
  match ds, ds', h with
  | _, _, .nil => exact .fault rfl
  | _, _, .cons hoperator hoperands =>
    refine .bind (parallel_ofDatum hoperator) fun f f' hf => ?_
    refine .bind (parallel_ofData hoperands) fun es es' hes => ?_
    exact .pure (by rw [SameOutline, outline, outline, hf, hes])
termination_by sizeOf ds

theorem parallel_letOf (whole whole' : Span) (recursive : Bool) {ds ds' : List Datum}
    (h : List.Forall₂ Matches ds ds') :
    Parallel SameOutline (letOf whole recursive ds) (letOf whole' recursive ds') := by
  match ds, ds', h with
  | _, _, .cons _ (.cons hbindings hbody) =>
    cases hbindings with
    | list hds =>
      refine .bind (parallel_bindingsOf recursive [] hds) fun bs bs' hbs => ?_
      refine .bind (parallel_ofData hbody) fun es es' hes => ?_
      refine .pure ?_
      cases recursive with
      | false => exact congrArg₂ (letin .absent) hbs hes
      | true => exact congrArg₂ (letrec .absent) hbs hes
    | atom | quoted | dotted => exact .fault rfl
  | _, _, .nil | _, _, .cons _ .nil => exact .fault rfl
termination_by sizeOf ds

/-- Bindings that match have one outline. -/
theorem parallel_bindingsOf (recursive : Bool) (seen : List String) {ds ds' : List Datum}
    (h : List.Forall₂ Matches ds ds') :
    Parallel (fun bs bs' => outlineBound bs = outlineBound bs') (bindingsOf recursive seen ds)
      (bindingsOf recursive seen ds') := by
  match ds, ds', h with
  | _, _, .nil => exact .pure rfl
  | _, _, .cons hd hds =>
    refine .bind (parallel_bindingOf recursive hd) fun ⟨decl, e⟩ ⟨decl', e'⟩ ⟨hdecl, he⟩ => ?_
    -- The names seen so far are the same, so both are repeated or neither is.
    have hname : decl.name = decl'.name := Decl.name_eq_of_outline hdecl
    dsimp only
    rw [hname]
    split
    · exact .fault rfl
    · refine .bind (parallel_bindingsOf recursive _ hds) fun rest rest' hrest => ?_
      exact .pure (by rw [outlineBound, outlineBound, hdecl, he, hrest])
termination_by sizeOf ds

theorem parallel_bindingOf (recursive : Bool) {d d' : Datum} (h : Matches d d') :
    Parallel (fun b b' => b.1.outline = b'.1.outline ∧ SameOutline b.2 b'.2)
      (bindingOf recursive d) (bindingOf recursive d') := by
  match d, d', h with
  | _, _, .atom _ | _, _, .quoted _ | _, _, .dotted _ _ => exact .fault rfl
  | _, _, .list (.cons hname (.cons hvalue .nil)) =>
    refine .bind (parallel_declOf recursive hname) fun decl decl' hdecl => ?_
    refine .bind (parallel_ofDatum hvalue) fun e e' he => ?_
    exact .pure ⟨hdecl, he⟩
  | _, _, .list (.cons hname (.cons hcolon (.cons hty (.cons hvalue .nil)))) =>
    refine .bind (parallel_inlineDeclOf hname hcolon hty) fun decl decl' hdecl => ?_
    refine .bind (parallel_ofDatum hvalue) fun e e' he => ?_
    exact .pure ⟨hdecl, he⟩
  | _, _, .list .nil | _, _, .list (.cons _ .nil) | _, _, .list (.cons _ (.cons _ (.cons _ .nil)))
  | _, _, .list (.cons _ (.cons _ (.cons _ (.cons _ (.cons _ _))))) => exact .fault rfl
termination_by sizeOf d

theorem parallel_defineOf (whole whole' : Span) {ds ds' : List Datum}
    (h : List.Forall₂ Matches ds ds') :
    Parallel SameOutline (defineOf whole ds) (defineOf whole' ds') := by
  match ds, ds', h with
  | _, _, .cons _ (.cons hname (.cons hvalue .nil)) =>
    refine .bind (parallel_declOf false hname) fun decl decl' hdecl => ?_
    refine .bind (parallel_ofDatum hvalue) fun e e' he => ?_
    exact .pure (by rw [SameOutline, outline, outline, hdecl, he])
  | _, _, .cons _ (.cons hname (.cons hcolon (.cons hty (.cons hvalue .nil)))) =>
    refine .bind (parallel_inlineDeclOf hname hcolon hty) fun decl decl' hdecl => ?_
    refine .bind (parallel_ofDatum hvalue) fun e e' he => ?_
    exact .pure (by rw [SameOutline, outline, outline, hdecl, he])
  | _, _, .nil | _, _, .cons _ .nil | _, _, .cons _ (.cons _ .nil)
  | _, _, .cons _ (.cons _ (.cons _ (.cons _ .nil)))
  | _, _, .cons _ (.cons _ (.cons _ (.cons _ (.cons _ (.cons _ _))))) => exact .fault rfl
termination_by sizeOf ds

end

/-- Texts with the same significant tokens are parsed as expressions of the same outline. -/
theorem parallel_parse {source source' : String}
    (h : List.Forall₂ Token.Same (Token.significant source) (Token.significant source')) :
    Parallel SameOutline (parse source) (parse source') := by
  refine .bind (.lift (alike_readTokens h)) fun ds ds' hds => ?_
  match ds, ds', hds with
  | _, _, .nil => exact .fault rfl
  | _, _, .cons hd .nil => exact parallel_ofDatum hd
  | _, _, .cons _ (.cons _ _) => exact .fault rfl

end Expr

/-! ## Programs -/

namespace Program

/-- Only a lone list can hold the forms of a program. -/
theorem unwrap_cons_cons (d e : Datum) (ds : List Datum) :
    unwrap (d :: e :: ds) = d :: e :: ds := by
  cases d with
  | atom | quoted | dotted => rfl
  | list _ elements _ => cases elements <;> rfl

/-- Programs match with and without the form around their forms. -/
theorem matches_unwrap {ds ds' : List Datum} (h : List.Forall₂ Matches ds ds') :
    List.Forall₂ Matches (unwrap ds) (unwrap ds') := by
  cases h with
  | nil => exact .nil
  | cons hd hds =>
    cases hds with
    | cons h₁ hds =>
      rw [unwrap_cons_cons, unwrap_cons_cons]
      exact .cons hd (.cons h₁ hds)
    | nil =>
      cases hd with
      | atom h => exact .cons (.atom h) .nil
      | quoted h => exact .cons (.quoted h) .nil
      | dotted hds htail => exact .cons (.dotted hds htail) .nil
      | list hds =>
        cases hds with
        | nil => exact .cons (.list .nil) .nil
        | cons hhead hrest =>
          -- Only a lone list with elements can have the head of a program.
          rw [unwrap, unwrap, isSymbol_eq_of_matches hhead]
          split
          · exact hrest
          · exact .cons (.list (.cons hhead hrest)) .nil

/-- Texts with the same significant tokens are parsed as programs of the same outline. -/
theorem parallel_parse {source source' : String}
    (h : List.Forall₂ Token.Same (Token.significant source) (Token.significant source')) :
    Parallel (fun p p' => Expr.outlineAll p.forms = Expr.outlineAll p'.forms) (parse source)
      (parse source') := by
  refine .bind (.lift (alike_readTokens h)) fun ds ds' hds => ?_
  exact .bind (Expr.parallel_ofData (matches_unwrap hds)) fun es es' hes => .pure hes

end Program

end TypedScheme
