import Mathlib.Data.List.Induction
import TypedScheme.Proofs.Datum.Places
import TypedScheme.Proofs.Expr.Grammar

/-!
# The places of syntax errors

Every error of the parser has the place of a token, of a datum or of a declaration, or none at all. The
data stand in the text in the order of their tokens, so each of these places is a piece of the text that
starts with a character that can be seen.

## What this module delivers

- `Span.Placed text s`: the span `s` is absent or marks a piece of the text.
- `Parse.Points text c P`: the errors of reading by `c` are placed in the text and its results satisfy
  `P`, with a rule for every primitive step of reading.
- `Ty.points_ofDatum`, `Value.faults_ofDatum` and `Expr.pointsFrom`, one rule of the parser at a time.
- `Program.placed_of_parse`: a text that is no program is at fault at a piece of it, or at no place.
-/

set_option autoImplicit false

namespace TypedScheme

/-- A span is absent or marks a piece of a text. -/
def Span.Placed (text : List Char) (s : Span) : Prop :=
  s.isAbsent = true ∨ ∃ a b, s.Marks text a b

/-- A span that marks a piece of the text is a place in it. -/
theorem Span.Marks.placed {text : List Char} {a b : Nat} {s : Span} (h : s.Marks text a b) :
    s.Placed text :=
  .inr ⟨a, b, h⟩

theorem Span.placed_absent (text : List Char) : Span.absent.Placed text := .inl rfl

/-! ## Steps of reading -/

namespace Parse

variable {α β : Type} {text : List Char}

/-- After any numbering, a result of reading satisfies `P` and an error is placed in a text. -/
def Points (text : List Char) (c : Parse α) (P : α → Prop) : Prop :=
  ∀ n, (∀ a, (c.run n).1 = .ok a → P a) ∧ ∀ e, (c.run n).1 = .error e → e.span.Placed text

namespace Points

variable {c : Parse α} {P : α → Prop}

theorem pure {a : α} (h : P a) : Points text (Pure.pure a) P := by
  intro n
  refine ⟨fun b hb => ?_, fun e he => by cases he⟩
  cases hb
  exact h

theorem fault {f : SyntaxFault} {span : Span} (h : span.Placed text) :
    Points text (Parse.fault f span : Parse α) P := by
  intro n
  refine ⟨fun a ha => (by cases ha), fun e he => ?_⟩
  cases he
  exact h

/-- A step after a step points into the text, if each of them does. -/
theorem bind {f : α → Parse β} {Q : β → Prop} (hc : Points text c P)
    (hf : ∀ a, P a → Points text (f a) Q) : Points text (c >>= f) Q := by
  intro n
  rcases hr : c.run n with ⟨e | a, n'⟩
  · rw [run_bind_error hr]
    refine ⟨fun b hb => (by cases hb), fun e' he => ?_⟩
    cases he
    exact (hc n).2 e (by rw [hr])
  · rw [run_bind_ok hr]
    exact hf a ((hc n).1 a (by rw [hr])) n'

/-- A result that is known already is at fault where its error is. -/
theorem lift {x : Except SyntaxError α} (h : ∀ e, x = .error e → e.span.Placed text) :
    Points text (liftM x) fun a => x = .ok a := by
  intro n
  exact ⟨fun a ha => ha, fun e he => h e he⟩

theorem forgetNames : Points text Parse.forgetNames fun _ => True := by
  intro n
  exact ⟨fun _ _ => trivial, fun e he => by cases he⟩

theorem numbered (name : String) : Points text (Parse.numbered name) fun _ => True := by
  intro n
  have hrun : (Parse.numbered name).run n = _ := yields_numbered.2 ⟨rfl, rfl⟩
  rw [hrun]
  exact ⟨fun _ _ => trivial, fun e he => by cases he⟩

end Points

end Parse

open Parse Datum

variable {text : List Char} {a b lo hi : Nat}

/-! ## Types -/

namespace Ty

/-- A name of a type is at fault at its token. -/
theorem points_ofToken {t : Token} (ht : t.span.Placed text) :
    Points text (Ty.ofToken t) fun _ => True := by
  unfold Ty.ofToken
  split
  · split
    · exact .pure trivial
    · split
      · exact .fault ht
      · exact .numbered _
  · exact .fault ht

/-- A datum is read as a type with errors that are placed in the text. -/
def PointsFrom (text : List Char) (d : Datum) : Prop := Points text (Ty.ofDatum d) fun _ => True

theorem points_ofPair {ds : List Datum} (h : ∀ d ∈ ds, PointsFrom text d) :
    Points text (ofPair ds) fun _ => True := by
  unfold ofPair
  split
  · refine .bind (h _ (by simp)) fun _ _ => ?_
    exact .bind (h _ (by simp)) fun _ _ => .pure trivial
  · exact .fault (Span.placed_absent text)

theorem points_ofLast {ds : List Datum} (h : ∀ d ∈ ds, PointsFrom text d) :
    Points text (ofLast ds) fun _ => True := by
  induction ds with
  | nil => exact .fault (Span.placed_absent text)
  | cons d ds ih =>
    obtain ⟨hd, hds⟩ := List.forall_mem_cons.1 h
    cases ds with
    | nil => exact hd
    | cons _ _ => exact ih hds

/-- Parameters behind stars are at fault at one of them, at what stands in the place of a star, or at the
whole type if no parameter follows a star. -/
theorem points_ofStarred {whole : Span} (hwhole : whole.Placed text) (ds : List Datum)
    (hplaced : ∀ d ∈ ds, d.span.Placed text) (h : ∀ d ∈ ds, PointsFrom text d) :
    Points text (ofStarred whole ds) fun _ => True := by
  induction ds using List.twoStepInduction with
  | nil => exact .pure trivial
  | singleton => exact .pure trivial
  | cons_cons star d rest ih _ =>
    obtain ⟨hstar, -, hplaced⟩ := by simpa [List.forall_mem_cons] using hplaced
    obtain ⟨-, hd, hrest⟩ := by simpa [List.forall_mem_cons] using h
    rw [ofStarred.eq_def]
    dsimp only
    split
    · exact .pure trivial
    · split
      · exact .fault hwhole
      · exact .fault hstar
    · split
      · refine .bind hd fun _ _ => ?_
        exact .bind (ih hplaced hrest) fun _ _ => .pure trivial
      · exact .fault hstar

/-- The parameters of a procedure type are at fault at one of them or at the whole type. -/
theorem points_ofParameters {whole : Span} (hwhole : whole.Placed text) {ds : List Datum}
    (hplaced : ∀ d ∈ ds, d.span.Placed text) (h : ∀ d ∈ ds, PointsFrom text d) :
    Points text (ofParameters whole ds) fun _ => True := by
  rw [ofParameters.eq_def]
  split
  · exact .pure trivial
  · exact .pure trivial
  · obtain ⟨-, hplaced⟩ := List.forall_mem_cons.1 hplaced
    obtain ⟨hd, hrest⟩ := List.forall_mem_cons.1 h
    refine .bind hd fun _ _ => ?_
    exact .bind (points_ofStarred hwhole _ hplaced hrest) fun _ _ => .pure trivial

/-- A datum that is no type is at fault at a piece of it. -/
theorem points_ofDatum {d : Datum} (h : d.Stands text a b) : PointsFrom text d := by
  unfold PointsFrom
  induction d generalizing a b with
  | atom t => exact points_ofToken h.marks.placed
  | quoted mark d _ => exact .fault h.marks.placed
  | dotted left ds dot tail right _ _ => exact .fault h.marks.placed
  | list left ds right ih =>
    have hwhole := h.marks.placed
    obtain _ | _ | ⟨-, -, hds, -, -⟩ := h
    -- Every element stands in the text, so the hypothesis holds of each of them.
    have hplaced : ∀ d ∈ ds, d.span.Placed text := by
      intro d hd
      obtain ⟨a, b, hstands⟩ := hds.exists_of_mem hd
      exact hstands.marks.placed
    have hpoints : ∀ d ∈ ds, PointsFrom text d := by
      intro d hd
      obtain ⟨a, b, hstands⟩ := hds.exists_of_mem hd
      exact ih d hd hstands
    rw [Ty.ofDatum]
    split
    · exact .fault hwhole
    · exact points_ofPair hpoints
    · refine .bind (points_ofLast hpoints) fun _ _ => ?_
      dsimp only
      split
      · exact .pure trivial
      · exact .bind (points_ofParameters hwhole hplaced hpoints) fun _ _ => .pure trivial

end Ty

/-! ## Quoted values -/

/-- An error of a computation without numbers is placed in a text. -/
def SyntaxError.Faults {α : Type} (text : List Char) (x : Except SyntaxError α) : Prop :=
  ∀ e, x = .error e → e.span.Placed text

open SyntaxError

/-- A reading in two steps is at fault in the text, if each step is. -/
theorem SyntaxError.Faults.bind {α β : Type} {x : Except SyntaxError α}
    {f : α → Except SyntaxError β} (hx : Faults text x) (hf : ∀ a, Faults text (f a)) :
    Faults text (x >>= f) := by
  intro e he
  cases x with
  | error e' =>
    cases he
    exact hx e rfl
  | ok a => exact hf a e he

theorem SyntaxError.faults_pure {α : Type} (a : α) :
    Faults text (pure a : Except SyntaxError α) := by
  intro e he
  cases he

theorem SyntaxError.faults_error {α : Type} {f : SyntaxFault} {span : Span}
    (h : span.Placed text) : Faults text (.error ⟨f, span⟩ : Except SyntaxError α) := by
  intro e he
  cases he
  exact h

/-- A number that is none is at fault where it stands. -/
theorem Token.faults_numberValue {t : Token} (ht : t.span.Placed text) :
    Faults text t.numberValue := by
  unfold Token.numberValue
  split
  · exact faults_pure _
  · exact faults_error ht

theorem Token.faults_stringValue {t : Token} (ht : t.span.Placed text) :
    Faults text t.stringValue := by
  unfold Token.stringValue
  split
  · exact faults_pure _
  · exact faults_error ht

namespace Value

/-- An atom that has no value is at fault where it stands. -/
theorem faults_ofToken {t : Token} (ht : t.span.Placed text) : Faults text (Value.ofToken t) := by
  unfold Value.ofToken
  split
  · exact .bind (Token.faults_numberValue ht) fun _ => faults_pure _
  · exact faults_pure _
  · exact .bind (Token.faults_stringValue ht) fun _ => faults_pure _
  · exact faults_pure _
  · exact faults_pure _
  · exact faults_error ht

theorem faults_ofData {ds : List Datum} (h : ∀ d ∈ ds, Faults text (Value.ofDatum d)) :
    Faults text (Value.ofData ds) := by
  induction ds with
  | nil => exact faults_pure _
  | cons d ds ih =>
    obtain ⟨hd, hds⟩ := List.forall_mem_cons.1 h
    exact .bind hd fun _ => .bind (ih hds) fun _ => faults_pure _

/-- A datum that is no value is at fault at one of its atoms. -/
theorem faults_ofDatum {d : Datum} (h : d.Stands text a b) : Faults text (Value.ofDatum d) := by
  induction d generalizing a b with
  | atom t => exact faults_ofToken h.marks.placed
  | quoted mark d ih =>
    obtain _ | ⟨-, -, -, hd⟩ := h
    exact .bind (ih hd) fun _ => faults_pure _
  | list left ds right ih =>
    obtain _ | _ | ⟨-, -, hds, -, -⟩ := h
    refine .bind (faults_ofData fun d hd => ?_) fun _ => faults_pure _
    obtain ⟨a, b, hstands⟩ := hds.exists_of_mem hd
    exact ih d hd hstands
  | dotted left ds dot tail right ih iht =>
    obtain _ | _ | _ | ⟨-, -, -, hds, -, -, htail, -, -⟩ := h
    obtain ⟨a, b, -, htail, -⟩ := htail.exists_of_singleton
    refine .bind (iht htail) fun _ => .bind (faults_ofData fun d hd => ?_) fun _ => faults_pure _
    obtain ⟨a, b, hstands⟩ := hds.exists_of_mem hd
    exact ih d hd hstands

end Value

/-! ## Declarations and atoms -/

namespace Expr

/-- What should be a name and is none is at fault itself. -/
theorem points_nameOf {d : Datum} (h : d.span.Placed text) :
    Points text (nameOf d) fun t => t.span = d.span := by
  unfold nameOf
  split
  · split
    · split
      · exact .fault h
      · exact .pure rfl
    · exact .fault h
  · exact .fault h

/-- A name with its type is at fault at one of its three parts, and spans from its first to its last.
-/
theorem points_typedName {name colon ty : Datum} {stop : Span} (hname : name.span.Placed text)
    (hcolon : colon.span.Placed text) (hty : Ty.PointsFrom text ty)
    (hstop : (name.span.cover stop).Placed text) :
    Points text (typedName name colon ty stop) fun p => p.span.Placed text := by
  refine .bind (points_nameOf hname) fun t ht => ?_
  split
  · refine .bind hty fun _ _ => .pure ?_
    rw [ht]
    exact hstop
  · exact .fault hcolon

/-- A parameter is at fault at a part of it. -/
theorem points_paramOf {d : Datum} (h : d.Stands text a b) :
    Points text (paramOf d) fun p => p.span.Placed text := by
  have hplaced := h.marks.placed
  unfold paramOf
  split
  · obtain _ | _ | ⟨-, -, hds, hr, hright⟩ := h
    obtain _ | ⟨-, hname, hrest⟩ := hds
    obtain _ | ⟨hgap, hcolon, hrest⟩ := hrest
    obtain ⟨c, d, hc, hty, hd⟩ := hrest.exists_of_singleton
    refine points_typedName hname.marks.placed hcolon.marks.placed (Ty.points_ofDatum hty) ?_
    -- The declaration reaches from its name to the parenthesis behind its type.
    have h₁ := hgap.le
    have h₂ := hcolon.marks.lt
    have h₃ := hty.marks.lt
    exact (hname.marks.cover_of_le (by omega) (hr.marks (by simp [hright]))).placed
  · exact .bind (points_nameOf hplaced) fun t ht => .fault (ht ▸ hplaced)
  · exact .fault hplaced

theorem points_paramsOf {seen : List String} {ds : List Datum}
    (h : ∀ d ∈ ds, ∃ a b, d.Stands text a b) : Points text (paramsOf seen ds) fun _ => True := by
  induction ds generalizing seen with
  | nil => exact .pure trivial
  | cons d ds ih =>
    obtain ⟨⟨a, b, hd⟩, hds⟩ := List.forall_mem_cons.1 h
    refine .bind (points_paramOf hd) fun p hp => ?_
    split
    · exact .fault hp
    · exact .bind (ih hds) fun _ _ => .pure trivial

theorem points_declOf {untyped : Bool} {d : Datum} (h : d.Stands text a b) :
    Points text (declOf untyped d) fun decl => decl.span.Placed text := by
  refine .bind .forgetNames fun _ _ => ?_
  split
  · refine .bind (points_nameOf h.marks.placed) fun t ht => .pure ?_
    rw [ht]
    exact h.marks.placed
  · exact .bind (points_paramOf h) fun p hp => .pure hp

/-- A declaration without parentheses of its own is at fault at a part of it. -/
theorem points_inlineDeclOf {name colon ty : Datum} {rest : List Datum}
    (h : StandAll text lo hi (name :: colon :: ty :: rest)) :
    Points text (inlineDeclOf name colon ty) fun decl => decl.span.Placed text := by
  obtain _ | ⟨-, hname, h⟩ := h
  obtain _ | ⟨hgap, hcolon, h⟩ := h
  obtain _ | ⟨hgap', hty, -⟩ := h
  refine .bind .forgetNames fun _ _ => ?_
  refine .bind (points_typedName hname.marks.placed hcolon.marks.placed (Ty.points_ofDatum hty) ?_)
    fun p hp => .pure hp
  have h₁ := hgap.le
  have h₂ := hcolon.marks.lt
  have h₃ := hgap'.le
  exact (hname.marks.cover_of_le (by omega) hty.marks).placed

theorem points_ofToken {t : Token} (ht : t.span.Placed text) :
    Points text (Expr.ofToken t) fun _ => True := by
  unfold Expr.ofToken
  split
  · exact .bind (.lift (Token.faults_numberValue ht)) fun _ _ => .pure trivial
  · exact .pure trivial
  · exact .bind (.lift (Token.faults_stringValue ht)) fun _ _ => .pure trivial
  · split
    · exact .pure trivial
    · split
      · exact .fault ht
      · exact .pure trivial
  · exact .fault ht
  · exact .fault ht

/-- A quotation is at fault at the datum that has no value. -/
theorem points_quoteOf {mark : Token} {d : Datum} {stop : Span} (h : d.Stands text a b) :
    Points text (quoteOf mark d stop) fun _ => True :=
  .bind (.lift (Value.faults_ofDatum h)) fun _ _ => .pure trivial

/-! ## Forms -/

/-- A datum is read as an expression, as a binding, and as a list of bindings if it is a list, with
errors that are placed in the text. -/
structure PointsFrom (text : List Char) (d : Datum) : Prop where
  expr : Points text (ofDatum d) fun _ => True
  binding : ∀ recursive, Points text (bindingOf recursive d) fun b => b.1.span.Placed text
  bindings : ∀ left ds right, d = .list left ds right →
    ∀ recursive seen, Points text (bindingsOf recursive seen ds) fun _ => True

section Rules

variable {whole : Span} {ds : List Datum}

/-- Data in a row are at fault where one of them is. -/
theorem points_ofData (h : ∀ d ∈ ds, PointsFrom text d) :
    Points text (Expr.ofData ds) fun _ => True := by
  induction ds with
  | nil => exact .pure trivial
  | cons d ds ih =>
    obtain ⟨hd, hds⟩ := List.forall_mem_cons.1 h
    exact .bind hd.expr fun _ _ => .bind (ih hds) fun _ _ => .pure trivial

theorem points_condOf (hwhole : whole.Placed text) (h : ∀ d ∈ ds, PointsFrom text d) :
    Points text (condOf whole ds) fun _ => True := by
  rw [condOf.eq_def]
  split
  · refine .bind (h _ (by simp)).expr fun _ _ => ?_
    refine .bind (h _ (by simp)).expr fun _ _ => ?_
    exact .bind (h _ (by simp)).expr fun _ _ => .pure trivial
  · exact .fault hwhole

/-- A procedure is at fault as a whole or at a part of it. -/
theorem points_lambdaOf (hwhole : whole.Placed text) (hstand : StandAll text lo hi ds)
    (h : ∀ d ∈ ds, PointsFrom text d) : Points text (lambdaOf whole ds) fun _ => True := by
  rw [lambdaOf.eq_def]
  split
  · obtain _ | ⟨-, -, hstand⟩ := hstand
    obtain _ | ⟨-, hparams, hstand⟩ := hstand
    obtain _ | ⟨-, hcolon, hstand⟩ := hstand
    obtain _ | ⟨-, hresult, -⟩ := hstand
    split
    · split
      · obtain _ | _ | ⟨-, -, hparams, -, -⟩ := hparams
        refine .bind .forgetNames fun _ _ => ?_
        refine .bind (points_paramsOf fun d hd => hparams.exists_of_mem hd) fun _ _ => ?_
        refine .bind (Ty.points_ofDatum hresult) fun _ _ => ?_
        refine .bind (points_ofData fun d hd => h d ?_) fun _ _ => .pure trivial
        simp [hd]
      · exact .fault hcolon.marks.placed
    · exact .fault hparams.marks.placed
  · exact .fault hwhole

theorem points_appOf (hwhole : whole.Placed text) (h : ∀ d ∈ ds, PointsFrom text d) :
    Points text (appOf whole ds) fun _ => True := by
  rw [appOf.eq_def]
  split
  · exact .fault hwhole
  · obtain ⟨hd, hds⟩ := List.forall_mem_cons.1 h
    exact .bind hd.expr fun _ _ => .bind (points_ofData hds) fun _ _ => .pure trivial

/-- A form that binds names is at fault as a whole or at a part of it. -/
theorem points_letOf (recursive : Bool) (hwhole : whole.Placed text)
    (hplaced : ∀ d ∈ ds, d.span.Placed text) (h : ∀ d ∈ ds, PointsFrom text d) :
    Points text (letOf whole recursive ds) fun _ => True := by
  rw [letOf.eq_def]
  split
  · split
    · have hbindings := h _ (List.mem_cons_of_mem _ List.mem_cons_self)
      refine .bind (hbindings.bindings _ _ _ rfl recursive []) fun _ _ => ?_
      refine .bind (points_ofData fun d hd => h d ?_) fun _ _ => .pure trivial
      simp [hd]
    · exact .fault (hplaced _ (by simp))
  · exact .fault hwhole

/-- Bindings are at fault where one of them is, also if its name has been bound before. -/
theorem points_bindingsOf {recursive : Bool} {seen : List String}
    (h : ∀ d ∈ ds, PointsFrom text d) :
    Points text (bindingsOf recursive seen ds) fun _ => True := by
  induction ds generalizing seen with
  | nil => exact .pure trivial
  | cons d ds ih =>
    obtain ⟨hd, hds⟩ := List.forall_mem_cons.1 h
    refine .bind (hd.binding recursive) fun b hb => ?_
    dsimp only
    split
    · exact .fault hb
    · exact .bind (ih hds) fun _ _ => .pure trivial

/-- A definition is at fault as a whole or at a part of it. -/
theorem points_defineOf (hwhole : whole.Placed text) (hstand : StandAll text lo hi ds)
    (h : ∀ d ∈ ds, PointsFrom text d) : Points text (defineOf whole ds) fun _ => True := by
  rw [defineOf.eq_def]
  split
  · obtain ⟨a, b, hname⟩ := hstand.exists_of_mem (List.mem_cons_of_mem _ List.mem_cons_self)
    refine .bind (points_declOf hname) fun _ _ => ?_
    exact .bind (h _ (by simp)).expr fun _ _ => .pure trivial
  · obtain _ | ⟨-, -, hstand⟩ := hstand
    refine .bind (points_inlineDeclOf hstand) fun _ _ => ?_
    exact .bind (h _ (by simp)).expr fun _ _ => .pure trivial
  · exact .fault hwhole

/-- A binding is at fault as a whole or at a part of it. -/
theorem points_bindingOf {recursive : Bool} {left right : Token}
    (hwhole : (Datum.list left ds right).span.Placed text) (hstand : StandAll text lo hi ds)
    (h : ∀ d ∈ ds, PointsFrom text d) :
    Points text (bindingOf recursive (.list left ds right)) fun b => b.1.span.Placed text := by
  rw [bindingOf.eq_def]
  split
  · next heq =>
    cases heq
    obtain ⟨a, b, hname⟩ := hstand.exists_of_mem List.mem_cons_self
    refine .bind (points_declOf hname) fun decl hdecl => ?_
    exact .bind (h _ (by simp)).expr fun _ _ => .pure hdecl
  · next heq =>
    cases heq
    refine .bind (points_inlineDeclOf hstand) fun decl hdecl => ?_
    exact .bind (h _ (by simp)).expr fun _ _ => .pure hdecl
  · next heq =>
    cases heq
    exact .fault hwhole
  · exact .fault hwhole

end Rules

/-- A datum that is no expression is at fault at a piece of it, or of a part of it. -/
theorem pointsFrom {d : Datum} (h : d.Stands text a b) : PointsFrom text d := by
  have hplaced := h.marks.placed
  induction d generalizing a b with
  | atom t =>
    refine ⟨points_ofToken hplaced, fun _ => .fault hplaced, fun _ _ _ heq => ?_⟩
    cases heq
  | quoted mark d _ =>
    refine ⟨?_, fun _ => .fault hplaced, fun _ _ _ heq => ?_⟩
    · obtain _ | ⟨-, -, -, hd⟩ := h
      exact points_quoteOf hd
    · cases heq
  | dotted left ds dot tail right _ _ =>
    refine ⟨.fault hplaced, fun _ => .fault hplaced, fun _ _ _ heq => ?_⟩
    cases heq
  | list left ds right ih =>
    obtain _ | _ | ⟨-, -, hds, -, -⟩ := h
    -- The hypothesis holds of every element, since every element stands in the text.
    have hall : ∀ d ∈ ds, PointsFrom text d := by
      intro d hd
      obtain ⟨a, b, hstands⟩ := hds.exists_of_mem hd
      exact ih d hd hstands hstands.marks.placed
    have hspans : ∀ d ∈ ds, d.span.Placed text := by
      intro d hd
      obtain ⟨a, b, hstands⟩ := hds.exists_of_mem hd
      exact hstands.marks.placed
    refine ⟨?_, fun recursive => points_bindingOf hplaced hds hall, fun _ _ _ heq => ?_⟩
    · rw [Expr.ofDatum]
      split
      · exact points_condOf hplaced hall
      · exact points_lambdaOf hplaced hds hall
      · exact points_letOf false hplaced hspans hall
      · exact points_letOf true hplaced hspans hall
      · exact points_defineOf hplaced hds hall
      · unfold quoteFormOf
        split
        · obtain ⟨a, b, hd⟩ := hds.exists_of_mem (List.mem_cons_of_mem _ List.mem_cons_self)
          exact points_quoteOf hd
        · exact .fault hplaced
      · exact points_appOf hplaced hall
    · cases heq
      intro recursive seen
      exact points_bindingsOf hall

end Expr

namespace Program

/-- A text that is no program is at fault at a piece of it that starts with a character that can be seen,
or at no place. -/
theorem placed_of_parse {source : String} {k k' : Nat} {e : SyntaxError}
    (h : (parse source).runFrom k = (.error e, k')) : e.span.Placed source.toList := by
  have hread : ∀ e, Datum.readAll source = .error e → e.span.Placed source.toList := by
    intro e he
    obtain ⟨t, a, b, ht, hspan⟩ := exists_span_of_readAll he
    obtain ⟨c, hmarks⟩ := ht.exists_marks
    rw [hspan]
    exact hmarks.placed
  have hpoints : Points source.toList (parse source) fun _ => True := by
    refine .bind (.lift hread) fun ds hds => ?_
    refine .bind (Expr.points_ofData fun d hd => ?_) fun _ _ => .pure trivial
    obtain ⟨_, _, -, -, hforms⟩ := exists_standAll_unwrap (standAll_of_readAll hds)
    obtain ⟨a, b, hstands⟩ := hforms.exists_of_mem hd
    exact Expr.pointsFrom hstands
  exact (hpoints ⟨k, []⟩).2 e (congrArg Prod.fst h)

end Program

end TypedScheme
