import TypedScheme.Expr.Parser
import TypedScheme.Proofs.Expr.Annotations
import TypedScheme.Proofs.Run

/-!
# The type variables of parsed programs

Reading gives out the numbers of type variables one after the other, so when a program has been read,
the last number given out is not below any of its type variables. This is what checking relies on when
it takes the numbers after the last one for new variables.

## What this module delivers

- `Ty.Numbered k`, `Expr.NumberedAll k`: all variables are numbered up to `k`.
- `Parse.Numbers k c P`: reading with `c` after at least `k` numbers only gives out later ones, and
  its result satisfies `P` from the last one on; with a rule for every primitive step of reading.
- `Ty.numbers_ofDatum` and `Expr.numbers_ofDatum`, one case for every form of a type and of an
  expression.
- `Program.numbered_of_parse`: a parsed program is numbered up to the last number given out, and
  `Program.last_le_parse`: that number is no lower than the last one before.
-/

set_option autoImplicit false

namespace TypedScheme

/-- All variables of a type are numbered up to `k`. -/
def Ty.Numbered (k : Nat) (t : Ty) : Prop := t.Over {x | x ≤ k}

instance (k : Nat) : DecidablePred (Ty.Numbered k) := fun t =>
  inferInstanceAs (Decidable (∀ x ∈ t.vars, x ≤ k))

/-- Numbers that have been given out stay given out. -/
theorem Ty.Numbered.mono {k k' : Nat} {t : Ty} (h : t.Numbered k) (hk : k ≤ k') : t.Numbered k' :=
  fun x hx => Nat.le_trans (h x hx) hk

/-- All type variables of expressions are numbered up to `k`. -/
def Expr.NumberedAll (k : Nat) (es : List Expr) : Prop := CarriesAll (Ty.Numbered k) es

instance (k : Nat) : DecidablePred (Expr.NumberedAll k) := fun es =>
  inferInstanceAs (Decidable (∀ t ∈ Expr.annotationsAll es, t.Numbered k))

theorem Expr.NumberedAll.mono {k k' : Nat} {es : List Expr} (h : NumberedAll k es) (hk : k ≤ k') :
    NumberedAll k' es :=
  fun t ht => (h t ht).mono hk

/-- Expressions in two parts are numbered if both parts are. -/
theorem Expr.numberedAll_append {k : Nat} {es fs : List Expr} :
    NumberedAll k (es ++ fs) ↔ NumberedAll k es ∧ NumberedAll k fs :=
  carriesAll_append

/-! ## Steps of reading -/

/-- The names of a numbering stand for numbers that have been given out. -/
def Numbering.Valid (n : Numbering) : Prop := ∀ p ∈ n.names, p.2 ≤ n.last

namespace Parse

variable {α β : Type} {k : Nat} {P : Nat → α → Prop} {Q : Nat → β → Prop}

/-- After at least `k` numbers, reading gives out later numbers only, and its result satisfies `P` from
the last one on. -/
def Numbers (k : Nat) (c : Parse α) (P : Nat → α → Prop) : Prop :=
  ∀ n : Numbering, n.Valid → k ≤ n.last →
    (c.run n).2.Valid ∧ n.last ≤ (c.run n).2.last ∧
      ∀ a, (c.run n).1 = .ok a → ∀ k', (c.run n).2.last ≤ k' → P k' a

namespace Numbers

/-- What needs no number is numbered. -/
theorem pure {a : α} (h : ∀ k', k ≤ k' → P k' a) : Numbers k (Pure.pure a) P := by
  intro n hn hk
  refine ⟨hn, Nat.le_refl _, fun b hb k' hk' => ?_⟩
  obtain rfl : a = b := Except.ok.inj hb
  exact h k' (Nat.le_trans hk hk')

theorem fault (f : SyntaxFault) (span : Span) : Numbers k (fault f span) P := by
  intro n hn _
  exact ⟨hn, Nat.le_refl _, fun b hb => by cases hb⟩

/-- What does not read a type gives out no numbers. -/
theorem lift (x : Except SyntaxError α) : Numbers k (liftM x : Parse α) fun _ _ => True := by
  intro n hn _
  exact ⟨hn, Nat.le_refl _, fun _ _ _ _ => trivial⟩

/-- The second part of a bind reads after the numbers that the first part has given out. -/
theorem bind {c : Parse α} {f : α → Parse β} (hc : Numbers k c P)
    (hf : ∀ a k', k ≤ k' → (∀ k'', k' ≤ k'' → P k'' a) → Numbers k' (f a) Q) :
    Numbers k (c >>= f) Q := by
  intro n hn hk
  obtain ⟨hvalid, hle, hok⟩ := hc n hn hk
  rw [run_bind]
  rcases hr : c.run n with ⟨e | a, n'⟩
  · rw [hr] at hvalid hle
    exact ⟨hvalid, hle, fun b hb => by cases hb⟩
  · rw [hr] at hvalid hle hok
    have hkn : k ≤ n'.last := Nat.le_trans hk hle
    obtain ⟨hvalid', hle', hok'⟩ := hf a n'.last hkn (hok a rfl) n' hvalid (Nat.le_refl _)
    exact ⟨hvalid', Nat.le_trans hle hle', hok'⟩

/-- Forgetting the names gives no number back. -/
theorem forgetNames : Numbers k forgetNames fun _ _ => True := by
  intro n _ _
  exact ⟨fun p hp => absurd hp List.not_mem_nil, Nat.le_refl _, fun _ _ _ _ => trivial⟩

/-- A name that is known keeps its number, and any other gets the next. -/
theorem run_numbered_eq (name : String) (n : Numbering) :
    (Parse.numbered name).run n = match n.names.lookup name with
      | some id => (.ok (.var id), n)
      | none => (.ok (.var (n.last + 1)), ⟨n.last + 1, (name, n.last + 1) :: n.names⟩) := by
  change ((match n.names.lookup name with
    | some id => Pure.pure (Ty.var id)
    | none => set (⟨n.last + 1, (name, n.last + 1) :: n.names⟩ : Numbering) >>= fun _ =>
      Pure.pure (Ty.var (n.last + 1)) : Parse Ty)).run n = _
  cases n.names.lookup name <;> rfl

/-- A name stands for a number that it has been given before, or for the next one. -/
theorem numbered (name : String) : Numbers k (numbered name) Ty.Numbered := by
  intro n hn _
  rw [run_numbered_eq]
  cases hlookup : n.names.lookup name with
  | some id =>
    -- The name has been met before in the type expression at hand.
    obtain ⟨before, after, hnames, -⟩ := List.lookup_eq_some_iff.1 hlookup
    have hid : id ≤ n.last := hn (name, id) (by simp [hnames])
    refine ⟨hn, Nat.le_refl _, fun t ht k' hk' => ?_⟩
    obtain rfl : Ty.var id = t := Except.ok.inj ht
    exact Ty.over_var.2 (Nat.le_trans hid hk')
  | none =>
    refine ⟨?_, Nat.le_succ _, fun t ht k' hk' => ?_⟩
    · intro p hp
      rcases List.mem_cons.1 hp with rfl | hp
      · exact Nat.le_refl _
      · exact Nat.le_succ_of_le (hn p hp)
    · obtain rfl : Ty.var (n.last + 1) = t := Except.ok.inj ht
      exact Ty.over_var.2 hk'

end Numbers

end Parse

open Parse

variable {k : Nat}

/-! ## Types -/

namespace Ty

/-- The variable of a name has a number that has been given out. -/
theorem numbers_ofToken (t : Token) : Numbers k (ofToken t) Numbered := by
  unfold ofToken
  split
  · split
    · exact .pure fun _ _ x hx => absurd hx List.not_mem_nil
    · split
      · exact .fault _ _
      · exact .numbered _
  · exact .fault _ _

mutual

/-- The variables of a type that is read have numbers that have been given out. -/
theorem numbers_ofDatum {k : Nat} (d : Datum) : Numbers k (ofDatum d) Numbered := by
  cases d with
  | atom t => rw [ofDatum]; exact numbers_ofToken t
  | quoted mark d => rw [ofDatum]; exact .fault _ _
  | dotted left ds dot tail right => rw [ofDatum]; exact .fault _ _
  | list left ds right =>
    rw [ofDatum]
    dsimp only
    split
    · exact .fault _ _
    · exact numbers_ofPair ds
    · -- The result is read first, so its variables have the lower numbers.
      refine .bind (numbers_ofLast ds) fun result k₁ _ hresult => ?_
      split
      · exact .pure fun k' hk' => over_proc.2
          ⟨fun t ht => absurd ht List.not_mem_nil, hresult k' hk'⟩
      · refine .bind (numbers_ofParameters _ ds) fun params k₂ hk₂ hparams => ?_
        exact .pure fun k' hk' =>
          over_proc.2 ⟨hparams k' hk', hresult k' (Nat.le_trans hk₂ hk')⟩

theorem numbers_ofPair {k : Nat} (ds : List Datum) : Numbers k (ofPair ds) Numbered := by
  match ds with
  | [_, a, d] =>
    refine .bind (numbers_ofDatum a) fun car k₁ _ hcar => ?_
    refine .bind (numbers_ofDatum d) fun cdr k₂ hk₂ hcdr => ?_
    exact .pure fun k' hk' => over_pair.2 ⟨hcar k' (Nat.le_trans hk₂ hk'), hcdr k' hk'⟩
  | [] | [_] | [_, _] | _ :: _ :: _ :: _ :: _ => exact .fault _ _

theorem numbers_ofLast {k : Nat} (ds : List Datum) : Numbers k (ofLast ds) Numbered := by
  match ds with
  | [] => exact .fault _ _
  | [d] => exact numbers_ofDatum d
  | _ :: d :: rest => exact numbers_ofLast (d :: rest)

/-- The variables of parameters that are read have numbers that have been given out. -/
theorem numbers_ofParameters {k : Nat} (whole : Span) (ds : List Datum) :
    Numbers k (ofParameters whole ds) fun k ts => ∀ t ∈ ts, t.Numbered k := by
  match ds with
  | [] | [_, _] => exact .pure fun _ _ t ht => absurd ht List.not_mem_nil
  | [d] =>
    refine .bind (numbers_ofDatum d) fun t k₁ _ ht => ?_
    refine .bind (numbers_ofStarred whole []) fun ts k₂ hk₂ hts => ?_
    exact .pure fun k' hk' => List.forall_mem_cons.2 ⟨ht k' (Nat.le_trans hk₂ hk'), hts k' hk'⟩
  | d :: d₁ :: d₂ :: rest =>
    refine .bind (numbers_ofDatum d) fun t k₁ _ ht => ?_
    refine .bind (numbers_ofStarred whole (d₁ :: d₂ :: rest)) fun ts k₂ hk₂ hts => ?_
    exact .pure fun k' hk' => List.forall_mem_cons.2 ⟨ht k' (Nat.le_trans hk₂ hk'), hts k' hk'⟩

theorem numbers_ofStarred {k : Nat} (whole : Span) (ds : List Datum) :
    Numbers k (ofStarred whole ds) fun k ts => ∀ t ∈ ts, t.Numbered k := by
  match ds with
  | [] | [_] | [_, _] => exact .pure fun _ _ t ht => absurd ht List.not_mem_nil
  | [star, _, _] =>
    rw [ofStarred]
    split <;> exact .fault _ _
  | star :: d :: d₁ :: d₂ :: rest =>
    unfold ofStarred
    dsimp only
    split
    · refine .bind (numbers_ofDatum d) fun t k₁ _ ht => ?_
      refine .bind (numbers_ofStarred whole (d₁ :: d₂ :: rest)) fun ts k₂ hk₂ hts => ?_
      exact .pure fun k' hk' => List.forall_mem_cons.2 ⟨ht k' (Nat.le_trans hk₂ hk'), hts k' hk'⟩
    · exact .fault _ _

end

end Ty

/-! ## Expressions -/

namespace Expr

/-- A declaration has no type, or one that is numbered up to `k`. -/
def NumberedDecl (k : Nat) (d : Decl) : Prop := ∀ t, d.ty? = some t → t.Numbered k

theorem numbers_nameOf (d : Datum) : Numbers k (nameOf d) fun _ _ => True := by
  cases d with
  | atom t =>
    rw [nameOf]
    split
    · split
      · exact .fault _ _
      · exact .pure fun _ _ => trivial
    · exact .fault _ _
  | quoted | dotted | list => exact .fault _ _

/-- The type of a name is numbered. -/
theorem numbers_typedName (name colon ty : Datum) (stop : Span) :
    Numbers k (typedName name colon ty stop) fun k p => p.ty.Numbered k := by
  refine .bind (numbers_nameOf name) fun token k₁ _ _ => ?_
  split
  · refine .bind (Ty.numbers_ofDatum ty) fun t k₂ _ ht => ?_
    exact .pure ht
  · exact .fault _ _

theorem numbers_paramOf (d : Datum) : Numbers k (paramOf d) fun k p => p.ty.Numbered k := by
  unfold paramOf
  split
  · exact numbers_typedName _ _ _ _
  · exact .bind (numbers_nameOf _) fun token k₁ _ _ => .fault _ _
  · exact .fault _ _

/-- The types of parameters are numbered, also when later ones have given out more numbers. -/
theorem numbers_paramsOf (seen : List String) (ds : List Datum) :
    Numbers k (paramsOf seen ds) fun k ps => ∀ p ∈ ps, p.ty.Numbered k := by
  induction ds generalizing seen k with
  | nil => exact .pure fun _ _ p hp => absurd hp List.not_mem_nil
  | cons d ds ih =>
    refine .bind (numbers_paramOf d) fun p k₁ _ hp => ?_
    split
    · exact .fault _ _
    · refine .bind (ih _) fun ps k₂ hk₂ hps => ?_
      exact .pure fun k' hk' => List.forall_mem_cons.2 ⟨hp k' (Nat.le_trans hk₂ hk'), hps k' hk'⟩

theorem numbered_decl {p : Param} (h : p.ty.Numbered k) : NumberedDecl k p.decl := by
  intro t ht
  obtain rfl : p.ty = t := Option.some.inj ht
  exact h

/-- The type of a declaration is numbered, if it has one. -/
theorem numbers_declOf (untyped : Bool) (d : Datum) : Numbers k (declOf untyped d) NumberedDecl := by
  refine .bind .forgetNames fun _ k₁ _ _ => ?_
  split
  · -- A bare name declares no type.
    refine .bind (numbers_nameOf _) fun token k₂ _ _ => ?_
    exact .pure fun _ _ t ht => by cases ht
  · refine .bind (numbers_paramOf _) fun p k₂ _ hp => ?_
    exact .pure fun k' hk' => numbered_decl (hp k' hk')

theorem numbers_inlineDeclOf (name colon ty : Datum) :
    Numbers k (inlineDeclOf name colon ty) NumberedDecl := by
  refine .bind .forgetNames fun _ k₁ _ _ => ?_
  refine .bind (numbers_typedName name colon ty _) fun p k₂ _ hp => ?_
  exact .pure fun k' hk' => numbered_decl (hp k' hk')

/-- An expression without annotations is numbered by all numbers. -/
theorem numbers_pure_of_annotations {e : Expr} (h : e.annotations = []) :
    Numbers k (pure e : Parse Expr) fun k e => e.Carries (Ty.Numbered k) :=
  .pure fun _ _ t ht => by simp [h] at ht

/-- An atom carries no type. -/
theorem numbers_ofToken (t : Token) :
    Numbers k (ofToken t) fun k e => e.Carries (Ty.Numbered k) := by
  unfold ofToken
  split
  · -- A number.
    exact .bind (.lift _) fun n k₁ _ _ => numbers_pure_of_annotations rfl
  · -- A boolean.
    exact numbers_pure_of_annotations rfl
  · -- A string.
    exact .bind (.lift _) fun s k₁ _ _ => numbers_pure_of_annotations rfl
  · -- A symbol is an operator or a name, unless it is a keyword.
    split
    · exact numbers_pure_of_annotations rfl
    · split
      · exact .fault _ _
      · exact numbers_pure_of_annotations rfl
  · exact .fault _ _
  · exact .fault _ _

theorem numbers_quoteOf (mark : Token) (d : Datum) (stop : Span) :
    Numbers k (quoteOf mark d stop) fun k e => e.Carries (Ty.Numbered k) :=
  .bind (.lift _) fun _ _ _ _ => numbers_pure_of_annotations rfl

theorem numbers_quoteFormOf (whole stop : Span) (ds : List Datum) :
    Numbers k (quoteFormOf whole stop ds) fun k e => e.Carries (Ty.Numbered k) := by
  unfold quoteFormOf
  split
  · exact numbers_quoteOf _ _ _
  · exact .fault _ _

mutual

/-- The types that an expression carries are numbered when it has been read. -/
theorem numbers_ofDatum {k : Nat} (d : Datum) :
    Numbers k (ofDatum d) fun k e => e.Carries (Ty.Numbered k) := by
  cases d with
  | atom t => rw [ofDatum]; exact numbers_ofToken t
  | quoted mark d => rw [ofDatum]; exact numbers_quoteOf _ _ _
  | dotted left ds dot tail right => rw [ofDatum]; exact .fault _ _
  | list left ds right =>
    rw [ofDatum]
    split
    · exact numbers_condOf _ ds
    · exact numbers_lambdaOf _ ds
    · exact numbers_letOf _ _ ds
    · exact numbers_letOf _ _ ds
    · exact numbers_defineOf _ ds
    · exact numbers_quoteFormOf _ _ ds
    · exact numbers_appOf _ ds

/-- The types that expressions carry are numbered when all of them have been read. -/
theorem numbers_ofData {k : Nat} (ds : List Datum) : Numbers k (ofData ds) NumberedAll := by
  match ds with
  | [] => exact .pure fun _ _ t ht => absurd ht List.not_mem_nil
  | d :: ds =>
    refine .bind (numbers_ofDatum d) fun e k₁ _ he => ?_
    refine .bind (numbers_ofData ds) fun es k₂ hk₂ hes => ?_
    exact .pure fun k' hk' => carriesAll_cons.2 ⟨he k' (Nat.le_trans hk₂ hk'), hes k' hk'⟩

theorem numbers_condOf {k : Nat} (whole : Span) (ds : List Datum) :
    Numbers k (condOf whole ds) fun k e => e.Carries (Ty.Numbered k) := by
  match ds with
  | [_, test, consequent, alternative] =>
    refine .bind (numbers_ofDatum test) fun a k₁ _ ha => ?_
    refine .bind (numbers_ofDatum consequent) fun b k₂ hk₂ hb => ?_
    refine .bind (numbers_ofDatum alternative) fun c k₃ hk₃ hc => ?_
    refine .pure fun k' hk' => carries_cond.2 ⟨ha k' ?_, hb k' ?_, hc k' hk'⟩
    · exact Nat.le_trans hk₂ (Nat.le_trans hk₃ hk')
    · exact Nat.le_trans hk₃ hk'
  | [] | [_] | [_, _] | [_, _, _] | _ :: _ :: _ :: _ :: _ :: _ => exact .fault _ _

/-- The types of the parameters and of the result of a procedure are numbered, and so are those in its
body. -/
theorem numbers_lambdaOf {k : Nat} (whole : Span) (ds : List Datum) :
    Numbers k (lambdaOf whole ds) fun k e => e.Carries (Ty.Numbered k) := by
  match ds with
  | _ :: params :: colon :: result :: body =>
    cases params with
    | list left ds right =>
      rw [lambdaOf]
      split
      · refine .bind .forgetNames fun _ k₀ _ _ => ?_
        refine .bind (numbers_paramsOf [] ds) fun ps k₁ _ hps => ?_
        refine .bind (Ty.numbers_ofDatum result) fun r k₂ hk₂ hr => ?_
        refine .bind (numbers_ofData body) fun es k₃ hk₃ hes => ?_
        refine .pure fun k' hk' => carries_lambda.2 ⟨hps k' ?_, hr k' ?_, hes k' hk'⟩
        · exact Nat.le_trans hk₂ (Nat.le_trans hk₃ hk')
        · exact Nat.le_trans hk₃ hk'
      · exact .fault _ _
    | atom | quoted | dotted => exact .fault _ _
  | [] | [_] | [_, _] | [_, _, _] => exact .fault _ _

theorem numbers_appOf {k : Nat} (whole : Span) (ds : List Datum) :
    Numbers k (appOf whole ds) fun k e => e.Carries (Ty.Numbered k) := by
  match ds with
  | [] => exact .fault _ _
  | operator :: operands =>
    refine .bind (numbers_ofDatum operator) fun f k₁ _ hf => ?_
    refine .bind (numbers_ofData operands) fun es k₂ hk₂ hes => ?_
    exact .pure fun k' hk' => carries_app.2 ⟨hf k' (Nat.le_trans hk₂ hk'), hes k' hk'⟩

/-- The types in bindings and in the body behind them are numbered. -/
theorem numbers_letOf {k : Nat} (whole : Span) (recursive : Bool) (ds : List Datum) :
    Numbers k (letOf whole recursive ds) fun k e => e.Carries (Ty.Numbered k) := by
  match ds with
  | _ :: bindings :: body =>
    cases bindings with
    | list left ds right =>
      refine .bind (numbers_bindingsOf recursive [] ds) fun bs k₁ _ hbs => ?_
      refine .bind (numbers_ofData body) fun es k₂ hk₂ hes => ?_
      refine .pure fun k' hk' => ?_
      have hparts := And.intro (hbs k' (Nat.le_trans hk₂ hk')) (hes k' hk')
      split
      · exact carries_letrec.2 hparts
      · exact carries_letin.2 hparts
    | atom | quoted | dotted => exact .fault _ _
  | [] | [_] => exact .fault _ _

/-- The types that bindings carry are numbered. -/
theorem numbers_bindingsOf {k : Nat} (recursive : Bool) (seen : List String) (ds : List Datum) :
    Numbers k (bindingsOf recursive seen ds) fun k bs => CarriesBound (Ty.Numbered k) bs := by
  match ds with
  | [] => exact .pure fun _ _ t ht => absurd ht List.not_mem_nil
  | d :: ds =>
    refine .bind (numbers_bindingOf recursive d) fun ⟨decl, value⟩ k₁ _ hb => ?_
    dsimp only
    split
    · exact .fault _ _
    · refine .bind (numbers_bindingsOf recursive _ ds) fun rest k₂ hk₂ hrest => ?_
      refine .pure fun k' hk' => carriesBound_cons.2 ?_
      obtain ⟨hdecl, hvalue⟩ := hb k' (Nat.le_trans hk₂ hk')
      exact ⟨hdecl, hvalue, hrest k' hk'⟩

/-- The types that a binding carries, in its declaration and its value, are numbered. -/
theorem numbers_bindingOf {k : Nat} (recursive : Bool) (d : Datum) :
    Numbers k (bindingOf recursive d)
      fun k b => NumberedDecl k b.1 ∧ b.2.Carries (Ty.Numbered k) := by
  match d with
  | .list _ [name, value] _ =>
    refine .bind (numbers_declOf recursive name) fun decl k₁ _ hdecl => ?_
    refine .bind (numbers_ofDatum value) fun e k₂ hk₂ he => ?_
    exact .pure fun k' hk' => ⟨hdecl k' (Nat.le_trans hk₂ hk'), he k' hk'⟩
  | .list _ [name, colon, ty, value] _ =>
    refine .bind (numbers_inlineDeclOf name colon ty) fun decl k₁ _ hdecl => ?_
    refine .bind (numbers_ofDatum value) fun e k₂ hk₂ he => ?_
    exact .pure fun k' hk' => ⟨hdecl k' (Nat.le_trans hk₂ hk'), he k' hk'⟩
  | .list _ [] _ | .list _ [_] _ | .list _ [_, _, _] _ | .list _ (_ :: _ :: _ :: _ :: _ :: _) _
  | .atom _ | .quoted _ _ | .dotted _ _ _ _ _ => exact .fault _ _

theorem numbers_defineOf {k : Nat} (whole : Span) (ds : List Datum) :
    Numbers k (defineOf whole ds) fun k e => e.Carries (Ty.Numbered k) := by
  match ds with
  | [_, name, value] =>
    refine .bind (numbers_declOf false name) fun decl k₁ _ hdecl => ?_
    refine .bind (numbers_ofDatum value) fun e k₂ hk₂ he => ?_
    exact .pure fun k' hk' => carries_define.2 ⟨hdecl k' (Nat.le_trans hk₂ hk'), he k' hk'⟩
  | [_, name, colon, ty, value] =>
    refine .bind (numbers_inlineDeclOf name colon ty) fun decl k₁ _ hdecl => ?_
    refine .bind (numbers_ofDatum value) fun e k₂ hk₂ he => ?_
    exact .pure fun k' hk' => carries_define.2 ⟨hdecl k' (Nat.le_trans hk₂ hk'), he k' hk'⟩
  | [] | [_] | [_, _] | [_, _, _, _] | _ :: _ :: _ :: _ :: _ :: _ :: _ => exact .fault _ _

end

end Expr

namespace Program

/-- The types that a program carries are numbered when it has been parsed. -/
theorem numbers_parse (source : String) :
    Numbers k (parse source) fun k p => Expr.NumberedAll k p.forms := by
  refine .bind (.lift _) fun ds k₁ _ _ => ?_
  refine .bind (Expr.numbers_ofData (unwrap ds)) fun es k₂ _ hes => ?_
  exact .pure hes

/-- Numbers are never taken back, also when a text does not parse. -/
theorem last_le_parse (source : String) (last : Nat) : last ≤ ((parse source).runFrom last).2 :=
  (numbers_parse source ⟨last, []⟩ (fun _ hp => absurd hp List.not_mem_nil) (Nat.le_refl _)).2.1

/-- The type variables of a parsed program are numbered up to the last number given out. -/
theorem numbered_of_parse {source : String} {last last' : Nat} {p : Program}
    (h : (parse source).runFrom last = (.ok p, last')) : Expr.NumberedAll last' p.forms := by
  obtain ⟨-, -, hok⟩ :=
    numbers_parse source ⟨last, []⟩ (fun _ hp => absurd hp List.not_mem_nil) (Nat.le_refl _)
  have hlast : ((parse source).run ⟨last, []⟩).2.last = last' := congrArg Prod.snd h
  exact hok p (congrArg Prod.fst h) last' (Nat.le_of_eq hlast)

end Program

end TypedScheme
