import TypedScheme.Proofs.Datum.Shape
import TypedScheme.Proofs.Run
import TypedScheme.Ty.Reader

/-!
# The grammar of type expressions

What a datum must look like to be a type, and which type it is then, as rules beside the reader. The
numbers of type variables are threaded through the rules in the order of reading: the result of a
procedure before its parameters.

## What this module delivers

- `Parse.Yields c n a n'`: reading by `c` after the numbering `n` gives `a` and leaves `n'`, with an
  equivalence for every primitive step of reading.
- `Ty.Spelled n d t n'`, the grammar of type expressions.
- `Ty.yields_ofDatum_iff`: the reader accepts exactly what the grammar derives, and
  `Ty.parse_eq_ok_iff`, the same for texts.
- `Ty.Spelled.exists_after`: a type expression is one after any numbers.
-/

set_option autoImplicit false

namespace TypedScheme

/-- The number of a name, which is the next one at its first use, and the numbering with it. -/
def Numbering.assign (n : Numbering) (name : String) : Nat × Numbering :=
  match n.names.lookup name with
  | some id => (id, n)
  | none => (n.last + 1, ⟨n.last + 1, (name, n.last + 1) :: n.names⟩)

/-! ## Steps of reading -/

namespace Parse

variable {α β : Type} {n n' : Numbering}

/-- Reading after a numbering gives a result and leaves a numbering. -/
def Yields (c : Parse α) (n : Numbering) (a : α) (n' : Numbering) : Prop := c.run n = (.ok a, n')

/-- What a run gives is all that it gives. -/
theorem yields_of_run {c : Parse α} {a b : α} {m : Numbering} (h : c.run n = (.ok b, m)) :
    Yields c n a n' ↔ a = b ∧ n' = m := by
  rw [Yields, h]
  constructor
  · intro h
    cases h
    exact ⟨rfl, rfl⟩
  · rintro ⟨rfl, rfl⟩
    rfl

@[simp] theorem yields_pure {a b : α} : Yields (pure a) n b n' ↔ b = a ∧ n' = n :=
  yields_of_run rfl

/-- A fault yields nothing. -/
@[simp] theorem not_yields_fault (f : SyntaxFault) (span : Span) (a : α) :
    ¬ Yields (fault f span) n a n' := fun h => by cases h

/-- A bind gives what its second part gives after the first. -/
@[simp] theorem yields_bind {c : Parse α} {f : α → Parse β} {b : β} :
    Yields (c >>= f) n b n' ↔ ∃ a m, Yields c n a m ∧ Yields (f a) m b n' := by
  unfold Yields
  rw [run_bind]
  rcases c.run n with ⟨e | a, m⟩
  · constructor
    · intro h
      cases h
    · rintro ⟨a, m, h, -⟩
      cases h
  · constructor
    · exact fun h => ⟨a, m, rfl, h⟩
    · rintro ⟨a, m, h, hf⟩
      cases h
      exact hf

@[simp] theorem yields_map {c : Parse α} {f : α → β} {b : β} :
    Yields (f <$> c) n b n' ↔ ∃ a, Yields c n a n' ∧ b = f a := by
  rw [map_eq_pure_bind]
  simp only [yields_bind, yields_pure]
  constructor
  · rintro ⟨a, _, h, rfl, rfl⟩
    exact ⟨a, h, rfl⟩
  · rintro ⟨a, h, rfl⟩
    exact ⟨a, _, h, rfl, rfl⟩

/-- What is known already is yielded, and the numbering stays. -/
@[simp] theorem yields_lift {x : Except SyntaxError α} {a : α} :
    Yields (liftM x) n a n' ↔ x = .ok a ∧ n' = n := by
  change (x, n) = (.ok a, n') ↔ _
  simp [eq_comm]

@[simp] theorem yields_forgetNames {u : Unit} : Yields forgetNames n u n' ↔ n' = ⟨n.last, []⟩ :=
  (yields_of_run rfl).trans (and_iff_right rfl)

/-- A name yields the variable that is assigned to it. -/
@[simp] theorem yields_numbered {name : String} {t : Ty} :
    Yields (numbered name) n t n' ↔ t = .var (n.assign name).1 ∧ n' = (n.assign name).2 := by
  refine yields_of_run ?_
  unfold Numbering.assign
  change ((match n.names.lookup name with
    | some id => pure (Ty.var id)
    | none => set (⟨n.last + 1, (name, n.last + 1) :: n.names⟩ : Numbering) >>= fun _ =>
      pure (Ty.var (n.last + 1)) : Parse Ty)).run n = _
  cases n.names.lookup name <;> rfl

/-- Reading after some numbers starts without names, and its names are lost at the end. -/
theorem runFrom_eq_ok_iff {c : Parse α} {k k' : Nat} {a : α} :
    c.runFrom k = (.ok a, k') ↔ ∃ names, Yields c ⟨k, []⟩ a ⟨k', names⟩ := by
  unfold runFrom Yields
  rcases c.run ⟨k, []⟩ with ⟨r, m, names⟩
  constructor
  · intro h
    cases h
    exact ⟨names, rfl⟩
  · rintro ⟨names, h⟩
    cases h
    rfl

end Parse

open Parse

namespace Ty

/-! ## The rules -/

mutual

/-- A datum is a type expression. -/
inductive Spelled : Numbering → Datum → Ty → Numbering → Prop
  | base {n : Numbering} {t : Token} {b : Base} :
      t.kind = .symbol → Base.ofName? t.text = some b → Spelled n (.atom t) (.base b) n
  | var {n : Numbering} {t : Token} :
      t.kind = .symbol → Base.ofName? t.text = none → t.text ∉ reservedNames →
      Spelled n (.atom t) (.var (n.assign t.text).1) (n.assign t.text).2
  | pair {n n₁ n₂ : Numbering} {left right : Token} {head a d : Datum} {car cdr : Ty} :
      head.isSymbol "Pair" → Spelled n a car n₁ → Spelled n₁ d cdr n₂ →
      Spelled n (.list left [head, a, d] right) (.pair car cdr) n₂
  | proc {n n₁ n₂ : Numbering} {left right : Token} {ds : List Datum} {arrow d : Datum}
      {params : List Ty} {result : Ty} :
      arrow.isSymbol "->" → Spelled n d result n₁ → Params n₁ ds params n₂ →
      Spelled n (.list left (ds ++ [arrow, d]) right) (.proc params result) n₂

/-- Data are the parameters of a procedure type, of which there may be none in two ways. -/
inductive Params : Numbering → List Datum → List Ty → Numbering → Prop
  | nil {n : Numbering} : Params n [] [] n
  | empty {n : Numbering} {d : Datum} : d.isSymbol "Empty" → Params n [d] [] n
  | cons {n n₁ n₂ : Numbering} {d : Datum} {rest : List Datum} {t : Ty} {ts : List Ty} :
      (rest = [] → ¬ d.isSymbol "Empty") → Spelled n d t n₁ → Starred n₁ rest ts n₂ →
      Params n (d :: rest) (t :: ts) n₂

/-- Data are type expressions, each behind a star. -/
inductive Starred : Numbering → List Datum → List Ty → Numbering → Prop
  | nil {n : Numbering} : Starred n [] [] n
  | cons {n n₁ n₂ : Numbering} {star d : Datum} {rest : List Datum} {t : Ty} {ts : List Ty} :
      star.isSymbol "*" → Spelled n d t n₁ → Starred n₁ rest ts n₂ →
      Starred n (star :: d :: rest) (t :: ts) n₂

end

/-! ## The reader and the rules -/

variable {n n' : Numbering} {t : Ty} {ts : List Ty} {ds : List Datum}

/-- An atom is read as the type that it spells. -/
theorem yields_ofToken_iff {token : Token} :
    Yields (ofToken token) n t n' ↔ Spelled n (.atom token) t n' := by
  constructor
  · intro h
    unfold ofToken at h
    split at h
    · next hkind =>
      split at h
      · next hbase =>
        obtain ⟨rfl, rfl⟩ := yields_pure.1 h
        exact .base hkind hbase
      · next hbase =>
        split at h
        · exact absurd h (not_yields_fault _ _ _)
        · next hreserved =>
          obtain ⟨rfl, rfl⟩ := yields_numbered.1 h
          exact .var hkind hbase (by simpa using hreserved)
    · exact absurd h (not_yields_fault _ _ _)
  · intro h
    cases h with
    | base hkind hbase => simp [ofToken, hkind, hbase]
    | var hkind hbase hreserved => simp [ofToken, hkind, hbase, hreserved]

/-- An arrow stands before the last if the data end in an arrow and one more. -/
theorem arrowBeforeLast_iff :
    arrowBeforeLast ds ↔ ∃ init arrow d, ds = init ++ [arrow, d] ∧ arrow.isSymbol "->" := by
  fun_induction arrowBeforeLast ds with
  | case1 arrow d =>
    constructor
    · exact fun h => ⟨[], arrow, d, rfl, h⟩
    · rintro ⟨init, arrow', d', h, harrow⟩
      obtain ⟨rfl, h⟩ : [] = init ∧ [arrow, d] = [arrow', d'] := List.append_inj' (by simpa using h) rfl
      cases h
      exact harrow
  | case2 d rest hrest ih =>
    rw [ih]
    constructor
    · rintro ⟨init, arrow, d', rfl, harrow⟩
      exact ⟨d :: init, arrow, d', rfl, harrow⟩
    · rintro ⟨init, arrow, d', h, harrow⟩
      cases init with
      | nil =>
        cases h
        exact (hrest _ rfl).elim
      | cons e init =>
        cases h
        exact ⟨init, arrow, d', rfl, harrow⟩
  | case3 => simp

/-- The result is the last datum, whatever stands before it. -/
theorem ofLast_append (init : List Datum) (d : Datum) : ofLast (init ++ [d]) = ofDatum d := by
  induction init with
  | nil => rw [List.nil_append, ofLast]
  | cons e init ih =>
    cases init with
    | nil => exact (ofLast.eq_3 e [d] (by simp)).trans ih
    | cons f init => exact (ofLast.eq_3 e (f :: init ++ [d]) (by simp)).trans ih

theorem exists_cons_cons (rest : List Datum) (arrow d : Datum) :
    ∃ a b more, rest ++ [arrow, d] = a :: b :: more := by
  match rest with
  | [] => exact ⟨arrow, d, [], rfl⟩
  | [a] => exact ⟨a, arrow, [d], rfl⟩
  | a :: b :: rest => exact ⟨a, b, rest ++ [arrow, d], rfl⟩

/-- In front of an arrow and a result, stars and types alternate. -/
theorem yields_ofStarred_iff {n n' : Numbering} {ts : List Ty} (whole : Span) (arrow d : Datum)
    (rest : List Datum)
    (ih : ∀ e ∈ rest, ∀ {n t n'}, Yields (ofDatum e) n t n' ↔ Spelled n e t n') :
    Yields (ofStarred whole (rest ++ [arrow, d])) n ts n' ↔ Starred n rest ts n' := by
  match rest with
  | [] =>
    rw [List.nil_append, ofStarred, yields_pure]
    constructor
    · rintro ⟨rfl, rfl⟩
      exact .nil
    · intro h
      cases h
      exact ⟨rfl, rfl⟩
  | [star] =>
    -- Without a type behind it neither a star nor anything else is accepted.
    have hnone : ¬ Yields (ofStarred whole [star, arrow, d]) n ts n' := by
      rw [ofStarred]
      split <;> exact not_yields_fault _ _ _
    exact ⟨fun h => absurd h hnone, fun h => by cases h⟩
  | star :: e :: rest =>
    -- An arrow and a result follow in any case, so the reader does not stop here.
    obtain ⟨a, b, more, hmore⟩ := exists_cons_cons rest arrow d
    have hrest (m : Numbering) (ts : List Ty) :
        Yields (ofStarred whole (a :: b :: more)) m ts n' ↔ Starred m rest ts n' :=
      hmore ▸ yields_ofStarred_iff whole arrow d rest fun e he => ih e (by simp [he])
    have hstep : ofStarred whole (star :: e :: a :: b :: more) =
        if star.isSymbol "*" then do
          let t ← ofDatum e
          let ts ← ofStarred whole (a :: b :: more)
          pure (t :: ts)
        else fault .starExpected star.span := by
      rw [ofStarred] <;> simp
    rw [List.cons_append, List.cons_append, hmore, hstep]
    split
    · next hstar =>
      simp only [yields_bind, yields_pure, ih e (by simp)]
      constructor
      · rintro ⟨t, n₁, ht, ts, n₂, hts, rfl, rfl⟩
        exact .cons hstar ht ((hrest _ _).1 hts)
      · intro h
        cases h with
        | cons _ ht hts => exact ⟨_, _, ht, _, _, (hrest _ _).2 hts, rfl, rfl⟩
    · next hstar =>
      refine ⟨fun h => absurd h (not_yields_fault _ _ _), fun h => ?_⟩
      cases h with
      | cons hstar' _ _ => exact absurd hstar' hstar

/-- A list is a pair type exactly if it has the word for it and two more elements. -/
theorem form_eq_pair_iff :
    form ds = .ok .pair ↔ ∃ head a d, ds = [head, a, d] ∧ head.isSymbol "Pair" := by
  match ds with
  | [] | [_] | [_, _] | [_, _, _] | _ :: _ :: _ :: _ :: _ => grind [form]

/-- A list is a procedure type exactly if it is no pair type and has an arrow before its last element.
-/
theorem form_eq_procedure_iff {head : Datum} {rest : List Datum} :
    form (head :: rest) = .ok .procedure ↔
      ¬ head.isSymbol "Pair" ∧ arrowBeforeLast (head :: rest) := by
  by_cases hpair : head.isSymbol "Pair"
  · by_cases hlength : rest.length = 2 <;> simp [form, hpair, hlength]
  · cases rest with
    | nil => simp [form, hpair, arrowBeforeLast]
    | cons d rest => by_cases harrow : arrowBeforeLast (head :: d :: rest) <;> simp [form, hpair, harrow]

/-- The name of the pair form is no type. -/
theorem Spelled.not_isSymbol_pair {d : Datum} (h : Spelled n d t n') : ¬ d.isSymbol "Pair" := by
  intro hpair
  cases h with
  | base _ hbase =>
    obtain ⟨-, htext⟩ : _ ∧ _ = "Pair" := by simpa [Datum.isSymbol, Token.isSymbol] using hpair
    rw [htext] at hbase
    cases hbase
  | var _ _ hreserved =>
    obtain ⟨-, htext⟩ : _ ∧ _ = "Pair" := by simpa [Datum.isSymbol, Token.isSymbol] using hpair
    exact hreserved (by simp [htext, reservedNames])
  | pair | proc => cases hpair

theorem Params.form_eq {arrow d : Datum} (h : Params n ds ts n') (harrow : arrow.isSymbol "->") :
    form (ds ++ [arrow, d]) = .ok .procedure := by
  have hlast (init : List Datum) : arrowBeforeLast (init ++ [arrow, d]) :=
    arrowBeforeLast_iff.2 ⟨init, arrow, d, rfl, harrow⟩
  have hother {e : Datum} {name : String} (h : e.isSymbol name) (hne : name ≠ "Pair") :
      ¬ e.isSymbol "Pair" := by
    cases e with
    | atom t => simp_all [Datum.isSymbol, Token.isSymbol]
    | quoted | list | dotted => simp [Datum.isSymbol]
  cases h with
  | nil => exact form_eq_procedure_iff.2 ⟨hother harrow (by decide), hlast []⟩
  | @empty _ e hempty => exact form_eq_procedure_iff.2 ⟨hother hempty (by decide), hlast [e]⟩
  | @cons _ _ _ e rest _ _ _ ht _ =>
    exact form_eq_procedure_iff.2 ⟨ht.not_isSymbol_pair, hlast (e :: rest)⟩

theorem hasNoParameters_append (first arrow d : Datum) (rest : List Datum) :
    hasNoParameters (first :: (rest ++ [arrow, d])) = (rest.isEmpty && first.isSymbol "Empty") := by
  match rest with
  | [] | [_] | _ :: _ :: _ => simp [hasNoParameters]

/-- The parameters stand in front of an arrow and a result. -/
theorem params_iff (whole : Span) (arrow d : Datum)
    (ih : ∀ e ∈ ds, ∀ {n t n'}, Yields (ofDatum e) n t n' ↔ Spelled n e t n') :
    Params n ds ts n' ↔
      if hasNoParameters (ds ++ [arrow, d]) then ts = [] ∧ n' = n
      else Yields (ofParameters whole (ds ++ [arrow, d])) n ts n' := by
  match ds with
  | [] =>
    rw [List.nil_append, if_neg (by simp [hasNoParameters]), ofParameters, yields_pure]
    constructor
    · intro h
      cases h
      exact ⟨rfl, rfl⟩
    · rintro ⟨rfl, rfl⟩
      exact .nil
  | first :: rest =>
    rw [List.cons_append, hasNoParameters_append]
    split
    · next hempty =>
      -- A single `Empty` in front of the arrow stands for no parameter.
      obtain ⟨hrest, hempty⟩ := Bool.and_eq_true_iff.1 hempty
      obtain rfl := List.isEmpty_iff.1 hrest
      constructor
      · intro h
        cases h with
        | empty => exact ⟨rfl, rfl⟩
        | cons hne => exact absurd hempty (hne rfl)
      · rintro ⟨rfl, rfl⟩
        exact .empty hempty
    · next hempty =>
      obtain ⟨a, b, more, hmore⟩ := exists_cons_cons rest arrow d
      have hread : ofParameters whole (first :: (rest ++ [arrow, d])) = (do
          let t ← ofDatum first
          let ts ← ofStarred whole (rest ++ [arrow, d])
          pure (t :: ts)) := by
        rw [hmore, ofParameters]
        simp
      rw [hread]
      simp only [yields_bind, yields_pure, ih first (by simp),
        yields_ofStarred_iff whole arrow d rest fun e he => ih e (by simp [he])]
      constructor
      · intro h
        cases h with
        | empty h => exact absurd (by simp [h]) hempty
        | cons _ ht hts => exact ⟨_, _, ht, _, _, hts, rfl, rfl⟩
      · rintro ⟨t, n₁, ht, ts, n₂, hts, rfl, rfl⟩
        refine .cons (fun hrest hfirst => hempty ?_) ht hts
        rw [hrest, hfirst]
        rfl

/-- The parameters of a procedure type, which follow its result, are read exactly by the grammar. -/
theorem yields_proc_iff {result : Ty} (whole : Span) (arrow d : Datum)
    (ih : ∀ e ∈ ds, ∀ {n t n'}, Yields (ofDatum e) n t n' ↔ Spelled n e t n') :
    Yields (do
        let params ← if hasNoParameters (ds ++ [arrow, d]) then pure []
          else ofParameters whole (ds ++ [arrow, d])
        pure (.proc params result)) n t n' ↔
      ∃ params, Params n ds params n' ∧ t = .proc params result := by
  simp only [params_iff whole arrow d ih]
  split
  · simp only [pure_bind, yields_pure]
    constructor
    · rintro ⟨rfl, rfl⟩
      exact ⟨[], ⟨rfl, rfl⟩, rfl⟩
    · rintro ⟨params, ⟨rfl, rfl⟩, rfl⟩
      exact ⟨rfl, rfl⟩
  · simp

/-- The reader accepts exactly what the grammar derives. -/
theorem yields_ofDatum_iff (d : Datum) : Yields (ofDatum d) n t n' ↔ Spelled n d t n' := by
  induction d generalizing n t n' with
  | atom token => rw [ofDatum, yields_ofToken_iff]
  | quoted | dotted =>
    rw [ofDatum]
    exact ⟨fun h => absurd h (not_yields_fault _ _ _), fun h => by cases h⟩
  | list left ds right ih =>
    rw [ofDatum]
    constructor
    · intro h
      dsimp only at h
      split at h
      · exact absurd h (not_yields_fault _ _ _)
      · next hform =>
        obtain ⟨head, a, d, rfl, hpair⟩ := form_eq_pair_iff.1 hform
        simp only [ofPair, yields_bind, yields_pure, ih a (by simp), ih d (by simp)] at h
        obtain ⟨car, n₁, ha, cdr, n₂, hd, rfl, rfl⟩ := h
        exact .pair hpair ha hd
      · next hform =>
        obtain ⟨init, arrow, d, rfl, harrow⟩ : ∃ init arrow d, ds = init ++ [arrow, d] ∧
            arrow.isSymbol "->" := by
          cases ds with
          | nil => cases hform
          | cons head rest => exact arrowBeforeLast_iff.1 (form_eq_procedure_iff.1 hform).2
        -- The result is read before the parameters, although it is written behind them.
        rw [List.append_cons, ofLast_append, ← List.append_cons, yields_bind] at h
        obtain ⟨result, n₁, hd, h⟩ := h
        rw [yields_proc_iff _ _ _ fun e he => ih e (by simp [he])] at h
        obtain ⟨params, hparams, rfl⟩ := h
        exact .proc harrow ((ih d (by simp)).1 hd) hparams
    · intro h
      cases h with
      | pair hpair ha hd =>
        simp only [form_eq_pair_iff.2 ⟨_, _, _, rfl, hpair⟩, ofPair, yields_bind, yields_pure]
        exact ⟨_, _, (ih _ (by simp)).2 ha, _, _, (ih _ (by simp)).2 hd, rfl, rfl⟩
      | proc harrow hd hparams =>
        simp only [hparams.form_eq harrow]
        rw [List.append_cons, ofLast_append, ← List.append_cons, yields_bind]
        refine ⟨_, _, (ih _ (by simp)).2 hd, ?_⟩
        rw [yields_proc_iff _ _ _ fun e he => ih e (by simp [he])]
        exact ⟨_, hparams, rfl⟩

/-- A text is a type exactly when it is one datum that the grammar derives. -/
theorem parse_eq_ok_iff {source : String} {k k' : Nat} {t : Ty} :
    (parse source).runFrom k = (.ok t, k') ↔
      ∃ d names, Datum.readAll source = .ok [d] ∧ Spelled ⟨k, []⟩ d t ⟨k', names⟩ := by
  simp only [runFrom_eq_ok_iff, parse, yields_bind, yields_lift]
  constructor
  · rintro ⟨names, ds, _, ⟨hds, rfl⟩, h⟩
    rcases ds with _ | ⟨d, _ | ⟨d', ds⟩⟩
    · exact absurd h (not_yields_fault _ _ _)
    · simp only [yields_bind, yields_forgetNames, yields_ofDatum_iff] at h
      obtain ⟨-, _, rfl, h⟩ := h
      exact ⟨d, names, hds, h⟩
    · exact absurd h (not_yields_fault _ _ _)
  · rintro ⟨d, names, hd, h⟩
    refine ⟨names, [d], _, ⟨hd, rfl⟩, ?_⟩
    simp only [yields_bind, yields_forgetNames, yields_ofDatum_iff]
    exact ⟨(), _, rfl, h⟩

mutual

/-- Whether a datum is a type expression does not depend on the numbers given out before. -/
theorem Spelled.exists_after {n n' : Numbering} {d : Datum} {t : Ty} (m : Numbering) :
    Spelled n d t n' → ∃ t' m', Spelled m d t' m'
  | .base hkind hbase => ⟨_, _, .base hkind hbase⟩
  | .var hkind hbase hreserved => ⟨_, _, .var hkind hbase hreserved⟩
  | .pair hpair ha hd => by
    obtain ⟨car, m₁, ha⟩ := ha.exists_after m
    obtain ⟨cdr, m₂, hd⟩ := hd.exists_after m₁
    exact ⟨_, _, .pair hpair ha hd⟩
  | .proc harrow hd hparams => by
    obtain ⟨result, m₁, hd⟩ := hd.exists_after m
    obtain ⟨params, m₂, hparams⟩ := hparams.exists_after m₁
    exact ⟨_, _, .proc harrow hd hparams⟩

theorem Params.exists_after {n n' : Numbering} {ds : List Datum} {ts : List Ty} (m : Numbering) :
    Params n ds ts n' → ∃ ts' m', Params m ds ts' m'
  | .nil => ⟨_, _, .nil⟩
  | .empty hempty => ⟨_, _, .empty hempty⟩
  | .cons hempty ht hts => by
    obtain ⟨t, m₁, ht⟩ := ht.exists_after m
    obtain ⟨ts, m₂, hts⟩ := hts.exists_after m₁
    exact ⟨_, _, .cons hempty ht hts⟩

theorem Starred.exists_after {n n' : Numbering} {ds : List Datum} {ts : List Ty} (m : Numbering) :
    Starred n ds ts n' → ∃ ts' m', Starred m ds ts' m'
  | .nil => ⟨_, _, .nil⟩
  | .cons hstar ht hts => by
    obtain ⟨t, m₁, ht⟩ := ht.exists_after m
    obtain ⟨ts, m₂, hts⟩ := hts.exists_after m₁
    exact ⟨_, _, .cons hstar ht hts⟩

end

end Ty

end TypedScheme
