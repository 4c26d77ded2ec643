import TypedScheme.Proofs.Ty.Writing

/-!
# What type expressions denote

The grammar of type expressions without the order of reading. The names of variables stand for numbers
by a table that is there from the start, so that a type expression denotes one type by one table. The
reader makes such a table while it reads: it has one new number for every name.

## What this module delivers

- `Ty.Denotes names d t`: by the table `names`, the datum `d` denotes the type `t`.
- `Numbering.Extends n n'`: the numbering `n'` comes from `n` by naming more variables. Names keep their
  numbers, and different names keep different ones (`Numbering.Extends.lookup`,
  `Numbering.Extends.faithful`).
- `Ty.Spelled.denotes` and `Ty.Denotes.spelled`: what is read is denoted by the table at the end, and
  what is denoted by a table is read without a new number when the table is there at the start.
- `Datum.typeNames`, the names of type variables in a type expression, and `Ty.Denotes.map_lookup`: the
  variables of a type are those that a table gives to the names, from left to right.
- `Ty.parse_ok_iff_denotes`: a text is read as a type exactly when it is one datum that denotes a type,
  and the result is the only type that it denotes by a table of new numbers.
-/

set_option autoImplicit false

namespace TypedScheme

open Parse

/-! ## The grammar -/

namespace Ty

mutual

/-- By a table of variables, a datum denotes a type. -/
inductive Denotes (names : List (String × Nat)) : Datum → Ty → Prop
  | base {t : Token} {b : Base} :
      t.kind = .symbol → Base.ofName? t.text = some b → Denotes names (.atom t) (.base b)
  | var {t : Token} {x : Nat} :
      t.kind = .symbol → Base.ofName? t.text = none → t.text ∉ ["Pair", "->", "*"] →
      names.lookup t.text = some x → Denotes names (.atom t) (.var x)
  | pair {left right : Token} {head a d : Datum} {car cdr : Ty} :
      head.isSymbol "Pair" → Denotes names a car → Denotes names d cdr →
      Denotes names (.list left [head, a, d] right) (.pair car cdr)
  | thunk {left right : Token} {arrow d : Datum} {result : Ty} :
      arrow.isSymbol "->" → Denotes names d result →
      Denotes names (.list left [arrow, d] right) (.proc [] result)
  | empty {left right : Token} {e arrow d : Datum} {result : Ty} :
      e.isSymbol "Empty" → arrow.isSymbol "->" → Denotes names d result →
      Denotes names (.list left [e, arrow, d] right) (.proc [] result)
  | proc {left right : Token} {ds : List Datum} {arrow d : Datum} {params : List Ty} {result : Ty} :
      (∀ e, ds = [e] → ¬ e.isSymbol "Empty") → DenoteParams names ds params →
      arrow.isSymbol "->" → Denotes names d result →
      Denotes names (.list left (ds ++ [arrow, d]) right) (.proc params result)

/-- Data denote one or more types with stars between them. -/
inductive DenoteParams (names : List (String × Nat)) : List Datum → List Ty → Prop
  | one {d : Datum} {t : Ty} : Denotes names d t → DenoteParams names [d] [t]
  | cons {d star : Datum} {rest : List Datum} {t : Ty} {ts : List Ty} :
      Denotes names d t → star.isSymbol "*" → DenoteParams names rest ts →
      DenoteParams names (d :: star :: rest) (t :: ts)

end

end Ty

/-! ## Tables that grow -/

namespace Numbering

/-- A numbering comes from another by naming more variables. -/
inductive Extends (n : Numbering) : Numbering → Prop
  | refl : Extends n n
  | assign {m : Numbering} (name : String) : Extends n m → Extends n (m.assign name).2

variable {n m p : Numbering}

theorem Extends.trans (h : n.Extends m) (h' : m.Extends p) : n.Extends p := by
  induction h' with
  | refl => exact h
  | assign name _ ih => exact .assign name ih

theorem assign_of_lookup {name : String} {x : Nat} (h : n.names.lookup name = some x) :
    n.assign name = (x, n) := by
  rw [assign, h]

theorem assign_of_lookup_none {name : String} (h : n.names.lookup name = none) :
    n.assign name = (n.last + 1, ⟨n.last + 1, (name, n.last + 1) :: n.names⟩) := by
  rw [assign, h]

/-- Naming a variable gives its name a number, and all other names keep what they have. -/
theorem lookup_assign (n : Numbering) (name x : String) :
    (n.assign name).2.names.lookup x =
      if x = name then some (n.assign name).1 else n.names.lookup x := by
  cases h : n.names.lookup name with
  | some id =>
    rw [assign_of_lookup h]
    split
    · next hx => rw [hx, h]
    · rfl
  | none =>
    rw [assign_of_lookup_none h, List.lookup_cons]
    by_cases hx : x = name
    · simp [hx]
    · simp [hx, beq_eq_false_iff_ne.2 hx]

/-- A name that has a number keeps it. -/
theorem Extends.lookup (h : n.Extends m) {name : String} {x : Nat}
    (hx : n.names.lookup name = some x) : m.names.lookup name = some x := by
  induction h with
  | refl => exact hx
  | @assign m name' _ ih =>
    rw [lookup_assign]
    split
    · next heq => rw [← heq, assign_of_lookup ih]
    · exact ih

/-- No two names have the same number, and no name has a number that is still to be given out. -/
structure Faithful (n : Numbering) : Prop where
  given : ∀ name x, n.names.lookup name = some x → x ≤ n.last
  distinct : ∀ name name' x, n.names.lookup name = some x → n.names.lookup name' = some x →
    name = name'

theorem faithful_start (k : Nat) : Faithful ⟨k, []⟩ where
  given := by
    intro name x h
    cases h
  distinct := by
    intro name name' x h
    cases h

/-- A new name gets a number that no name has so far. -/
theorem Faithful.assign (h : n.Faithful) (name : String) : (n.assign name).2.Faithful := by
  cases hname : n.names.lookup name with
  | some id =>
    rw [assign_of_lookup hname]
    exact h
  | none =>
    have hlookup : ∀ x, (n.assign name).2.names.lookup x =
        if x = name then some (n.last + 1) else n.names.lookup x := by
      intro x
      rw [lookup_assign, assign_of_lookup_none hname]
    have hlast : (n.assign name).2.last = n.last + 1 := by rw [assign_of_lookup_none hname]
    -- No number so far is greater than the last one.
    have hfresh : ∀ y, n.names.lookup y ≠ some (n.last + 1) := by
      intro y hy
      exact absurd (h.given y _ hy) (Nat.not_succ_le_self n.last)
    constructor
    · intro y x hy
      rw [hlookup] at hy
      rw [hlast]
      split at hy
      · exact (Option.some.inj hy).ge
      · exact Nat.le_succ_of_le (h.given y x hy)
    · intro y y' x hy hy'
      rw [hlookup] at hy hy'
      split at hy <;> split at hy'
      · next heq heq' => rw [heq, heq']
      · exact absurd (hy'.trans hy.symm) (hfresh y')
      · exact absurd (hy.trans hy'.symm) (hfresh y)
      · exact h.distinct y y' x hy hy'

theorem Extends.faithful (h : n.Extends m) (hn : n.Faithful) : m.Faithful := by
  induction h with
  | refl => exact hn
  | assign name _ ih => exact ih.assign name

end Numbering

namespace Ty

mutual

/-- Reading a type expression only names variables. -/
theorem Spelled.extends {n n' : Numbering} {d : Datum} {t : Ty} : Spelled n d t n' → n.Extends n'
  | .base _ _ => .refl
  | .var _ _ _ => .assign _ .refl
  | .pair _ ha hd => ha.extends.trans hd.extends
  | .proc _ hd hparams => hd.extends.trans hparams.extends

theorem Params.extends {n n' : Numbering} {ds : List Datum} {ts : List Ty} :
    Params n ds ts n' → n.Extends n'
  | .nil | .empty _ => .refl
  | .cons _ ht hts => ht.extends.trans hts.extends

theorem Starred.extends {n n' : Numbering} {ds : List Datum} {ts : List Ty} :
    Starred n ds ts n' → n.Extends n'
  | .nil => .refl
  | .cons _ ht hts => ht.extends.trans hts.extends

end

/-! ## The reader and the denotation -/

mutual

/-- What is read is denoted by every table that the reader comes to afterwards. -/
theorem Spelled.denotes {n n' m : Numbering} {d : Datum} {t : Ty} (hm : n'.Extends m) :
    Spelled n d t n' → Denotes m.names d t
  | .base hkind hbase => .base hkind hbase
  | .var hkind hbase hreserved => by
    refine .var hkind hbase hreserved (hm.lookup ?_)
    rw [Numbering.lookup_assign, if_pos rfl]
  | .pair hpair ha hd => .pair hpair (ha.denotes (hd.extends.trans hm)) (hd.denotes hm)
  | .proc harrow hd hparams => hparams.denotes hm harrow (hd.denotes (hparams.extends.trans hm))

/-- Parameters in front of an arrow and a result make a procedure type. -/
theorem Params.denotes {n n' m : Numbering} {ds : List Datum} {ts : List Ty} {left right : Token}
    {arrow d : Datum} {result : Ty} (hm : n'.Extends m) (hparams : Params n ds ts n')
    (harrow : arrow.isSymbol "->") (hd : Denotes m.names d result) :
    Denotes m.names (.list left (ds ++ [arrow, d]) right) (.proc ts result) := by
  cases hparams with
  | nil => exact .thunk harrow hd
  | empty hempty => exact .empty hempty harrow hd
  | cons hempty ht hts =>
    refine .proc ?_ (hts.denotes hm (ht.denotes (hts.extends.trans hm))) harrow hd
    intro e he
    obtain ⟨rfl, hrest⟩ := List.cons.inj he
    exact hempty hrest

/-- A type in front of types that are each behind a star makes a list of parameters. -/
theorem Starred.denotes {n n' m : Numbering} {ds : List Datum} {ts : List Ty} {d : Datum} {t : Ty}
    (hm : n'.Extends m) (hstarred : Starred n ds ts n') (hd : Denotes m.names d t) :
    DenoteParams m.names (d :: ds) (t :: ts) := by
  cases hstarred with
  | nil => exact .one hd
  | cons hstar ht hts => exact .cons hd hstar (hts.denotes hm (ht.denotes (hts.extends.trans hm)))

end

mutual

/-- What is denoted by a table is read after the table, without a new number. -/
theorem Denotes.spelled {n : Numbering} {d : Datum} {t : Ty} :
    Denotes n.names d t → Spelled n d t n
  | .base hkind hbase => .base hkind hbase
  | .var hkind hbase hreserved hx => by
    have h := Spelled.var (n := n) hkind hbase hreserved
    rwa [Numbering.assign_of_lookup hx] at h
  | .pair hpair ha hd => .pair hpair ha.spelled hd.spelled
  | .thunk harrow hd => @Spelled.proc n n n _ _ [] _ _ _ _ harrow hd.spelled .nil
  | .empty hempty harrow hd => @Spelled.proc n n n _ _ [_] _ _ _ _ harrow hd.spelled (.empty hempty)
  | .proc hempty hparams harrow hd => .proc harrow hd.spelled (hparams.spelled hempty)

theorem DenoteParams.spelled {n : Numbering} {ds : List Datum} {ts : List Ty}
    (hempty : ∀ e, ds = [e] → ¬ e.isSymbol "Empty") : DenoteParams n.names ds ts → Params n ds ts n
  | .one hd => .cons (fun _ => hempty _ rfl) hd.spelled .nil
  | .cons hd hstar hrest => .cons (fun h => by cases h) hd.spelled (hrest.starred hstar)

theorem DenoteParams.starred {n : Numbering} {ds : List Datum} {ts : List Ty} {star : Datum}
    (hstar : star.isSymbol "*") : DenoteParams n.names ds ts → Starred n (star :: ds) ts n
  | .one hd => .cons hstar hd.spelled .nil
  | .cons hd hstar' hrest => .cons hstar hd.spelled (hrest.starred hstar')

end

/-- By one table, a datum denotes one type at most. -/
theorem Denotes.unique {names : List (String × Nat)} {d : Datum} {t t' : Ty}
    (h : Denotes names d t) (h' : Denotes names d t') : t' = t := by
  let n : Numbering := ⟨0, names⟩
  have hread : Yields (ofDatum d) n t n := (yields_ofDatum_iff d).2 (Denotes.spelled (n := n) h)
  have hread' : Yields (ofDatum d) n t' n := (yields_ofDatum_iff d).2 (Denotes.spelled (n := n) h')
  exact ((yields_of_run hread).1 hread').1

end Ty

/-! ## The names in a type expression -/

namespace Datum

mutual

/-- The names of type variables in a type expression, from left to right. -/
def typeNames : Datum → List String
  | atom t =>
    if t.kind = .symbol ∧ Base.ofName? t.text = none ∧ t.text ∉ Ty.reservedNames then [t.text] else []
  | list _ ds _ => typeNamesAll ds
  | quoted _ _ => []
  | dotted _ _ _ _ _ => []

/-- The names of type variables in type expressions, from left to right. -/
def typeNamesAll : List Datum → List String
  | [] => []
  | d :: ds => typeNames d ++ typeNamesAll ds

end

theorem typeNamesAll_append (ds es : List Datum) :
    typeNamesAll (ds ++ es) = typeNamesAll ds ++ typeNamesAll es := by
  induction ds with
  | nil => rfl
  | cons d ds ih => rw [List.cons_append, typeNamesAll, typeNamesAll, ih, List.append_assoc]

/-- The names with a meaning of their own are no type variables. -/
theorem typeNames_of_isSymbol {d : Datum} {name : String} (h : d.isSymbol name)
    (hname : Base.ofName? name ≠ none ∨ name ∈ Ty.reservedNames) : d.typeNames = [] := by
  cases d with
  | atom t =>
    simp only [isSymbol, Token.isSymbol, Bool.and_eq_true, decide_eq_true_eq] at h
    obtain ⟨-, rfl⟩ := h
    rw [typeNames, if_neg]
    rintro ⟨-, hbase, hreserved⟩
    rcases hname with hname | hname
    · exact hname hbase
    · exact hreserved hname
  | quoted | list | dotted => cases h

end Datum

namespace Ty

open Datum

theorem typeNames_star {d : Datum} (h : d.isSymbol "*") : d.typeNames = [] :=
  typeNames_of_isSymbol h (.inr (by decide))

theorem typeNames_arrow {d : Datum} (h : d.isSymbol "->") : d.typeNames = [] :=
  typeNames_of_isSymbol h (.inr (by decide))

mutual

/-- The table gives every name in a type expression the variable at the same place of the type. -/
theorem Denotes.map_lookup {names : List (String × Nat)} {d : Datum} {t : Ty} :
    Denotes names d t → d.typeNames.map (names.lookup ·) = t.vars.map some
  | .base hkind hbase => by
    rw [typeNames, if_neg (by simp [hbase])]
    rfl
  | .var hkind hbase hreserved hx => by
    rw [typeNames, if_pos ⟨hkind, hbase, hreserved⟩, List.map_singleton, hx]
    rfl
  | .pair hpair ha hd => by
    rw [typeNames, typeNamesAll, typeNamesAll, typeNamesAll, typeNamesAll,
      typeNames_of_isSymbol hpair (.inr (by decide)), vars, List.nil_append, List.append_nil,
      List.map_append, List.map_append, ha.map_lookup, hd.map_lookup]
  | .thunk harrow hd => by
    rw [typeNames, typeNamesAll, typeNamesAll, typeNamesAll, typeNames_arrow harrow, vars, varsAll,
      List.nil_append, List.append_nil, List.nil_append, hd.map_lookup]
  | .empty hempty harrow hd => by
    rw [typeNames, typeNamesAll, typeNamesAll, typeNamesAll, typeNamesAll, typeNames_arrow harrow,
      typeNames_of_isSymbol hempty (.inl (by decide)), vars, varsAll, List.nil_append,
      List.nil_append, List.append_nil, List.nil_append, hd.map_lookup]
  | .proc _ hparams harrow hd => by
    rw [typeNames, typeNamesAll_append, typeNamesAll, typeNamesAll, typeNamesAll,
      typeNames_arrow harrow, vars, List.nil_append, List.append_nil, List.map_append,
      List.map_append, hparams.map_lookup, hd.map_lookup]

theorem DenoteParams.map_lookup {names : List (String × Nat)} {ds : List Datum} {ts : List Ty} :
    DenoteParams names ds ts → (typeNamesAll ds).map (names.lookup ·) = (varsAll ts).map some
  | .one hd => by
    rw [typeNamesAll, typeNamesAll, varsAll, varsAll, List.append_nil, List.append_nil, hd.map_lookup]
  | .cons hd hstar hrest => by
    rw [typeNamesAll, typeNamesAll, typeNames_star hstar, varsAll, List.nil_append, List.map_append,
      List.map_append, hd.map_lookup, hrest.map_lookup]

end

/-! ## Texts -/

/-- A text is read as a type exactly when it is one datum that the grammar derives. The result is the
one type that the datum denotes by a table in which different names stand for different variables, and
all its variables are new. -/
theorem parse_ok_iff_denotes (source : String) (k : Nat) :
    ((∃ t k', (parse source).runFrom k = (.ok t, k')) ↔
      ∃ d names t, Datum.readAll source = .ok [d] ∧ Denotes names d t) ∧
    ∀ t k', (parse source).runFrom k = (.ok t, k') →
      ∃ d names, Datum.readAll source = .ok [d] ∧ Denotes names d t ∧
        (∀ t', Denotes names d t' → t' = t) ∧
        (∀ x y id, names.lookup x = some id → names.lookup y = some id → x = y) ∧
        ∀ x ∈ t.vars, k < x := by
  have hresult : ∀ t k', (parse source).runFrom k = (.ok t, k') →
      ∃ d names, Datum.readAll source = .ok [d] ∧ Denotes names d t ∧
        (∀ t', Denotes names d t' → t' = t) ∧
        (∀ x y id, names.lookup x = some id → names.lookup y = some id → x = y) ∧
        ∀ x ∈ t.vars, k < x := by
    intro t k' h
    obtain ⟨d, names, hd, ht⟩ := parse_eq_ok_iff.1 h
    have hdenotes : Denotes names d t := ht.denotes .refl
    have hfaithful := ht.extends.faithful (Numbering.faithful_start k)
    obtain ⟨-, -, hnew⟩ := ht.within (Numbering.within_start k)
    exact ⟨d, names, hd, hdenotes, fun t' => hdenotes.unique, hfaithful.distinct, hnew⟩
  refine ⟨⟨?_, ?_⟩, hresult⟩
  · rintro ⟨t, k', h⟩
    obtain ⟨d, names, hd, ht, -⟩ := hresult t k' h
    exact ⟨d, names, t, hd, ht⟩
  · rintro ⟨d, names, t, hd, ht⟩
    obtain ⟨t', ⟨k', names'⟩, h⟩ :=
      (Denotes.spelled (n := ⟨0, names⟩) ht).exists_after ⟨k, []⟩
    exact ⟨t', k', parse_eq_ok_iff.2 ⟨d, names', hd, h⟩⟩

/-- Two parameters with a variable in common, and a result without parameters. The result is read
first, so its variable gets the first new number. -/
theorem parse_ok_iff_denotes_shared :
    let source := "((Pair a b) * a -> (Empty -> b))"
    let t : Ty := .proc [.pair (.var 6) (.var 5), .var 6] (.proc [] (.var 5))
    (parse source).runFrom 4 = (.ok t, 6) ∧
      ∃ d names, Datum.readAll source = .ok [d] ∧ Denotes names d t ∧
        (∀ t', Denotes names d t' → t' = t) ∧
        (∀ x y id, names.lookup x = some id → names.lookup y = some id → x = y) ∧
        ∀ x ∈ t.vars, 4 < x := by
  intro source t
  have hresult : ((parse source).runFrom 4).1.toOption = some t := by decide +kernel
  have hlast : ((parse source).runFrom 4).2 = 6 := by decide +kernel
  have hok : ((parse source).runFrom 4).1 = .ok t := by
    cases h : ((parse source).runFrom 4).1 with
    | error e => simp [h, Except.toOption] at hresult
    | ok t' => simpa [h, Except.toOption] using hresult
  have hparse : (parse source).runFrom 4 = (.ok t, 6) := Prod.ext hok hlast
  exact ⟨hparse, (parse_ok_iff_denotes source 4).2 t 6 hparse⟩

end Ty

end TypedScheme
