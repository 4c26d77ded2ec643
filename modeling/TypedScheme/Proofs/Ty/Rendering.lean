import TypedScheme.Proofs.Ty.Denotation

/-!
# The concrete form of a type

What the concrete form of a type is read as. It is the type itself up to the names of its variables,
with one exception: a procedure type without parameters and one whose only parameter has the type
`Empty` are both written with the word `Empty` in front of the arrow, and the word is read as no
parameters. So `Ty.asRead` forgets such a parameter, and two types have the same concrete form exactly
if this makes them equal.

## What this module delivers

- `Ty.asRead`, the type that the concrete form of a type stands for.
- `Ty.denotes_asRead`: the datum of a type denotes it.
- `Ty.exists_parse_render`: the concrete form is read as that type, up to the names of variables.
- `Ty.render_eq_render_iff`: which types have the same concrete form.
- `Ty.Spelled.asRead_eq` and `Ty.exists_parse_iff`: a type can be written at all exactly if it is the
  one that its concrete form stands for.
-/

set_option autoImplicit false

namespace TypedScheme

open Datum Parse

namespace Ty

/-! ## The type that is read -/

mutual

/-- A type without the only parameters of its procedure types that have the type `Empty`. -/
def asRead : Ty → Ty
  | absent => absent
  | base b => base b
  | var x => var x
  | pair a d => pair (asRead a) (asRead d)
  | proc ps r => proc (if ps = [base .empty] then [] else asReadAll ps) (asRead r)

/-- The same for types in a row. -/
def asReadAll : List Ty → List Ty
  | [] => []
  | t :: ts => asRead t :: asReadAll ts

end

theorem asReadAll_eq_map (ts : List Ty) : asReadAll ts = ts.map asRead := by
  induction ts with
  | nil => rfl
  | cons t ts ih => rw [asReadAll, ih, List.map_cons]

theorem asRead_proc (ps : List Ty) (r : Ty) :
    (proc ps r).asRead = proc (if ps = [base .empty] then [] else ps.map asRead) r.asRead := by
  rw [asRead, asReadAll_eq_map]

theorem asRead_thunk (r : Ty) : (proc [base .empty] r).asRead = proc [] r.asRead := by
  rw [asRead_proc, if_pos rfl]

theorem asRead_proc_of_ne {ps : List Ty} (h : ps ≠ [base .empty]) (r : Ty) :
    (proc ps r).asRead = proc (ps.map asRead) r.asRead := by
  rw [asRead_proc, if_neg h]

/-- What a type loses when it is read back has no variables. -/
theorem vars_asRead (t : Ty) : t.asRead.vars = t.vars := by
  induction t with
  | absent | base | var => rfl
  | pair a d iha ihd => rw [asRead, vars, vars, iha, ihd]
  | proc ps r ihps ihr =>
    by_cases hps : ps = [base .empty]
    · rw [hps, asRead_thunk, vars, vars, ihr]
      rfl
    · have hvars := varsAll_map (ρ := id) fun t ht => by rw [ihps t ht, List.map_id]
      rw [asRead_proc_of_ne hps, vars, vars, ihr, hvars, List.map_id]

theorem isWhole_asRead {t : Ty} (h : t.isWhole = true) : t.asRead.isWhole = true := by
  induction t with
  | absent => cases h
  | base | var => rfl
  | pair a d iha ihd =>
    obtain ⟨ha, hd⟩ := isWhole_pair.1 h
    exact isWhole_pair.2 ⟨iha ha, ihd hd⟩
  | proc ps r ihps ihr =>
    obtain ⟨hps, hr⟩ := isWhole_proc.1 h
    by_cases hempty : ps = [base .empty]
    · rw [hempty, asRead_thunk]
      exact isWhole_proc.2 ⟨nofun, ihr hr⟩
    · rw [asRead_proc_of_ne hempty]
      refine isWhole_proc.2 ⟨?_, ihr hr⟩
      intro t ht
      obtain ⟨p, hp, rfl⟩ := List.mem_map.1 ht
      exact ihps p hp (hps p hp)

/-- What a type is read back as is renamed with it. -/
theorem asRead_rename (ρ : Nat → Nat) (t : Ty) : (t.rename ρ).asRead = t.asRead.rename ρ := by
  induction t with
  | absent | base | var => rfl
  | pair a d iha ihd => rw [rename_pair, asRead, iha, ihd, asRead, rename_pair]
  | proc ps r ihps ihr =>
    by_cases hps : ps = [base .empty]
    · rw [hps, asRead_thunk, rename_proc, rename_proc, ← ihr]
      exact asRead_thunk _
    · -- A renamed parameter is the type `Empty` only if it was before.
      have hps' : ps.map (rename ρ) ≠ [base .empty] := by
        intro h
        obtain ⟨t, rfl, ht⟩ := List.map_eq_singleton_iff.1 h
        cases t with
        | base b =>
          rw [rename_base] at ht
          exact hps (by rw [ht])
        | absent | var | pair | proc => cases ht
      rw [rename_proc, asRead_proc_of_ne hps', asRead_proc_of_ne hps, rename_proc, ihr, List.map_map,
        List.map_map]
      congr 1
      exact List.map_congr_left ihps

/-! ## The same concrete form -/

theorem starredData_map {f : Ty → Ty} {ts : List Ty} (h : ∀ t ∈ ts, (f t).datum = t.datum) :
    starredData (ts.map f) = starredData ts := by
  induction ts with
  | nil => rfl
  | cons t ts ih =>
    obtain ⟨ht, hts⟩ := List.forall_mem_cons.1 h
    rw [List.map_cons, starredData, starredData, ht, ih hts]

/-- The parameter that is forgotten is not seen in the datum of a type. -/
theorem datum_asRead (t : Ty) : t.asRead.datum = t.datum := by
  induction t with
  | absent | base | var => rfl
  | pair a d iha ihd => rw [asRead, datum, datum, iha, ihd]
  | proc ps r ihps ihr =>
    by_cases hps : ps = [base .empty]
    · rw [hps, asRead_thunk, datum, datum, ihr]
      rfl
    · rw [asRead_proc_of_ne hps, datum, datum, ihr]
      cases ps with
      | nil => rfl
      | cons p ps =>
        obtain ⟨hp, hps⟩ := List.forall_mem_cons.1 ihps
        rw [List.map_cons, paramData, paramData, hp, starredData_map hps]

/-- A type and what it is read back as are shown alike. -/
theorem render_asRead {t : Ty} (h : t.isWhole = true) : t.asRead.render = t.render := by
  apply String.toList_inj.1
  rw [← write_datum (isWhole_asRead h), ← write_datum h, datum_asRead]

/-! ## Reading the concrete form -/

/-- The concrete form of a whole type is the text of one datum. -/
theorem exists_readAll_render {t : Ty} (h : t.isWhole = true) :
    ∃ d, readAll t.render = .ok [d] ∧ Matches t.datum d := by
  obtain ⟨hreads, hmatches⟩ := readAll_write (written_datum h) (write_datum h).symm
  obtain ⟨F, hF⟩ := hreads.2 (each_isPlain_datum t)
  obtain ⟨d, rfl, hd⟩ := hmatches F hF
  exact ⟨d, hF, hd⟩

/-- Only the type `Empty` is written as its name. -/
theorem eq_empty_of_matches {t : Ty} {d : Datum} (hmatch : Matches t.datum d)
    (h : d.isSymbol "Empty") : t = base .empty := by
  have hname {name : String} (hword : Matches (word name) d) : name = "Empty" := by
    obtain ⟨token, rfl, -, rfl⟩ := matches_word hword
    simp only [isSymbol, Token.isSymbol, Bool.and_eq_true, decide_eq_true_eq] at h
    exact h.2
  cases t with
  | absent => exact absurd (hname hmatch) (by decide)
  | base b =>
    have hb := hname hmatch
    cases b with
    | empty => rfl
    | number | boolean | string | void | literal => exact absurd hb (by decide)
  | var x => exact absurd (head_of_eq_varName (hname hmatch)) (by decide)
  | pair | proc =>
    obtain ⟨_, _, _, rfl, -⟩ := matches_listOf hmatch
    cases h

/-- Data of types with stars between them denote the types. -/
theorem denoteParams_of_forall₂ {names : List (String × Nat)} {f : Ty → Ty} {p : Ty} {ps : List Ty}
    {d : Datum} {ds : List Datum} (hd : Denotes names d (f p))
    (hds : List.Forall₂ Matches (starredData ps) ds)
    (h : ∀ q ∈ ps, ∀ e, Matches q.datum e → Denotes names e (f q)) :
    DenoteParams names (d :: ds) (f p :: ps.map f) := by
  induction ps generalizing p d ds with
  | nil =>
    cases hds
    exact .one hd
  | cons q ps ih =>
    obtain ⟨hq, hps⟩ := List.forall_mem_cons.1 h
    obtain _ | ⟨hstar, _ | ⟨hmatch, hds⟩⟩ := hds
    exact .cons hd (isSymbol_of_matches hstar) (ih (hq _ hmatch) hds hps)

/-- Written parameters in front of an arrow and a result denote the procedure type that is read. -/
theorem denotes_asRead_proc {names : List (String × Nat)} {ρ : Nat → Nat} {ps : List Ty} {r : Ty}
    {left right : Token} {ds : List Datum} {arrow d : Datum}
    (hds : List.Forall₂ Matches (paramData ps) ds)
    (hps : ∀ p ∈ ps, ∀ e, Matches p.datum e → Denotes names e (p.asRead.rename ρ))
    (harrow : arrow.isSymbol "->") (hd : Denotes names d (r.asRead.rename ρ)) :
    Denotes names (.list left (ds ++ [arrow, d]) right) ((proc ps r).asRead.rename ρ) := by
  -- Both ways to have no parameters to read are written as one word.
  have hword (h : paramData ps = [word "Empty"]) (h' : (proc ps r).asRead = proc [] r.asRead) :
      Denotes names (.list left (ds ++ [arrow, d]) right) ((proc ps r).asRead.rename ρ) := by
    rw [h] at hds
    obtain _ | ⟨hempty, _ | _⟩ := hds
    rw [h', rename_proc]
    exact .empty (isSymbol_of_matches hempty) harrow hd
  cases ps with
  | nil => exact hword rfl rfl
  | cons p ps =>
    by_cases hempty : p :: ps = [base .empty]
    · apply hword
      · rw [hempty]
        rfl
      · rw [hempty, asRead_thunk]
    · obtain _ | ⟨hp, hrest⟩ := hds
      obtain ⟨hfirst, hothers⟩ := List.forall_mem_cons.1 hps
      have hparams :=
        denoteParams_of_forall₂ (f := fun q => q.asRead.rename ρ) (hfirst _ hp) hrest hothers
      rw [asRead_proc_of_ne hempty, rename_proc, List.map_map]
      refine .proc ?_ hparams harrow hd
      -- A single parameter is not read as the word, since it is not the type of that name.
      intro e he hsymbol
      obtain ⟨rfl, rfl⟩ := List.cons.inj he
      cases ps with
      | nil => exact hempty (by rw [eq_empty_of_matches hp hsymbol])
      | cons q ps => cases hrest

/-- The datum of a type denotes the type that is read, by every table that has its variables. -/
theorem denotes_asRead {names : List (String × Nat)} {ρ : Nat → Nat} {t : Ty} {d : Datum}
    (ht : t.isWhole = true) (hnames : ∀ x ∈ t.vars, names.lookup (varName x) = some (ρ x))
    (hmatch : Matches t.datum d) : Denotes names d (t.asRead.rename ρ) := by
  induction t generalizing d with
  | absent => cases ht
  | base b =>
    obtain ⟨token, rfl, hkind, htext⟩ := matches_word hmatch
    exact .base hkind (by rw [htext, ofName?_name])
  | var x =>
    obtain ⟨token, rfl, hkind, htext⟩ := matches_word hmatch
    -- No base type and no reserved word has the name of a variable.
    have hx := hnames x List.mem_cons_self
    have hbase := ofName?_varName x
    have hreserved := varName_notMem_reservedNames x
    rw [← htext] at hx hbase hreserved
    exact .var hkind hbase hreserved hx
  | pair a b iha ihb =>
    obtain ⟨ha, hb⟩ := isWhole_pair.1 ht
    obtain ⟨left, _, right, rfl, hds⟩ := matches_listOf hmatch
    obtain _ | ⟨hpair, _ | ⟨hcar, _ | ⟨hcdr, _ | _⟩⟩⟩ := hds
    refine .pair (isSymbol_of_matches hpair) (iha ha ?_ hcar) (ihb hb ?_ hcdr)
    · exact fun x hx => hnames x (List.mem_append_left _ hx)
    · exact fun x hx => hnames x (List.mem_append_right _ hx)
  | proc ps r ihps ihr =>
    obtain ⟨hps, hr⟩ := isWhole_proc.1 ht
    obtain ⟨left, _, right, rfl, hds⟩ := matches_listOf hmatch
    obtain ⟨us, _, rfl, hus, hvs⟩ := exists_append_of_forall₂ hds
    obtain _ | ⟨harrow, _ | ⟨hresult, _ | _⟩⟩ := hvs
    refine denotes_asRead_proc hus ?_ (isSymbol_of_matches harrow) (ihr hr ?_ hresult)
    · intro p hp e he
      refine ihps p hp (hps p hp) ?_ he
      exact fun x hx => hnames x (List.mem_append_left _ (mem_varsAll.2 ⟨p, hp, hx⟩))
    · exact fun x hx => hnames x (List.mem_append_right _ hx)

/-- The table in which every variable has the name that it is written as. -/
def nameTable (xs : List Nat) : List (String × Nat) := xs.map fun x => (varName x, x)

/-- The name of a variable is found in the table of names. -/
theorem lookup_nameTable {xs : List Nat} {x : Nat} (hx : x ∈ xs) :
    (nameTable xs).lookup (varName x) = some x := by
  induction xs with
  | nil => cases hx
  | cons y xs ih =>
    rw [nameTable, List.map_cons, List.lookup_cons]
    by_cases hxy : x = y
    · simp [hxy]
    · have hne : varName x ≠ varName y := fun h => hxy (varName_injective h)
      rw [beq_eq_false_iff_ne.2 hne]
      exact ih (List.mem_of_ne_of_mem hxy hx)

theorem eq_varName_of_lookup {xs : List Nat} {name : String} {x : Nat}
    (h : (nameTable xs).lookup name = some x) : name = varName x := by
  obtain ⟨before, after, heq, -⟩ := List.lookup_eq_some_iff.1 h
  have hmem : (name, x) ∈ nameTable xs := by simp [heq]
  obtain ⟨y, -, hy⟩ := List.mem_map.1 hmem
  obtain ⟨rfl, rfl⟩ := Prod.mk.inj hy
  rfl

/-- By the names of its own variables, the datum of a type denotes the type that is read. -/
theorem denotes_nameTable {xs : List Nat} {t : Ty} {d : Datum} (ht : t.isWhole = true)
    (hxs : ∀ x ∈ t.vars, x ∈ xs) (hmatch : Matches t.datum d) :
    Denotes (nameTable xs) d t.asRead := by
  have h := denotes_asRead (ρ := id) ht (fun x hx => lookup_nameTable (hxs x hx)) hmatch
  rwa [rename_id] at h

/-- The concrete form of a whole type is read after any number, as the type up to the names of its
variables and up to a forgotten parameter. -/
theorem exists_parse_render {t : Ty} (ht : t.isWhole = true) (k : Nat) :
    ∃ t' k', (parse t.render).runFrom k = (.ok t', k') ∧
      ∃ ρ : Nat → Nat, Set.InjOn ρ {x | x ∈ t.asRead.vars} ∧ t' = t.asRead.rename ρ := by
  obtain ⟨d, hd, hmatch⟩ := exists_readAll_render ht
  have hdenotes := denotes_nameTable ht (fun x hx => hx) hmatch
  have hspelled := Denotes.spelled (n := ⟨0, nameTable t.vars⟩) hdenotes
  obtain ⟨t', n', hspelled⟩ := hspelled.exists_after ⟨k, []⟩
  refine ⟨t', n'.last, parse_eq_ok_iff.2 ⟨d, n'.names, hd, hspelled⟩, ?_⟩
  have hfaithful := hspelled.extends.faithful (Numbering.faithful_start k)
  have hdenotes' : Denotes n'.names d t' := hspelled.denotes .refl
  -- The name of every variable stands in the datum, and so the reader has given it a number.
  have hnamed : ∀ x ∈ t.vars, ∃ y, n'.names.lookup (varName x) = some y := by
    intro x hx
    rw [← vars_asRead] at hx
    have hmem : some x ∈ d.typeNames.map ((nameTable t.vars).lookup ·) := by
      rw [hdenotes.map_lookup]
      exact List.mem_map_of_mem hx
    obtain ⟨name, hname, hlookup⟩ := List.mem_map.1 hmem
    have hmem' : n'.names.lookup name ∈ t'.vars.map some := by
      rw [← hdenotes'.map_lookup]
      exact List.mem_map_of_mem hname
    obtain ⟨y, -, hy⟩ := List.mem_map.1 hmem'
    rw [← eq_varName_of_lookup hlookup]
    exact ⟨y, hy.symm⟩
  choose! ρ hρ using hnamed
  refine ⟨ρ, ?_, (denotes_asRead ht hρ hmatch).unique hdenotes'⟩
  intro x hx y hy hxy
  rw [Set.mem_ofPred_eq, vars_asRead] at hx hy
  have hy' := hρ y hy
  rw [← hxy] at hy'
  exact varName_injective (hfaithful.distinct _ _ _ (hρ x hx) hy')

/-- Two types have the same concrete form exactly if they are the same but for forgotten parameters. -/
theorem render_eq_render_iff {t u : Ty} (ht : t.isWhole = true) (hu : u.isWhole = true) :
    t.render = u.render ↔ t.asRead = u.asRead := by
  constructor
  · intro h
    -- The one datum of the text denotes both types by a table with the variables of both.
    obtain ⟨d, hd, hmatch⟩ := exists_readAll_render ht
    obtain ⟨d', hd', hmatch'⟩ := exists_readAll_render hu
    rw [h, hd'] at hd
    obtain rfl : d' = d := by simpa using hd
    have hdenotes : Denotes (nameTable (t.vars ++ u.vars)) d' t.asRead :=
      denotes_nameTable ht (fun x hx => List.mem_append_left _ hx) hmatch
    have hdenotes' : Denotes (nameTable (t.vars ++ u.vars)) d' u.asRead :=
      denotes_nameTable hu (fun x hx => List.mem_append_right _ hx) hmatch'
    exact hdenotes'.unique hdenotes
  · intro h
    rw [← render_asRead ht, h, render_asRead hu]

/-! ## Types that can be written -/

mutual

/-- No type expression stands for a procedure type whose only parameter has the type `Empty`. -/
theorem Spelled.asRead_eq {n n' : Numbering} {d : Datum} {t : Ty} : Spelled n d t n' → t.asRead = t
  | .base _ _ | .var _ _ _ => rfl
  | .pair _ ha hd => by rw [asRead, ha.asRead_eq, hd.asRead_eq]
  | .proc _ hd hparams => by
    obtain ⟨hne, hmap⟩ := hparams.asRead_eq
    rw [asRead_proc_of_ne hne, hmap, hd.asRead_eq]

theorem Params.asRead_eq {n n' : Numbering} {ds : List Datum} {ts : List Ty} :
    Params n ds ts n' → ts ≠ [base .empty] ∧ ts.map asRead = ts
  | .nil | .empty _ => ⟨nofun, rfl⟩
  | .cons hempty ht hts => by
    refine ⟨?_, by rw [List.map_cons, ht.asRead_eq, hts.asRead_eq]⟩
    intro h
    obtain ⟨rfl, rfl⟩ := List.cons.inj h
    cases hts
    cases ht with
    | @base _ token _ hkind hbase =>
      have htext : Base.empty.name = token.text := by simpa using List.find?_some hbase
      apply hempty rfl
      rw [isSymbol, Token.isSymbol, hkind, ← htext]
      rfl

theorem Starred.asRead_eq {n n' : Numbering} {ds : List Datum} {ts : List Ty} :
    Starred n ds ts n' → ts.map asRead = ts
  | .nil => rfl
  | .cons _ ht hts => by rw [List.map_cons, ht.asRead_eq, hts.asRead_eq]

end

/-- A renaming that keeps the variables of two types apart keeps the types apart. -/
theorem eq_of_rename_eq {t u : Ty} {ρ : Nat → Nat} (hvars : u.vars = t.vars)
    (hρ : Set.InjOn ρ {x | x ∈ t.vars}) (h : u.rename ρ = t.rename ρ) : u = t := by
  have hback : ∀ v : Ty, v.vars = t.vars →
      (v.rename ρ).rename (Function.invFunOn ρ {x | x ∈ t.vars}) = v := by
    intro v hv
    rw [rename, rename, bind_bind]
    refine (bind_congr fun x hx => ?_).trans (bind_var v)
    rw [hv] at hx
    exact congrArg var (hρ.leftInvOn_invFunOn hx)
  rw [← hback u hvars, h, hback t rfl]

/-- A whole type is spelled by some text, up to the names of its variables, exactly if it is the one
that its concrete form stands for. -/
theorem exists_parse_iff {t : Ty} (ht : t.isWhole = true) :
    (∃ source k t' k', (parse source).runFrom k = (.ok t', k') ∧
      ∃ ρ : Nat → Nat, Set.InjOn ρ {x | x ∈ t.vars} ∧ t' = t.rename ρ) ↔ t.asRead = t := by
  constructor
  · rintro ⟨source, k, _, k', hparse, ρ, hρ, rfl⟩
    obtain ⟨d, names, -, hspelled⟩ := parse_eq_ok_iff.1 hparse
    have hread := hspelled.asRead_eq
    rw [asRead_rename] at hread
    exact eq_of_rename_eq (vars_asRead t) hρ hread
  · intro h
    obtain ⟨t', k', hparse, hvariant⟩ := exists_parse_render ht 0
    rw [h] at hvariant
    exact ⟨t.render, 0, t', k', hparse, hvariant⟩

end Ty

end TypedScheme
