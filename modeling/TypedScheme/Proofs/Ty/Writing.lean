import TypedScheme.Proofs.Datum.Writing
import TypedScheme.Proofs.Ty.Grammar
import TypedScheme.Proofs.Ty.Renaming

/-!
# Writing types

A type is written as a type expression that names each variable after its number. When the text is read
again, variables are met in the same order as before, so each of them gets a number that is as far from
the first new one as its old number was.

## What this module delivers

- `Ty.datum`, the datum that a type is written as, with `Ty.write_datum`: its text is the concrete form
  of the type.
- `Numbering.Within k n` and `Ty.Spelled.within`: reading gives out the numbers after `k` one by one.
- `Numbering.Shifts ρ k`: the renaming `ρ` keeps the distance of numbers from `k` on, as
  `Numbering.move` does.
- `Ty.Spelled.reread`: the datum of a type is read as the renamed type.
-/

set_option autoImplicit false

namespace TypedScheme

open Datum Lexeme

namespace Ty

/-! ## The datum of a type -/

/-- The name that a variable is written as. -/
def varName (x : Nat) : String := s!"T_{x}"

mutual

/-- The datum that a type is written as. -/
def datum : Ty → Datum
  | absent => word "%!s(<nil>)"
  | base b => word b.name
  | var x => word (varName x)
  | pair a d => listOf [word "Pair", datum a, datum d]
  | proc ps r => listOf (paramData ps ++ [word "->", datum r])

/-- The data in front of an arrow. -/
def paramData : List Ty → List Datum
  | [] => [word "Empty"]
  | t :: ts => datum t :: starredData ts

/-- The data of types, each behind a star. -/
def starredData : List Ty → List Datum
  | [] => []
  | t :: ts => word "*" :: datum t :: starredData ts

end

/-- Behind the first parameter there are stars and parameters. -/
theorem mem_starredData {ts : List Ty} {d : Datum} (h : d ∈ starredData ts) :
    d = word "*" ∨ ∃ t ∈ ts, d = t.datum := by
  induction ts with
  | nil => cases h
  | cons t ts ih =>
    simp only [starredData, List.mem_cons] at h
    rcases h with rfl | rfl | h
    · exact .inl rfl
    · exact .inr ⟨t, List.mem_cons_self, rfl⟩
    · exact (ih h).imp_right fun ⟨u, hu, hd⟩ => ⟨u, List.mem_cons_of_mem _ hu, hd⟩

/-- The data of parameters are the word for none, stars, and the data of the types. -/
theorem mem_paramData {ts : List Ty} {d : Datum} (h : d ∈ paramData ts) :
    d = word "Empty" ∨ d = word "*" ∨ ∃ t ∈ ts, d = t.datum := by
  cases ts with
  | nil => exact .inl (List.mem_singleton.1 h)
  | cons t ts =>
    rw [paramData, List.mem_cons] at h
    rcases h with rfl | h
    · exact .inr (.inr ⟨t, List.mem_cons_self, rfl⟩)
    · exact .inr ((mem_starredData h).imp_right fun ⟨u, hu, hd⟩ => ⟨u, List.mem_cons_of_mem _ hu, hd⟩)

/-! ## Text -/

theorem areWritable_iff {ts : List Ty} : areWritable ts = true ↔ ∀ t ∈ ts, t.isWritable = true := by
  induction ts with
  | nil => simp [areWritable]
  | cons t ts ih => simp [areWritable, ih]

theorem isWritable_of_isWhole {t : Ty} (h : t.isWhole = true) : t.isWritable = true := by
  induction t with
  | absent => cases h
  | base | var | pair => rfl
  | proc ps r ihps _ =>
    obtain ⟨hps, -⟩ := isWhole_proc.1 h
    exact areWritable_iff.2 fun p hp => ihps p hp (hps p hp)

/-- The data behind the first parameter are written as those types are. -/
theorem writeRest_starredData {ts : List Ty} (h : ∀ t ∈ ts, t.datum.write = t.render.toList) :
    writeRest (starredData ts) = (renderRest ts).toList := by
  induction ts with
  | nil => rfl
  | cons t ts ih =>
    obtain ⟨ht, hts⟩ := List.forall_mem_cons.1 h
    simp [starredData, writeRest, renderRest, ht, ih hts]

/-- The text of a type is its concrete form. -/
theorem write_datum {t : Ty} (h : t.isWhole = true) : t.datum.write = t.render.toList := by
  induction t with
  | absent => cases h
  | base b => simp [datum, render]
  | var x => simp [datum, render, varName]
  | pair a d iha ihd =>
    obtain ⟨ha, hd⟩ := isWhole_pair.1 h
    simp [datum, render, writeAll, writeRest, iha ha, ihd hd]
  | proc ps r ihps ihr =>
    obtain ⟨hps, hr⟩ := isWhole_proc.1 h
    cases ps with
    | nil => simp [datum, paramData, render, writeAll, writeRest, ihr hr]
    | cons p ps =>
      have hwritable : areWritable (p :: ps) = true :=
        areWritable_iff.2 fun t ht => isWritable_of_isWhole (hps t ht)
      rw [areWritable] at hwritable
      obtain ⟨hp, hps⟩ := List.forall_mem_cons.1 hps
      obtain ⟨ihp, ihps⟩ := List.forall_mem_cons.1 ihps
      have hrest := writeRest_starredData fun t ht => ihps t ht (hps t ht)
      rw [render, if_pos hwritable]
      simp [datum, paramData, writeAll, writeRest, writeRest_append, ihp hp, ihr hr, hrest]

/-! ## Tokens -/

/-- The name of a variable is a letter, an underscore and its number. -/
theorem toList_varName (x : Nat) : (varName x).toList = 'T' :: '_' :: Nat.toDigits 10 x := by
  simp [varName, toString, Nat.repr]

/-- Variables with different numbers have different names. -/
theorem varName_injective : Function.Injective varName := by
  intro x y h
  have hlist := congrArg String.toList h
  rw [toList_varName, toList_varName] at hlist
  have hdigits : Nat.toDigits 10 x = Nat.toDigits 10 y := by simpa using hlist
  rw [← Numeral.value_toDigits x, hdigits, Numeral.value_toDigits]

/-- The name of a variable is the text of a symbol. -/
theorem isSymbolText_varName (x : Nat) : IsSymbolText (varName x).toList := by
  have hdigit : ∀ n < 10, continuesSymbol (Char.ofNat (48 + n)) = true := by decide
  rw [toList_varName]
  refine ⟨'T', _, rfl, ⟨by decide, by decide, by decide, by decide, by decide, by decide, rfl⟩,
    List.forall_mem_cons.2 ⟨by decide, fun c hc => ?_⟩⟩
  obtain ⟨hfirst, hlast⟩ := Numeral.isDigit_iff.1 (Numeral.digits_toDigits x c hc)
  have h := hdigit (c.toNat - 48) (by omega)
  rwa [Nat.add_sub_cancel' hfirst, Char.ofNat_toNat] at h

/-- A whole type stands for something written. -/
theorem written_datum {t : Ty} (h : t.isWhole = true) : t.datum.Written := by
  have hword {name : String} (h : isWord name = true) : (word name).Written :=
    written_word (isSymbolText_of_isWord h)
  induction t with
  | absent => cases h
  | base b => exact hword (by cases b <;> decide +kernel)
  | var x => exact written_word (isSymbolText_varName x)
  | pair a d iha ihd =>
    obtain ⟨ha, hd⟩ := isWhole_pair.1 h
    refine written_list ?_
    simp only [List.forall_mem_cons]
    exact ⟨hword (by decide +kernel), iha ha, ihd hd, by simp⟩
  | proc ps r ihps ihr =>
    obtain ⟨hps, hr⟩ := isWhole_proc.1 h
    refine written_list (List.forall_mem_append.2 ⟨fun d hd => ?_, ?_⟩)
    · rcases mem_paramData hd with rfl | rfl | ⟨p, hp, rfl⟩
      · exact hword (by decide +kernel)
      · exact hword (by decide +kernel)
      · exact ihps p hp (hps p hp)
    · simp only [List.forall_mem_cons]
      exact ⟨hword (by decide +kernel), ihr hr, by simp⟩

@[simp] theorem each_isPlain_datum (t : Ty) : t.datum.Each Token.IsPlain := by
  induction t with
  | absent | base | var => exact each_isPlain_word _
  | pair a d iha ihd => simp [datum, iha, ihd]
  | proc ps r ihps ihr =>
    refine each_isPlain_listOf.2 (List.forall_mem_append.2 ⟨fun d hd => ?_, by simp [ihr]⟩)
    rcases mem_paramData hd with rfl | rfl | ⟨p, hp, rfl⟩
    · exact each_isPlain_word _
    · exact each_isPlain_word _
    · exact ihps p hp

end Ty

/-! ## The numbers of a reading -/

namespace Numbering

/-- The names of a numbering stand for numbers after `k` that have been given out. -/
def Within (k : Nat) (n : Numbering) : Prop :=
  k ≤ n.last ∧ ∀ p ∈ n.names, k < p.2 ∧ p.2 ≤ n.last

/-- A numbering without names has none that stands for an earlier number. -/
theorem within_start (k : Nat) : Within k ⟨k, []⟩ := ⟨Nat.le_refl k, by simp⟩

/-- The number of a name is above the bound, whether it is new or not. -/
theorem Within.assign {k : Nat} {n : Numbering} (h : n.Within k) (name : String) :
    (n.assign name).2.Within k ∧ n.last ≤ (n.assign name).2.last ∧ k < (n.assign name).1 := by
  obtain ⟨hlast, hnames⟩ := h
  unfold Numbering.assign
  cases hlookup : n.names.lookup name with
  | some id =>
    obtain ⟨before, after, heq, -⟩ := List.lookup_eq_some_iff.1 hlookup
    have hid := hnames (name, id) (by simp [heq])
    exact ⟨⟨hlast, hnames⟩, Nat.le_refl _, hid.1⟩
  | none =>
    refine ⟨⟨Nat.le_succ_of_le hlast, List.forall_mem_cons.2 ⟨⟨?_, Nat.le_refl _⟩, ?_⟩⟩,
      Nat.le_succ _, Nat.lt_succ_of_le hlast⟩
    · exact Nat.lt_succ_of_le hlast
    · exact fun p hp => ⟨(hnames p hp).1, Nat.le_succ_of_le (hnames p hp).2⟩

/-- A renaming that keeps the distance of numbers from `k` on. -/
def Shifts (ρ : Nat → Nat) (k : Nat) : Prop := ∀ x, k ≤ x → ρ (x + 1) = ρ x + 1

/-- A renaming that shifts the numbers above a bound shifts those above a higher one. -/
theorem Shifts.mono {ρ : Nat → Nat} {k k' : Nat} (h : Shifts ρ k) (hk : k ≤ k') : Shifts ρ k' :=
  fun x hx => h x (Nat.le_trans hk hx)

/-- The renaming that moves the numbers after `last` to those after `k`. -/
def move (last k x : Nat) : Nat := x - last + k

theorem move_last (last k : Nat) : move last k last = k := by
  rw [move, Nat.sub_self, Nat.zero_add]

/-- Moving the numbers above `last` to those above `k` shifts them. -/
theorem shifts_move (last k : Nat) : Shifts (move last k) last := by
  intro x hx
  rw [move, move, Nat.sub_add_comm hx]
  omega

/-- Moving the numbers above `last` keeps them apart. -/
theorem injOn_move (last k : Nat) : Set.InjOn (move last k) (Set.Ioi last) := by
  intro x hx y hy h
  have hx : last < x := hx
  have hy : last < y := hy
  unfold move at h
  omega

/-- The numbering after reading, under a renaming, the written names of all variables so far. -/
def respell (ρ : Nat → Nat) (n : Numbering) : Numbering :=
  ⟨ρ n.last, n.names.map fun p => (Ty.varName p.2, ρ p.2)⟩

/-- The name of a variable is found if the variable is in the table, with its new number. -/
theorem lookup_varName (ρ : Nat → Nat) (names : List (String × Nat)) (x : Nat) :
    (names.map fun p => (Ty.varName p.2, ρ p.2)).lookup (Ty.varName x) =
      if x ∈ names.map (·.2) then some (ρ x) else none := by
  induction names with
  | nil => rfl
  | cons p names ih =>
    rw [List.map_cons, List.lookup_cons, List.map_cons, ih]
    by_cases hx : x = p.2
    · simp [hx]
    · have hname : Ty.varName x ≠ Ty.varName p.2 := fun h => hx (Ty.varName_injective h)
      simp only [beq_eq_false_iff_ne.2 hname, List.mem_cons, hx, false_or]

/-- The written name of a variable gets the number that the variable is renamed to. -/
theorem Within.assign_varName {ρ : Nat → Nat} {k : Nat} {n : Numbering} (h : n.Within k)
    (hρ : Shifts ρ k) (name : String) :
    (n.respell ρ).assign (Ty.varName (n.assign name).1) =
      (ρ (n.assign name).1, (n.assign name).2.respell ρ) := by
  obtain ⟨hlast, hnames⟩ := h
  unfold Numbering.assign
  cases hlookup : n.names.lookup name with
  | some id =>
    obtain ⟨before, after, heq, -⟩ := List.lookup_eq_some_iff.1 hlookup
    have hid : id ∈ n.names.map (·.2) := by simp [heq]
    simp only [respell, lookup_varName, if_pos hid]
  | none =>
    have hnew : n.last + 1 ∉ n.names.map (·.2) := by
      intro hmem
      obtain ⟨p, hp, hpx⟩ := List.mem_map.1 hmem
      have := (hnames p hp).2
      omega
    simp only [respell, lookup_varName, if_neg hnew, hρ n.last hlast, List.map_cons]

end Numbering

namespace Ty

mutual

/-- Reading a type gives out the numbers after `k` one by one. -/
theorem Spelled.within {k : Nat} {n n' : Numbering} {d : Datum} {t : Ty} (hn : n.Within k) :
    Spelled n d t n' → n'.Within k ∧ n.last ≤ n'.last ∧ t.Over (Set.Ioi k)
  | .base _ _ => ⟨hn, Nat.le_refl _, over_base _⟩
  | .var _ _ _ => by
    obtain ⟨hn', hle, hid⟩ := hn.assign _
    exact ⟨hn', hle, over_var.2 hid⟩
  | .pair _ ha hd => by
    obtain ⟨hn₁, hle₁, hover₁⟩ := ha.within hn
    obtain ⟨hn₂, hle₂, hover₂⟩ := hd.within hn₁
    exact ⟨hn₂, Nat.le_trans hle₁ hle₂, over_pair.2 ⟨hover₁, hover₂⟩⟩
  | .proc _ hd hparams => by
    obtain ⟨hn₁, hle₁, hover₁⟩ := hd.within hn
    obtain ⟨hn₂, hle₂, hover₂⟩ := hparams.within hn₁
    exact ⟨hn₂, Nat.le_trans hle₁ hle₂, over_proc.2 ⟨hover₂, hover₁⟩⟩

theorem Params.within {k : Nat} {n n' : Numbering} {ds : List Datum} {ts : List Ty}
    (hn : n.Within k) :
    Params n ds ts n' → n'.Within k ∧ n.last ≤ n'.last ∧ ∀ t ∈ ts, t.Over (Set.Ioi k)
  | .nil | .empty _ => ⟨hn, Nat.le_refl _, by simp⟩
  | .cons _ ht hts => by
    obtain ⟨hn₁, hle₁, hover₁⟩ := ht.within hn
    obtain ⟨hn₂, hle₂, hover₂⟩ := hts.within hn₁
    exact ⟨hn₂, Nat.le_trans hle₁ hle₂, List.forall_mem_cons.2 ⟨hover₁, hover₂⟩⟩

theorem Starred.within {k : Nat} {n n' : Numbering} {ds : List Datum} {ts : List Ty}
    (hn : n.Within k) :
    Starred n ds ts n' → n'.Within k ∧ n.last ≤ n'.last ∧ ∀ t ∈ ts, t.Over (Set.Ioi k)
  | .nil => ⟨hn, Nat.le_refl _, by simp⟩
  | .cons _ ht hts => by
    obtain ⟨hn₁, hle₁, hover₁⟩ := ht.within hn
    obtain ⟨hn₂, hle₂, hover₂⟩ := hts.within hn₁
    exact ⟨hn₂, Nat.le_trans hle₁ hle₂, List.forall_mem_cons.2 ⟨hover₁, hover₂⟩⟩

end

/-! ## Reading a written type -/

/-- The name of a base type is read as this base type. -/
theorem ofName?_name (b : Base) : Base.ofName? b.name = some b := by cases b <;> decide

theorem head_of_eq_varName {name : String} {x : Nat} (h : varName x = name) :
    name.toList.head? = some 'T' := by
  rw [← h, toList_varName]
  rfl

/-- The name of a variable is no name of a base type. -/
theorem ofName?_varName (x : Nat) : Base.ofName? (varName x) = none := by
  rw [Base.ofName?, List.find?_eq_none]
  intro b _ hb
  have hhead := head_of_eq_varName (of_decide_eq_true hb).symm
  cases b <;> exact absurd hhead (by decide)

/-- The name of a variable is not reserved. -/
theorem varName_notMem_reservedNames (x : Nat) : varName x ∉ reservedNames := by
  have hall : ∀ name ∈ reservedNames, name.toList.head? ≠ some 'T' := by decide
  exact fun h => hall _ h (head_of_eq_varName rfl)

/-- Only the type of that name is written as the name `Empty`. -/
theorem isSymbol_empty_of_matches {n n' : Numbering} {d d' : Datum} {t : Ty} (h : Spelled n d t n')
    (hmatch : Matches t.datum d') (hempty : d'.isSymbol "Empty") : d.isSymbol "Empty" := by
  have hname {name : String} (h : Matches (word name) d') : name = "Empty" := by
    obtain ⟨t', rfl, -, htext⟩ := matches_word h
    simp only [isSymbol, Token.isSymbol, Bool.and_eq_true, decide_eq_true_eq] at hempty
    exact htext.symm.trans hempty.2
  cases h with
  | @base _ token b hkind hbase =>
    have htoken : b.name = token.text := by simpa using List.find?_some hbase
    simp [isSymbol, Token.isSymbol, hkind, ← htoken, hname hmatch]
  | var => exact absurd (head_of_eq_varName (hname hmatch)) (by decide)
  | pair | proc =>
    obtain ⟨_, _, _, rfl, -⟩ := matches_listOf hmatch
    cases hempty

mutual

/-- The datum of a type is read as the renamed type. -/
theorem Spelled.reread {k : Nat} {n n' : Numbering} {d d' : Datum} {t : Ty} {ρ : Nat → Nat}
    (hn : n.Within k) (hρ : Numbering.Shifts ρ k) (hmatch : Matches t.datum d') :
    Spelled n d t n' → Spelled (n.respell ρ) d' (t.rename ρ) (n'.respell ρ)
  | @Spelled.base _ _ b _ _ => by
    obtain ⟨t', rfl, hkind, htext⟩ := matches_word hmatch
    exact .base hkind (by rw [htext, ofName?_name])
  | @Spelled.var n token _ _ _ => by
    obtain ⟨t', rfl, hkind, htext⟩ := matches_word hmatch
    have h := Spelled.var (n := n.respell ρ) hkind (by rw [htext, ofName?_varName])
      (by rw [htext]; exact varName_notMem_reservedNames _)
    rwa [htext, hn.assign_varName hρ] at h
  | .pair _ ha hd => by
    obtain ⟨left, ds, right, rfl, hds⟩ := matches_listOf hmatch
    obtain _ | ⟨hpair, _ | ⟨hma, _ | ⟨hmd, _ | _⟩⟩⟩ := hds
    exact .pair (isSymbol_of_matches hpair) (ha.reread hn hρ hma)
      (hd.reread (ha.within hn).1 hρ hmd)
  | .proc _ hd hparams => by
    obtain ⟨left, _, right, rfl, hmatches⟩ := matches_listOf hmatch
    obtain ⟨ds, _, rfl, hds, hrest⟩ := exists_append_of_forall₂ hmatches
    obtain _ | ⟨harrow, _ | ⟨hmd, _ | _⟩⟩ := hrest
    rw [rename_proc]
    exact .proc (isSymbol_of_matches harrow) (hd.reread hn hρ hmd)
      (hparams.reread (hd.within hn).1 hρ hds)

theorem Params.reread {k : Nat} {n n' : Numbering} {ds ds' : List Datum} {ts : List Ty}
    {ρ : Nat → Nat} (hn : n.Within k) (hρ : Numbering.Shifts ρ k)
    (hmatch : List.Forall₂ Matches (paramData ts) ds') :
    Params n ds ts n' → Params (n.respell ρ) ds' (ts.map (rename ρ)) (n'.respell ρ)
  | .nil | .empty _ => by
    obtain _ | ⟨hempty, _ | _⟩ := hmatch
    exact .empty (isSymbol_of_matches hempty)
  | .cons hempty ht hts => by
    obtain _ | ⟨hmt, hmts⟩ := hmatch
    refine .cons (fun hnil hempty' => ?_) (ht.reread hn hρ hmt) (hts.reread (ht.within hn).1 hρ hmts)
    -- A single parameter was not written as the name `Empty`.
    subst hnil
    cases hts with
    | nil => exact hempty rfl (isSymbol_empty_of_matches ht hmt hempty')
    | cons => cases hmts

theorem Starred.reread {k : Nat} {n n' : Numbering} {ds ds' : List Datum} {ts : List Ty}
    {ρ : Nat → Nat} (hn : n.Within k) (hρ : Numbering.Shifts ρ k)
    (hmatch : List.Forall₂ Matches (starredData ts) ds') :
    Starred n ds ts n' → Starred (n.respell ρ) ds' (ts.map (rename ρ)) (n'.respell ρ)
  | .nil => by
    cases hmatch
    exact .nil
  | .cons _ ht hts => by
    obtain _ | ⟨hstar, _ | ⟨hmt, hmts⟩⟩ := hmatch
    exact .cons (isSymbol_of_matches hstar) (ht.reread hn hρ hmt)
      (hts.reread (ht.within hn).1 hρ hmts)

end

end Ty

end TypedScheme
