import Mathlib.Data.List.Basic
import Mathlib.Data.Set.Function
import TypedScheme.Proofs.Ty.Unification

/-!
# Renaming of type variables

Matching and the making of fresh copies look at type variables only to tell them apart, so they
commute with every renaming that keeps the variables at hand apart. The renaming need not be
injective on all numbers: it is enough that it is on a set `D` that holds all variables in play.

## What this module delivers

- `Ty.rename`, `Substitution.rename`, and `Ty.Over`, `Substitution.Over`, which say that all
  variables are in `D`.
- `unify_rename`: matching renamed types after renamed bindings gives the same answer and the renamed
  bindings. `agrees_rename` is the case without bindings.
- `freshVars_rename`: the new variables for a renamed type are the renamed new variables, if the
  renaming takes the next numbers of one count to the next numbers of the other.
-/

set_option autoImplicit false

namespace TypedScheme

/-! ## Renamed types -/

namespace Ty

/-- A type with its variables renamed. -/
def rename (ρ : Nat → Nat) (t : Ty) : Ty := t.bind fun x => .var (ρ x)

/-- All variables of a type are in `D`. -/
def Over (D : Set Nat) (t : Ty) : Prop := ∀ x ∈ t.vars, x ∈ D

variable {ρ : Nat → Nat} {D : Set Nat}

@[simp] theorem rename_absent : rename ρ absent = absent := rfl

@[simp] theorem rename_base (b : Base) : rename ρ (base b) = base b := rfl

/-- A variable is renamed, and everything else keeps its form. -/
@[simp] theorem rename_var (x : Nat) : rename ρ (var x) = var (ρ x) := rfl

@[simp] theorem rename_pair (a d : Ty) : rename ρ (pair a d) = pair (rename ρ a) (rename ρ d) := rfl

@[simp] theorem rename_proc (ps : List Ty) (r : Ty) :
    rename ρ (proc ps r) = proc (ps.map (rename ρ)) (rename ρ r) :=
  bind_proc _ ps r

theorem over_absent : Over D absent := by simp [Over, vars]

theorem over_base (b : Base) : Over D (base b) := by simp [Over, vars]

theorem over_var {x : Nat} : Over D (var x) ↔ x ∈ D := by simp [Over, vars]

theorem over_pair {a d : Ty} : Over D (pair a d) ↔ Over D a ∧ Over D d := by
  simp only [Over, mem_vars_pair]
  exact ⟨fun h => ⟨fun x hx => h x (.inl hx), fun x hx => h x (.inr hx)⟩,
    fun h x hx => hx.elim (h.1 x) (h.2 x)⟩

theorem over_proc {ps : List Ty} {r : Ty} :
    Over D (proc ps r) ↔ (∀ p ∈ ps, Over D p) ∧ Over D r := by
  simp only [Over, mem_vars_proc]
  exact ⟨fun h => ⟨fun p hp x hx => h x (.inl ⟨p, hp, hx⟩), fun x hx => h x (.inr hx)⟩,
    fun h x hx => hx.elim (fun ⟨p, hp, hx⟩ => h.1 p hp x hx) (h.2 x)⟩

/-- Replacing variables by types over a set gives a type over it. -/
theorem over_bind {f : Nat → Ty} {t : Ty} (hf : ∀ x ∈ t.vars, Over D (f x)) :
    Over D (t.bind f) := by
  intro y hy
  obtain ⟨x, hx, hy⟩ := mem_vars_bind.1 hy
  exact hf x hx y hy

/-- Renaming after a replacement is a replacement after renaming. -/
theorem rename_bind {f g : Nat → Ty} {t : Ty} (h : ∀ x ∈ t.vars, (f x).rename ρ = g (ρ x)) :
    (t.bind f).rename ρ = (t.rename ρ).bind g := by
  rw [rename, rename, bind_bind, bind_bind]
  exact bind_congr h

/-- Replacing variables commutes with renaming, on all types of a list. -/
theorem bindAll_rename {f g : Nat → Ty} {ts : List Ty}
    (h : ∀ t ∈ ts, ∀ x ∈ t.vars, (f x).rename ρ = g (ρ x)) :
    bindAll g (ts.map (rename ρ)) = (bindAll f ts).map (rename ρ) := by
  rw [bindAll_eq_map, bindAll_eq_map, List.map_map, List.map_map]
  exact List.map_congr_left fun t ht => (rename_bind (h t ht)).symm

/-- Renamings that agree on the variables of a type give the same type. -/
theorem rename_congr {ρ' : Nat → Nat} {t : Ty} (h : ∀ x ∈ t.vars, ρ x = ρ' x) :
    t.rename ρ = t.rename ρ' :=
  bind_congr fun x hx => by rw [h x hx]

@[simp] theorem rename_id (t : Ty) : t.rename id = t := bind_var t

/-- A type without variables is over every set. -/
theorem over_of_vars_eq_nil {t : Ty} (h : t.vars = []) : t.Over D := by simp [Over, h]

theorem rename_of_vars_eq_nil {t : Ty} (h : t.vars = []) : t.rename ρ = t := bind_of_vars_eq_nil h _

/-- Only a variable is renamed to a variable. -/
theorem rename_eq_var {t : Ty} {y : Nat} : t.rename ρ = var y ↔ ∃ x, t = var x ∧ ρ x = y := by
  cases t <;> simp

theorem varsAll_map {f : Ty → Ty} {ts : List Ty} (h : ∀ t ∈ ts, (f t).vars = t.vars.map ρ) :
    varsAll (ts.map f) = (varsAll ts).map ρ := by
  induction ts with
  | nil => rfl
  | cons t ts ih =>
    simp only [List.map_cons, varsAll, List.map_append]
    rw [h t (by simp), ih fun u hu => h u (List.mem_cons_of_mem _ hu)]

/-- Renaming keeps the order of the occurrences of variables. -/
theorem vars_rename (t : Ty) : (t.rename ρ).vars = t.vars.map ρ := by
  induction t with
  | absent => rfl
  | base b => rfl
  | var x => rfl
  | pair a d iha ihd => simp [vars, iha, ihd]
  | proc ps r ihps ihr => simp [vars, varsAll_map ihps, ihr]

theorem sizeAll_map {f : Ty → Ty} {ts : List Ty} (h : ∀ t ∈ ts, (f t).size = t.size) :
    sizeAll (ts.map f) = sizeAll ts := by
  induction ts with
  | nil => rfl
  | cons t ts ih =>
    simp only [List.map_cons, sizeAll]
    rw [h t (by simp), ih fun u hu => h u (List.mem_cons_of_mem _ hu)]

theorem size_rename (t : Ty) : (t.rename ρ).size = t.size := by
  induction t with
  | absent => rfl
  | base b => rfl
  | var x => rfl
  | pair a d iha ihd => simp [size, iha, ihd]
  | proc ps r ihps ihr => simp [size, sizeAll_map ihps, ihr]

end Ty

/-! ## Renamed substitutions -/

namespace Substitution

open Ty

/-- A substitution with the variables of its bindings renamed, on both sides. -/
def rename (ρ : Nat → Nat) (s : Substitution) : Substitution :=
  s.map fun p => (ρ p.1, p.2.rename ρ)

/-- All variables of the bindings, on both sides, are in `D`. -/
def Over (D : Set Nat) (s : Substitution) : Prop := ∀ p ∈ s, p.1 ∈ D ∧ p.2.Over D

variable {ρ : Nat → Nat} {D : Set Nat} {s : Substitution}

theorem over_nil : Over D [] := by simp [Over]

/-- Bindings are over a set of variables if each of them is, on both sides. -/
theorem over_cons {x : Nat} {b : Ty} :
    Over D ((x, b) :: s) ↔ (x ∈ D ∧ b.Over D) ∧ s.Over D := by
  simp [Over]

theorem rename_cons (x : Nat) (b : Ty) :
    rename ρ ((x, b) :: s) = (ρ x, b.rename ρ) :: s.rename ρ := rfl

/-- The parts of a type over a set are over it. -/
theorem hereditary_over (D : Set Nat) : Hereditary (Ty.Over D) :=
  ⟨over_pair.1, over_proc.1⟩

/-- Following bindings over a set leads to a type over it. -/
theorem Over.walk (hs : s.Over D) {t : Ty} (ht : t.Over D) : (s.walk t).Over D :=
  walk_of_forall (fun p hp => (hs p hp).2) ht

/-- Applying bindings over a set to a type over it gives a type over it. -/
theorem Over.apply (hs : s.Over D) {t : Ty} (ht : t.Over D) : (s.apply t).Over D := by
  induction s generalizing t with
  | nil => exact ht
  | cons p s ih =>
    obtain ⟨x, b⟩ := p
    obtain ⟨⟨-, hb⟩, hs⟩ := over_cons.1 hs
    have ht' := ih hs ht
    rw [apply_cons]
    refine over_bind fun y hy => ?_
    by_cases hyx : y = x
    · rw [if_pos hyx]
      exact ih hs hb
    · rw [if_neg hyx]
      exact over_var.2 (ht' y hy)

/-- The bindings after an attempt to solve equations have no other variables than those before and
the equations. -/
theorem Solved.over {n : Nat} {E : List (Ty × Ty)} {r : Bool × Substitution}
    (h : Solved n s E r) (hE : ∀ e ∈ E, e.1.Over D ∧ e.2.Over D) (hs : s.Over D) : r.2.Over D := by
  intro p hp
  rcases h.parts (hereditary_over D) hE (fun q hq => (hs q hq).2) p hp with hp | ⟨hx, hb⟩
  · exact hs p hp
  · exact ⟨over_var.1 hx, hb⟩

/-! ## Matching commutes with renaming -/

/-- An outcome with its bindings renamed. -/
def renameOutcome (ρ : Nat → Nat) (r : Bool × Substitution) : Bool × Substitution :=
  (r.1, r.2.rename ρ)

/-- Two steps that commute with renaming do so one after the other; the second is made only if the
first succeeds. -/
theorem andThen_rename {f g : Substitution → Bool × Substitution} {r : Bool × Substitution}
    (h : r.1 = true → f (r.2.rename ρ) = renameOutcome ρ (g r.2)) :
    andThen (renameOutcome ρ r) f = renameOutcome ρ (andThen r g) := by
  cases hr : r.1 with
  | false => simp [andThen, renameOutcome, hr]
  | true => simpa [andThen, renameOutcome, hr] using h hr

/-- Matching lists commutes with renaming, if matching two types does. -/
theorem matchLists_rename {n : Nat} {one : Substitution → Ty → Ty → Bool × Substitution}
    (hsolved : ∀ {s a b}, s.Triangular → Solved n s [(a, b)] (one s a b))
    (hone : ∀ {s a b}, s.Triangular → s.Over D → a.Over D → b.Over D →
      one (s.rename ρ) (a.rename ρ) (b.rename ρ) = renameOutcome ρ (one s a b))
    (ht : s.Triangular) (hs : s.Over D) {as bs : List Ty} (has : ∀ a ∈ as, a.Over D)
    (hbs : ∀ b ∈ bs, b.Over D) :
    matchLists one (s.rename ρ) (as.map (Ty.rename ρ)) (bs.map (Ty.rename ρ)) =
      renameOutcome ρ (matchLists one s as bs) := by
  induction as generalizing s bs with
  | nil => cases bs <;> rfl
  | cons a as ih =>
    cases bs with
    | nil => rfl
    | cons b bs =>
      have ha : a.Over D := has a (by simp)
      have hb : b.Over D := hbs b (by simp)
      have hsol := hsolved (a := a) (b := b) ht
      simp only [List.map_cons, matchLists, hone ht hs ha hb]
      refine andThen_rename fun _ => ih hsol.triangular (hsol.over (by simp [ha, hb]) hs) ?_ ?_
      · exact fun c hc => has c (List.mem_cons_of_mem _ hc)
      · exact fun c hc => hbs c (List.mem_cons_of_mem _ hc)

section Matching

variable (hρ : Set.InjOn ρ D)
include hρ

/-- Following bindings commutes with a renaming that keeps their variables apart. -/
theorem walk_rename (hs : s.Over D) {t : Ty} (ht : t.Over D) :
    (s.rename ρ).walk (t.rename ρ) = (s.walk t).rename ρ := by
  induction s with
  | nil => rfl
  | cons p s ih =>
    obtain ⟨x, b⟩ := p
    obtain ⟨⟨hx, -⟩, hs⟩ := over_cons.1 hs
    have hw : (walk s t).Over D := hs.walk ht
    rw [rename_cons, walk_cons, walk_cons, ih hs]
    by_cases h : walk s t = .var x
    · rw [if_pos h, if_pos (by rw [h, rename_var])]
    · -- Only `x` is renamed to the new name of `x`, so the renamed binding does not act either.
      rw [if_neg h, if_neg]
      intro h'
      obtain ⟨y, hy, hyx⟩ := rename_eq_var.1 h'
      rw [hy, over_var] at hw
      exact h (by rw [hy, hρ hw hx hyx])

/-- Applying bindings commutes with a renaming that keeps their variables apart. -/
theorem apply_rename (hs : s.Over D) {t : Ty} (ht : t.Over D) :
    (s.rename ρ).apply (t.rename ρ) = (s.apply t).rename ρ := by
  induction s generalizing t with
  | nil => rfl
  | cons p s ih =>
    obtain ⟨x, b⟩ := p
    obtain ⟨⟨hx, hb⟩, hs⟩ := over_cons.1 hs
    rw [rename_cons, apply_cons, apply_cons, ih hs ht, ih hs hb]
    refine (rename_bind fun y hy => ?_).symm
    have hyD : y ∈ D := hs.apply ht y hy
    by_cases hyx : y = x
    · rw [if_pos hyx, if_pos (by rw [hyx])]
    · rw [if_neg hyx, if_neg fun h => hyx (hρ hyD hx h), rename_var]

/-- The occurs check says the same after a renaming that keeps variables apart. -/
theorem occurs_rename (hs : s.Over D) {x : Nat} (hx : x ∈ D) {t : Ty} (ht : t.Over D) :
    (s.rename ρ).occurs (ρ x) (t.rename ρ) = s.occurs x t := by
  rw [occurs, occurs, apply_rename hρ hs ht, Bool.eq_iff_iff, mentions_iff, mentions_iff,
    vars_rename, List.mem_map]
  constructor
  · rintro ⟨y, hy, hyx⟩
    exact hρ (hs.apply ht y hy) hx hyx ▸ hy
  · exact fun h => ⟨x, h, rfl⟩

/-- Binding a variable commutes with renaming, success or not. -/
theorem bindVar_rename (hs : s.Over D) {x : Nat} (hx : x ∈ D) {t : Ty} (ht : t.Over D) :
    (s.rename ρ).bindVar (ρ x) (t.rename ρ) = renameOutcome ρ (s.bindVar x t) := by
  have heq : t.rename ρ = .var (ρ x) ↔ t = .var x := by
    constructor
    · intro h
      obtain ⟨y, rfl, hyx⟩ := rename_eq_var.1 h
      rw [hρ (over_var.1 ht) hx hyx]
    · rintro rfl
      rfl
  unfold bindVar
  rw [occurs_rename hρ hs hx ht]
  by_cases h : t = .var x
  · rw [if_pos h, if_pos (heq.2 h)]
    rfl
  · rw [if_neg h, if_neg fun h' => h (heq.1 h')]
    split <;> rfl

/-- Matching commutes with renaming. The induction is on the depth, and the renamed heads have the
forms of the heads. -/
theorem matchWithin_rename (n : Nat) (ht : s.Triangular) (hs : s.Over D) {a b : Ty}
    (ha : a.Over D) (hb : b.Over D) :
    matchWithin n (s.rename ρ) (a.rename ρ) (b.rename ρ) =
      renameOutcome ρ (matchWithin n s a b) := by
  induction n generalizing s a b with
  | zero => rfl
  | succ n ih =>
    have ha' := hs.walk ha
    have hb' := hs.walk hb
    rw [matchWithin, matchWithin, walk_rename hρ hs ha, walk_rename hρ hs hb]
    generalize s.walk a = a' at *
    generalize s.walk b = b' at *
    cases a' with
    | var x => exact bindVar_rename hρ hs (over_var.1 ha') hb'
    | absent =>
      cases b' with
      | var y => exact bindVar_rename hρ hs (over_var.1 hb') ha'
      | absent | base _ | pair _ _ | proc _ _ => rfl
    | base p =>
      cases b' with
      | var y => exact bindVar_rename hρ hs (over_var.1 hb') ha'
      | absent | base _ | pair _ _ | proc _ _ => rfl
    | pair c d =>
      cases b' with
      | var y => exact bindVar_rename hρ hs (over_var.1 hb') ha'
      | absent | base _ | proc _ _ => rfl
      | pair c' d' =>
        obtain ⟨hc, hd⟩ := over_pair.1 ha'
        obtain ⟨hc', hd'⟩ := over_pair.1 hb'
        -- The second parts are matched under the bindings that the first parts have added.
        have hsol := solved_matchWithin n (a := c) (b := c') ht
        simp only [rename_pair, ih ht hs hc hc']
        exact andThen_rename fun _ =>
          ih hsol.triangular (hsol.over (by simp [hc, hc']) hs) hd hd'
    | proc ps r =>
      cases b' with
      | var y => exact bindVar_rename hρ hs (over_var.1 hb') ha'
      | absent | base _ | pair _ _ => rfl
      | proc qs u =>
        obtain ⟨hps, hr⟩ := over_proc.1 ha'
        obtain ⟨hqs, hu⟩ := over_proc.1 hb'
        simp only [rename_proc, List.length_map]
        split
        · rename_i hlen
          have hsol := solved_matchLists (solved_matchWithin n) ht hlen
          rw [matchLists_rename (solved_matchWithin n) (fun ht hs => ih ht hs) ht hs hps hqs]
          refine andThen_rename fun _ => ih hsol.triangular (hsol.over ?_ hs) hr hu
          exact fun e he => ⟨hps _ (List.of_mem_zip he).1, hqs _ (List.of_mem_zip he).2⟩
        · rfl

end Matching

/-- Renaming keeps the bound on the depth of matching. -/
theorem depthBound_rename (a b : Ty) :
    (s.rename ρ).depthBound (a.rename ρ) (b.rename ρ) = s.depthBound a b := by
  have htypes : a.rename ρ :: b.rename ρ :: (s.rename ρ).map (·.2) =
      (a :: b :: s.map (·.2)).map (Ty.rename ρ) := by
    simp [rename, Function.comp_def]
  simp only [depthBound]
  rw [htypes, varsAll_map fun t _ => vars_rename t, sizeAll_map fun t _ => size_rename t,
    List.length_map]

/-- Matching renamed types after renamed bindings gives the same answer and the renamed bindings. -/
theorem unify_rename (hρ : Set.InjOn ρ D) (ht : s.Triangular) (hs : s.Over D) {a b : Ty}
    (ha : a.Over D) (hb : b.Over D) :
    (s.rename ρ).unify (a.rename ρ) (b.rename ρ) = renameOutcome ρ (s.unify a b) := by
  rw [unify, unify, depthBound_rename]
  exact matchWithin_rename hρ _ ht hs ha hb

/-- Matching types over a set makes bindings over it. -/
theorem Over.unify (hs : s.Over D) (ht : s.Triangular) {a b : Ty} (ha : a.Over D) (hb : b.Over D) :
    (s.unify a b).2.Over D :=
  (solved_unify ht).over (by simp [ha, hb]) hs

/-- Whether two types agree does not depend on the names of their variables. -/
theorem agrees_rename (hρ : Set.InjOn ρ D) {a b : Ty} (ha : a.Over D) (hb : b.Over D) :
    (a.rename ρ).agrees (b.rename ρ) = a.agrees b := by
  change ((rename ρ []).unify (a.rename ρ) (b.rename ρ)).1 = (unify [] a b).1
  rw [unify_rename hρ .nil over_nil ha hb]
  rfl

end Substitution

/-! ## Fresh copies -/

section Fresh

variable {ρ : Nat → Nat} {D : Set Nat}

/-- Dropping repetitions commutes with a renaming that keeps the elements apart. -/
theorem eraseDups_map_of_injOn {l : List Nat} (hl : ∀ x ∈ l, ∀ y ∈ l, ρ x = ρ y → x = y) :
    (l.map ρ).eraseDups = l.eraseDups.map ρ := by
  induction hn : l.length using Nat.strong_induction_on generalizing l with
  | _ n ih =>
    cases l with
    | nil => rfl
    | cons a l =>
      -- The repetitions of the first element are the elements with its new name.
      have hfilter : (l.map ρ).filter (fun b => !b == ρ a) = (l.filter fun b => !b == a).map ρ := by
        rw [List.filter_map]
        congr 1
        refine List.filter_congr fun x hx => ?_
        have hiff : ρ x = ρ a ↔ x = a :=
          ⟨hl x (List.mem_cons_of_mem _ hx) a (by simp), fun h => by rw [h]⟩
        by_cases h : x = a <;> simp [h, hiff]
      have hlt : (l.filter fun b => !b == a).length < n := by
        have := List.length_filter_le (fun b => !b == a) l
        simp only [List.length_cons] at hn
        omega
      rw [List.map_cons, List.eraseDups_cons, List.eraseDups_cons, List.map_cons, hfilter,
        ih _ hlt (fun x hx y hy => ?_) rfl]
      exact hl x (List.mem_cons_of_mem _ (List.mem_of_mem_filter hx)) y
        (List.mem_cons_of_mem _ (List.mem_of_mem_filter hy))

/-- The place of a variable in a list is that of its new name in the new list. -/
theorem idxOf_map_of_injOn {l : List Nat} {x : Nat} (hl : ∀ y ∈ l, ρ y = ρ x → y = x) :
    (l.map ρ).idxOf (ρ x) = l.idxOf x := by
  induction l with
  | nil => rfl
  | cons a l ih =>
    by_cases h : a = x
    · rw [List.map_cons, List.idxOf_cons_eq _ (by rw [h]), List.idxOf_cons_eq _ h]
    · have hne : ρ a ≠ ρ x := fun e => h (hl a (by simp) e)
      rw [List.map_cons, List.idxOf_cons_ne _ hne, List.idxOf_cons_ne _ h,
        ih fun y hy => hl y (List.mem_cons_of_mem _ hy)]

namespace Ty

theorem mem_distinctVars {t : Ty} {x : Nat} : x ∈ t.distinctVars ↔ x ∈ t.vars := by
  simp [distinctVars]

/-- The different variables of a type are renamed in their order. -/
theorem distinctVars_rename (hρ : Set.InjOn ρ D) {t : Ty} (ht : t.Over D) :
    (t.rename ρ).distinctVars = t.distinctVars.map ρ := by
  rw [distinctVars, distinctVars, vars_rename]
  exact eraseDups_map_of_injOn fun x hx y hy h => hρ (ht x hx) (ht y hy) h

/-- A renaming takes the numbers after `k₁` to the numbers after `k₂`, and all of the former are in
`D`. -/
def Aligned (ρ : Nat → Nat) (D : Set Nat) (k₁ k₂ : Nat) : Prop :=
  ∀ j, k₁ + 1 + j ∈ D ∧ ρ (k₁ + 1 + j) = k₂ + 1 + j

/-- The new variables for a renamed type are the renamed new variables. -/
theorem freshVars_rename {k₁ k₂ : Nat} (hρ : Set.InjOn ρ D) (hk : Aligned ρ D k₁ k₂) {t : Ty}
    (ht : t.Over D) {x : Nat} (hx : x ∈ t.vars) :
    ((t.freshVars k₁).1 x).Over D ∧
      ((t.freshVars k₁).1 x).rename ρ = ((t.rename ρ).freshVars k₂).1 (ρ x) := by
  have hidx : ((t.rename ρ).distinctVars).idxOf (ρ x) = t.distinctVars.idxOf x := by
    rw [distinctVars_rename hρ ht]
    exact idxOf_map_of_injOn fun y hy h => hρ (ht y (mem_distinctVars.1 hy)) (ht x hx) h
  refine ⟨over_var.2 (hk _).1, ?_⟩
  simp only [freshVars, rename_var]
  rw [(hk _).2, hidx]

end Ty

end Fresh

end TypedScheme
