import Mathlib.Data.Finset.Card
import TypedScheme.Proofs.Ty.Matching

/-!
# Matching is most general unification

`Substitution.unify` matches two types within a depth that it computes from their variables and
sizes. The depth is always enough: once all bindings are resolved no type is higher, since a path
down a resolved type passes every variable at most once (`Triangular.height_apply_le`). So matching
succeeds whenever the two types can be made equal at all, and what it finds is most general.

## What this module delivers

- `Substitution.Reachable`: the substitutions that matching leads to from the empty one, by any
  sequence of matches of whole types, successful or not.
- `unify_eq_true_iff`: matching succeeds exactly when some replacement respects the bindings and makes
  the two types equal.
- `agrees_iff`: two types agree exactly when they have a common instance.
- `unify_mostGeneral`: all of it in one statement, for every reachable substitution.
-/

set_option autoImplicit false

namespace TypedScheme.Substitution

open Ty

/-! ## How high resolved types are -/

section Height

variable {s : Substitution} {V : Finset Nat} {m : Nat}

/-- The variables of `V` that are resolved to types no higher than that of `x`. -/
def lowerVars (s : Substitution) (V : Finset Nat) (x : Nat) : Finset Nat :=
  V.filter fun y => (s.apply (.var y)).height ≤ (s.apply (.var x)).height

/-- A variable with a lower type has fewer variables below it. -/
theorem card_lowerVars_lt {x y : Nat} (hx : x ∈ V)
    (h : (s.apply (.var y)).height < (s.apply (.var x)).height) :
    (s.lowerVars V y).card < (s.lowerVars V x).card := by
  apply Finset.card_lt_card
  rw [Finset.ssubset_iff_of_subset]
  · refine ⟨x, by simp [lowerVars, hx], ?_⟩
    simp only [lowerVars, Finset.mem_filter, not_and]
    omega
  · intro z hz
    simp only [lowerVars, Finset.mem_filter] at hz ⊢
    exact ⟨hz.1, by omega⟩

/-- A variable is resolved to a type of at most `m` for each variable whose type is no higher, where
`m` bounds the types of the bindings. The induction is on the height: below the head of the resolved
type there are only variables with lower types. -/
theorem Triangular.height_apply_var_le (hs : s.Triangular) (hm : 1 ≤ m)
    (hb : ∀ p ∈ s, (∀ y ∈ p.2.vars, y ∈ V) ∧ p.2.height ≤ m) {x : Nat} (hx : x ∈ V) :
    (s.apply (.var x)).height ≤ m * (s.lowerVars V x).card := by
  induction hk : (s.apply (.var x)).height using Nat.strong_induction_on generalizing x with
  | _ k ih =>
    have hpos : 1 ≤ (s.lowerVars V x).card :=
      Finset.card_pos.2 ⟨x, by simp [lowerVars, hx]⟩
    have hwalk : s.apply (s.walk (.var x)) = s.apply (.var x) := hs.apply_walk _
    by_cases hv : ∃ y, s.walk (.var x) = .var y
    · -- The head is a variable without a binding, which is all that is left.
      obtain ⟨y, hy⟩ := hv
      rw [hy, apply_var_of_not_mem_keys (hs.not_mem_keys_of_walk_eq_var hy)] at hwalk
      rw [← hwalk] at hk
      rw [← hk]
      exact Nat.le_trans hm (Nat.le_mul_of_pos_right m hpos)
    · have hne : ∀ y, s.walk (.var x) ≠ .var y := fun y hy => hv ⟨y, hy⟩
      rcases walk_eq_self_or_mem s (.var x) with hself | ⟨p, hp, hhead⟩
      · exact absurd hself (hne x)
      · -- The head is the type of a binding, and all variables in it are resolved to lower types.
        obtain ⟨hpV, hpm⟩ := hb p hp
        have hbelow : ∀ y ∈ p.2.vars, (s.apply (.var y)).height ≤
            m * ((s.lowerVars V x).card - 1) := by
          intro y hy
          have hlt : (s.apply (.var y)).height < (s.apply (.var x)).height := by
            rw [← hwalk, hhead, apply_eq_bind s p.2]
            exact height_lt_bind (f := fun x => s.apply (.var x)) hy fun z hz => hne z (by rw [hhead, hz])
          have hcard := card_lowerVars_lt hx hlt
          refine Nat.le_trans (ih _ (hk ▸ hlt) (hpV y hy) rfl) ?_
          exact Nat.mul_le_mul_left m (by omega)
        have hle := height_bind_le hbelow
        rw [← apply_eq_bind, ← hhead, hwalk, hk, hhead] at hle
        have hsplit : m * (s.lowerVars V x).card = m + m * ((s.lowerVars V x).card - 1) := by
          conv_lhs => rw [← Nat.sub_add_cancel hpos]
          rw [Nat.mul_add, Nat.mul_one, Nat.add_comm]
        omega

/-- No resolved type is higher than the bound on types, taken once for the type and once for each
variable. -/
theorem Triangular.height_apply_le (hs : s.Triangular) (hm : 1 ≤ m)
    (hb : ∀ p ∈ s, (∀ y ∈ p.2.vars, y ∈ V) ∧ p.2.height ≤ m) {t : Ty}
    (htV : ∀ x ∈ t.vars, x ∈ V) (ht : t.height ≤ m) :
    (s.apply t).height ≤ (V.card + 1) * m := by
  have hvars : ∀ x ∈ t.vars, (s.apply (.var x)).height ≤ m * V.card := by
    intro x hx
    refine Nat.le_trans (hs.height_apply_var_le hm hb (htV x hx)) ?_
    exact Nat.mul_le_mul_left m (Finset.card_le_card (Finset.filter_subset _ V))
  have hle := height_bind_le hvars
  rw [← apply_eq_bind] at hle
  calc (s.apply t).height ≤ t.height + m * V.card := hle
    _ ≤ m + m * V.card := by omega
    _ = (V.card + 1) * m := by rw [Nat.add_mul, Nat.one_mul, Nat.mul_comm, Nat.add_comm]

end Height

/-! ## The depth of matching -/

/-- The types that are made of the variables `V` and at most `m` high. -/
def Bounded (V : Finset Nat) (m : Nat) (t : Ty) : Prop := (∀ x ∈ t.vars, x ∈ V) ∧ t.height ≤ m

theorem hereditary_bounded (V : Finset Nat) (m : Nat) : Hereditary (Bounded V m) where
  pair := by
    rintro a d ⟨hvars, hheight⟩
    obtain ⟨ha, hd⟩ := height_pair_le.1 (Nat.le_succ_of_le hheight)
    exact ⟨⟨fun x hx => hvars x (mem_vars_pair.2 (.inl hx)), ha⟩,
      fun x hx => hvars x (mem_vars_pair.2 (.inr hx)), hd⟩
  proc := by
    rintro ps r ⟨hvars, hheight⟩
    obtain ⟨hps, hr⟩ := height_proc_le.1 (Nat.le_succ_of_le hheight)
    exact ⟨fun p hp => ⟨fun x hx => hvars x (mem_vars_proc.2 (.inl ⟨p, hp, hx⟩)), hps p hp⟩,
      fun x hx => hvars x (mem_vars_proc.2 (.inr hx)), hr⟩

/-- The types at hand are made of their own variables and are at most as high as their joint size. -/
theorem bounded_of_mem {ts : List Ty} {t : Ty} (ht : t ∈ ts) :
    Bounded (varsAll ts).toFinset (sizeAll ts) t :=
  ⟨fun _ hx => List.mem_toFinset.2 (mem_varsAll.2 ⟨t, ht, hx⟩),
    Nat.le_trans (height_le_size t) (size_le_sizeAll ht)⟩

/-- After an attempt to make two types equal, neither is resolved to a type higher than the depth that
matching allows itself. -/
theorem Solved.height_apply_le {n : Nat} {s : Substitution} {a b : Ty} {r : Bool × Substitution}
    (h : Solved n s [(a, b)] r) : (r.2.apply a).height ≤ s.depthBound a b := by
  let types := a :: b :: s.map (·.2)
  have hQ := hereditary_bounded (varsAll types).toFinset (sizeAll types)
  have ha : Bounded (varsAll types).toFinset (sizeAll types) a := bounded_of_mem (by simp [types])
  have hb : Bounded (varsAll types).toFinset (sizeAll types) b := bounded_of_mem (by simp [types])
  have hs : ∀ p ∈ s, Bounded (varsAll types).toFinset (sizeAll types) p.2 := fun p hp =>
    bounded_of_mem (by simp only [types, List.mem_cons]; exact .inr (.inr (List.mem_map_of_mem hp)))
  have hr := h.types_of_hereditary hQ (by simpa using ⟨ha, hb⟩) hs
  have hpos : 1 ≤ sizeAll types := Nat.le_trans (one_le_height a) ha.2
  refine Nat.le_trans (h.triangular.height_apply_le hpos hr ha.1 ha.2) ?_
  exact Nat.mul_le_mul (Nat.succ_le_succ (List.toFinset_card_le _)) (Nat.le_succ _)

/-! ## Unification -/

variable {s : Substitution} {a b : Ty}

theorem solved_unify (hs : s.Triangular) : Solved (s.depthBound a b) s [(a, b)] (s.unify a b) :=
  solved_matchWithin _ hs

/-- Matching succeeds on whole types that can be made equal. A replacement that does so may be
arbitrarily high, so it is first traded for one that matching to its height finds, which is low
enough. -/
theorem unify_of_bind_eq (hs : s.Triangular) (hsw : ∀ p ∈ s, p.2.isWhole = true)
    (ha : a.isWhole = true) (hb : b.isWhole = true) {θ : Nat → Ty} (hθ : s.RespectedBy θ)
    (h : a.bind θ = b.bind θ) : (s.unify a b).1 = true := by
  have hw : ∀ e ∈ [(a, b)], e.1.isWhole = true ∧ e.2.isWhole = true := by simp [ha, hb]
  -- Matching to the height of the given solution succeeds by definition of `Solved`.
  have hfar := solved_matchWithin (a.bind θ).height (a := a) (b := b) hs
  have hfound := hfar.success hw hsw θ hθ (by simpa using h) (by simp)
  -- The solution that it finds resolves to types within the depth of `unify`.
  have hres := hfar.triangular.respectedBy_of_suffix hfar.suffix hfar.triangular.respectedBy_apply
  refine (solved_unify hs).success hw hsw _ hres (hfar.holds hfound) ?_
  intro e he
  have he : e = (a, b) := by simpa using he
  subst he
  rw [← apply_eq_bind]
  exact hfar.height_apply_le

/-- Matching finds solutions of any height. -/
theorem solved_unify_of_height (n : Nat) (hs : s.Triangular) :
    Solved n s [(a, b)] (s.unify a b) := by
  refine { solved_unify hs with success := ?_ }
  intro hw hsw θ hθ h _
  obtain ⟨ha, hb⟩ := hw (a, b) (by simp)
  exact unify_of_bind_eq hs hsw ha hb hθ (holds_singleton.1 h)

theorem solved_matchLists_unify (n : Nat) (hs : s.Triangular) {as bs : List Ty}
    (hlen : as.length = bs.length) : Solved n s (as.zip bs) (matchLists unify s as bs) :=
  solved_matchLists (solved_unify_of_height n) hs hlen

/-- Matching in order succeeds on whole types that can be made equal all at once. -/
theorem matchLists_unify_of_map_eq (hs : s.Triangular) (hsw : ∀ p ∈ s, p.2.isWhole = true)
    {as bs : List Ty} (has : ∀ a ∈ as, a.isWhole = true) (hbs : ∀ b ∈ bs, b.isWhole = true)
    {θ : Nat → Ty} (hθ : s.RespectedBy θ) (h : as.map (Ty.bind θ) = bs.map (Ty.bind θ)) :
    (matchLists unify s as bs).1 = true := by
  have hlen : as.length = bs.length := by simpa using congrArg List.length h
  refine (solved_matchLists_unify (heightAll (as.map (Ty.bind θ))) hs hlen).success ?_ hsw θ hθ
    ((holds_zip hlen).2 h) ?_
  · exact fun e he => ⟨has _ (List.of_mem_zip he).1, hbs _ (List.of_mem_zip he).2⟩
  · intro e he
    exact heightAll_le.1 (Nat.le_refl _) _ (List.mem_map_of_mem (List.of_mem_zip he).1)

/-- A successful match makes the two types equal. -/
theorem apply_eq_apply_of_unify (hs : s.Triangular) (h : (s.unify a b).1 = true) :
    (s.unify a b).2.apply a = (s.unify a b).2.apply b := by
  have heq := holds_singleton.1 ((solved_unify hs).holds h)
  rwa [← apply_eq_bind, ← apply_eq_bind] at heq

theorem isWhole_apply (hsw : ∀ p ∈ s, p.2.isWhole = true) {t : Ty} (ht : t.isWhole = true) :
    (s.apply t).isWhole = true := by
  induction s generalizing t with
  | nil => exact ht
  | cons p s ih =>
    obtain ⟨x, c⟩ := p
    have hsw' : ∀ p ∈ s, p.2.isWhole = true := fun p hp => hsw p (List.mem_cons_of_mem _ hp)
    rw [apply_cons]
    refine isWhole_bind (ih hsw' ht) fun y _ => ?_
    by_cases hyx : y = x
    · rw [if_pos hyx]
      exact ih hsw' (hsw (x, c) (by simp))
    · rw [if_neg hyx]
      rfl

/-- A replacement by whole types that respects the bindings of `s` and makes two types equal. -/
structure Unifier (s : Substitution) (a b : Ty) (θ : Nat → Ty) : Prop where
  whole : ∀ x, (θ x).isWhole = true
  respects : s.RespectedBy θ
  equal : a.bind θ = b.bind θ

/-- Matching whole types succeeds exactly when they have a unifier. -/
theorem unify_eq_true_iff (hs : s.Triangular) (hsw : ∀ p ∈ s, p.2.isWhole = true)
    (ha : a.isWhole = true) (hb : b.isWhole = true) :
    (s.unify a b).1 = true ↔ ∃ θ, Unifier s a b θ := by
  constructor
  · intro h
    have hsol := solved_unify (a := a) (b := b) hs
    have hsw' := hsol.types_of_hereditary hereditary_isWhole (by simp [ha, hb]) hsw
    exact ⟨fun x => (s.unify a b).2.apply (.var x), fun x => isWhole_apply hsw' rfl,
      hsol.triangular.respectedBy_of_suffix hsol.suffix hsol.triangular.respectedBy_apply,
      holds_singleton.1 (hsol.holds h)⟩
  · rintro ⟨θ, -, hθ, h⟩
    exact unify_of_bind_eq hs hsw ha hb hθ h

/-- Two whole types agree exactly when some replacement makes them equal. -/
theorem agrees_iff (ha : a.isWhole = true) (hb : b.isWhole = true) :
    a.agrees b = true ↔ ∃ θ, Unifier [] a b θ :=
  unify_eq_true_iff .nil (by simp) ha hb

/-! ## Reachable substitutions -/

/-- The substitutions that matching whole types leads to from the empty one, whether the matches
succeed or fail. -/
inductive Reachable : Substitution → Prop
  | empty : Reachable []
  | unify {s : Substitution} {a b : Ty} :
      Reachable s → a.isWhole = true → b.isWhole = true → Reachable (s.unify a b).2

theorem Reachable.triangular (h : s.Reachable) : s.Triangular := by
  induction h with
  | empty => exact .nil
  | unify _ _ _ ih => exact (solved_unify ih).triangular

theorem Reachable.isWhole (h : s.Reachable) : ∀ p ∈ s, p.2.isWhole = true := by
  induction h with
  | empty => simp
  | unify hs ha hb ih =>
    exact (solved_unify hs.triangular).types_of_hereditary hereditary_isWhole (by simp [ha, hb]) ih

/-- Matching is most general unification: after any sequence of matches it succeeds exactly when the
two types have a unifier, and then it keeps every binding, makes the types equal, and adds no binding
that some unifier does not respect. In particular agreement of types is unifiability, which does not
depend on their order. -/
theorem unify_mostGeneral (hs : s.Reachable) (ha : a.isWhole = true) (hb : b.isWhole = true) :
    ((s.unify a b).1 = true ↔ ∃ θ, Unifier s a b θ) ∧
    ((s.unify a b).1 = true →
      (∀ x t, s.Binds x t → (s.unify a b).2.Binds x t) ∧
      (s.unify a b).2.apply a = (s.unify a b).2.apply b ∧
      ∀ θ, s.RespectedBy θ → a.bind θ = b.bind θ → (s.unify a b).2.RespectedBy θ) ∧
    (a.agrees b = true ↔ ∃ θ, Unifier [] a b θ) ∧
    a.agrees b = b.agrees a := by
  have hsol := solved_unify (a := a) (b := b) hs.triangular
  refine ⟨unify_eq_true_iff hs.triangular hs.isWhole ha hb, fun h => ⟨?_, ?_, ?_⟩,
    agrees_iff ha hb, ?_⟩
  · exact fun x t hbind => hsol.triangular.binds_of_suffix hsol.suffix hbind
  · exact apply_eq_apply_of_unify hs.triangular h
  · exact fun θ hθ heq => hsol.respected θ hθ (holds_singleton.2 heq)
  · rw [Bool.eq_iff_iff, agrees_iff ha hb, agrees_iff hb ha]
    constructor
    · rintro ⟨θ, hw, hr, he⟩
      exact ⟨θ, hw, hr, he.symm⟩
    · rintro ⟨θ, hw, hr, he⟩
      exact ⟨θ, hw, hr, he.symm⟩

/-- Two procedure types whose variables are shared with each other and with earlier bindings. -/
theorem unify_mostGeneral_sharedVariables :
    let s : Substitution := [(2, .var 3), (1, .pair (.var 2) (.base .number))]
    let a : Ty := .proc [.var 1] (.var 4)
    let b : Ty := .proc [.pair (.var 3) (.var 5)] (.var 2)
    s.Reachable ∧ a.isWhole = true ∧ b.isWhole = true ∧ ∃ θ, Unifier s a b θ := by
  intro s a b
  have hs : s.Reachable :=
    Reachable.unify (a := .pair (.var 1) (.var 2))
      (b := .pair (.pair (.var 2) (.base .number)) (.var 3)) .empty rfl rfl
  exact ⟨hs, rfl, rfl, (unify_mostGeneral hs rfl rfl).1.1 (by decide)⟩

end TypedScheme.Substitution
