import Mathlib.Order.WellFounded
import TypedScheme.Proofs.Ty.Unification

/-!
# Resolving and matching come to an end

Resolving a type follows its bindings and then goes on with the parts of what it finds, so it does not
become smaller in any obvious way, and matching makes new bindings while it goes on. The rules
`WalkEnds`, `OccursEnds`, `ApplyEnds` and `MatchEnds` describe these runs one call at a time and without
any bound on their depth: a run comes to an end exactly when the rules derive a result for it. They
derive one, and only one, for every type and after every sequence of matches, and it is the result of
`walk`, `occurs`, `apply` and `unify`.

## What this module delivers

- `Substitution.Below`: one type is looked at in the course of resolving another. For triangular
  bindings this is well founded (`Triangular.wellFounded_below`), so no variable refers to itself
  through the bindings (`Triangular.not_refers_self`).
- `Triangular.walkEnds_iff`, `Triangular.occursEnds_iff` and `Triangular.applyEnds_iff`: what runs that
  make no bindings end with.
- `Triangular.matchEnds_iff`: what matching ends with, whether it succeeds or fails.
- `matchPairs_acyclic`: all of it in one statement, for the bindings after any sequence of matches.
-/

set_option autoImplicit false

namespace TypedScheme

namespace Ty

/-! ## Parts -/

/-- The types that a type is made of directly. -/
def parts : Ty → List Ty
  | absent => []
  | base _ => []
  | var _ => []
  | pair a d => [a, d]
  | proc ps r => ps ++ [r]

/-- A replacement does not lower a type. -/
theorem height_le_height_bind (f : Nat → Ty) (t : Ty) : t.height ≤ (t.bind f).height := by
  induction t with
  | absent => exact Nat.le_refl _
  | base b => exact Nat.le_refl _
  | var x => exact one_le_height (f x)
  | pair a d iha ihd =>
    simp only [bind_pair, height]
    omega
  | proc ps r ihps ihr =>
    have hps : heightAll ps ≤ heightAll (ps.map (bind f)) := heightAll_le.2 fun p hp =>
      Nat.le_trans (ihps p hp) (heightAll_le.1 (Nat.le_refl _) _ (List.mem_map_of_mem hp))
    simp only [bind_proc, height]
    omega

end Ty

namespace Substitution

open Ty

variable {s : Substitution} {t u r : Ty} {x : Nat}

/-! ## The rules of the runs -/

/-- A type is its own head: it is no variable that has a binding. -/
def IsHead (s : Substitution) (t : Ty) : Prop := ∀ x u, t = .var x → ¬ s.Binds x u

/-- Following the bindings from a type ends at its head. -/
inductive WalkEnds (s : Substitution) : Ty → Ty → Prop
  | stop {t : Ty} : s.IsHead t → WalkEnds s t t
  | follow {x : Nat} {t r : Ty} : s.Binds x t → WalkEnds s t r → WalkEnds s (.var x) r

mutual

/-- Looking for a variable in a type ends with an answer. The result of a procedure type is searched
before its parameters. -/
inductive OccursEnds (s : Substitution) (x : Nat) : Ty → Bool → Prop
  | absent {t : Ty} : WalkEnds s t .absent → OccursEnds s x t false
  | base {t : Ty} {b : Base} : WalkEnds s t (.base b) → OccursEnds s x t false
  | var {t : Ty} {y : Nat} : WalkEnds s t (.var y) → OccursEnds s x t (y = x)
  | pair {t a d : Ty} {found : Bool} :
      WalkEnds s t (.pair a d) → OccursAnyEnds s x [a, d] found → OccursEnds s x t found
  | proc {t r : Ty} {ps : List Ty} {found : Bool} :
      WalkEnds s t (.proc ps r) → OccursAnyEnds s x (r :: ps) found → OccursEnds s x t found

/-- Looking for a variable in types, one after the other, ends with the first that holds it or with the
last. -/
inductive OccursAnyEnds (s : Substitution) (x : Nat) : List Ty → Bool → Prop
  | nil : OccursAnyEnds s x [] false
  | found {t : Ty} {ts : List Ty} : OccursEnds s x t true → OccursAnyEnds s x (t :: ts) true
  | next {t : Ty} {ts : List Ty} {found : Bool} :
      OccursEnds s x t false → OccursAnyEnds s x ts found → OccursAnyEnds s x (t :: ts) found

end

/-- Resolving all bindings in a type ends with a type. -/
inductive ApplyEnds (s : Substitution) : Ty → Ty → Prop
  | leaf {t u : Ty} : WalkEnds s t u → u.parts = [] → ApplyEnds s t u
  | pair {t a d a' d' : Ty} : WalkEnds s t (.pair a d) → ApplyEnds s a a' → ApplyEnds s d d' →
      ApplyEnds s t (.pair a' d')
  | proc {t u u' : Ty} {ps ps' : List Ty} : WalkEnds s t (.proc ps u) →
      List.Forall₂ (ApplyEnds s) ps ps' → ApplyEnds s u u' → ApplyEnds s t (.proc ps' u')

/-- The attempt to bind a variable to a type ends with a flag and bindings. -/
inductive AssignEnds (s : Substitution) (x : Nat) : Ty → Bool × Substitution → Prop
  | same : AssignEnds s x (.var x) (true, s)
  | refuse {t : Ty} : t ≠ .var x → OccursEnds s x t true → AssignEnds s x t (false, s)
  | assign {t : Ty} : t ≠ .var x → OccursEnds s x t false → AssignEnds s x t (true, (x, t) :: s)

/-- Types that are neither variables nor of one form. -/
def Clash : Ty → Ty → Prop
  | .var _, _ => False
  | _, .var _ => False
  | .base _, .base _ => False
  | .pair _ _, .pair _ _ => False
  | .proc _ _, .proc _ _ => False
  | _, _ => True

mutual

/-- Matching two types ends with a flag and bindings. -/
inductive MatchEnds : Substitution → Ty → Ty → Bool × Substitution → Prop
  | heads {s : Substitution} {a b a' b' : Ty} {r : Bool × Substitution} :
      WalkEnds s a a' → WalkEnds s b b' → MatchHeadsEnds s a' b' r → MatchEnds s a b r

/-- Matching two types that are their own heads ends with a flag and bindings. -/
inductive MatchHeadsEnds : Substitution → Ty → Ty → Bool × Substitution → Prop
  | left {s : Substitution} {x : Nat} {t : Ty} {r : Bool × Substitution} :
      AssignEnds s x t r → MatchHeadsEnds s (.var x) t r
  | right {s : Substitution} {x : Nat} {t : Ty} {r : Bool × Substitution} :
      (∀ y, t ≠ .var y) → AssignEnds s x t r → MatchHeadsEnds s t (.var x) r
  | base {s : Substitution} {p q : Base} : MatchHeadsEnds s (.base p) (.base q) (p = q, s)
  | pair {s : Substitution} {a d a' d' : Ty} {r : Bool × Substitution} :
      MatchAllEnds s [a, d] [a', d'] r → MatchHeadsEnds s (.pair a d) (.pair a' d') r
  | proc {s : Substitution} {ps qs : List Ty} {t u : Ty} {r : Bool × Substitution} :
      ps.length = qs.length → MatchAllEnds s (ps ++ [t]) (qs ++ [u]) r →
      MatchHeadsEnds s (.proc ps t) (.proc qs u) r
  | arity {s : Substitution} {ps qs : List Ty} {t u : Ty} :
      ps.length ≠ qs.length → MatchHeadsEnds s (.proc ps t) (.proc qs u) (false, s)
  | clash {s : Substitution} {a b : Ty} : Clash a b → MatchHeadsEnds s a b (false, s)

/-- Matching types in order ends with the first that do not match or with the last. -/
inductive MatchAllEnds : Substitution → List Ty → List Ty → Bool × Substitution → Prop
  | nil {s : Substitution} : MatchAllEnds s [] [] (true, s)
  | stop {s s' : Substitution} {a b : Ty} {as bs : List Ty} :
      MatchEnds s a b (false, s') → MatchAllEnds s (a :: as) (b :: bs) (false, s')
  | next {s s' : Substitution} {a b : Ty} {as bs : List Ty} {r : Bool × Substitution} :
      MatchEnds s a b (true, s') → MatchAllEnds s' as bs r → MatchAllEnds s (a :: as) (b :: bs) r

end

/-! ## Following bindings -/

theorem isHead_of_not_mem_keys (h : ∀ x, t = .var x → x ∉ s.keys) : s.IsHead t :=
  fun x _ ht hb => h x ht hb.mem_keys

/-- A walk goes on where an older one ended. -/
theorem WalkEnds.trans_cons {b : Ty} (hx : x ∉ s.keys) (h : WalkEnds s t u)
    (h' : WalkEnds ((x, b) :: s) u r) : WalkEnds ((x, b) :: s) t r := by
  induction h with
  | stop => exact h'
  | follow hy _ ih =>
    exact .follow (binds_cons.2 (.inr ⟨fun e => hx (e ▸ hy.mem_keys), hy⟩)) (ih h')

/-- Following bindings ends at one type only. -/
theorem WalkEnds.unique (h : WalkEnds s t u) (h' : WalkEnds s t r) : u = r := by
  induction h with
  | stop hhead =>
    cases h' with
    | stop => rfl
    | follow hy _ => exact absurd hy (hhead _ _ rfl)
  | follow hy _ ih =>
    cases h' with
    | stop hhead => exact absurd hy (hhead _ _ rfl)
    | follow hy' h' =>
      obtain rfl := Option.some.inj (hy.symm.trans hy')
      exact ih h'

/-- Following the bindings comes to an end at the head of a type. -/
theorem Triangular.walkEnds (hs : s.Triangular) (t : Ty) : WalkEnds s t (s.walk t) := by
  induction hs generalizing t with
  | nil => exact .stop fun x u _ hb => by cases hb
  | @cons s x b hs hx hwb hxb ih =>
    have hs' : Triangular ((x, b) :: s) := hs.cons hx hwb hxb
    refine (ih t).trans_cons hx ?_
    rw [walk_cons]
    split
    · -- The newest binding is followed, and its type is its own head.
      rename_i hhead
      rw [hhead]
      refine .follow (binds_cons.2 (.inl ⟨rfl, rfl⟩)) (.stop (isHead_of_not_mem_keys ?_))
      rintro y rfl
      refine hs'.not_mem_keys_of_walk_eq_var (t := .var y) ?_
      rw [walk_cons, hwb, if_neg]
      intro e
      rw [e, apply_var_of_not_mem_keys hx] at hxb
      exact hxb (List.mem_singleton.2 rfl)
    · rename_i hne
      refine .stop (isHead_of_not_mem_keys fun y hy => ?_)
      refine hs'.not_mem_keys_of_walk_eq_var (t := t) ?_
      rw [walk_cons, if_neg hne, hy]

/-- Following bindings ends where the computed walk does. -/
theorem Triangular.walkEnds_iff (hs : s.Triangular) : WalkEnds s t r ↔ r = s.walk t :=
  ⟨fun h => h.unique (hs.walkEnds t), fun h => h ▸ hs.walkEnds t⟩

/-! ## The order of a run -/

/-- The first type is looked at in the course of resolving the second: as the type that a variable is
bound to, or as a part. -/
inductive Below (s : Substitution) : Ty → Ty → Prop
  | bound {x : Nat} {t : Ty} : s.Binds x t → Below s t (.var x)
  | part {t u : Ty} : u ∈ t.parts → Below s u t

/-- The parts of a type are of lower height, with bindings applied. -/
theorem height_apply_lt_of_mem_parts (s : Substitution) (hu : u ∈ t.parts) :
    (s.apply u).height < (s.apply t).height := by
  cases t with
  | absent | base | var => exact absurd hu List.not_mem_nil
  | pair a d =>
    rw [apply_pair, height]
    rcases List.mem_cons.1 hu with rfl | hu
    · omega
    · rw [List.mem_singleton.1 hu]
      omega
  | proc ps r =>
    rw [apply_proc, height]
    rcases List.mem_append.1 hu with hu | hu
    · have := heightAll_le.1 (Nat.le_refl _) _ (List.mem_map_of_mem (f := s.apply) hu)
      omega
    · rw [List.mem_singleton.1 hu]
      omega

/-- A run that reaches the head of a type goes on with the parts of the head only. -/
theorem WalkEnds.acc_below (h : WalkEnds s t r) (hparts : ∀ u ∈ r.parts, Acc (Below s) u) :
    Acc (Below s) t := by
  induction h with
  | stop hhead =>
    refine ⟨_, fun u hu => ?_⟩
    cases hu with
    | bound hb => exact absurd hb (hhead _ _ rfl)
    | part hu => exact hparts u hu
  | follow hb _ ih =>
    refine ⟨_, fun u hu => ?_⟩
    cases hu with
    | bound hb' =>
      obtain rfl := Option.some.inj (hb.symm.trans hb')
      exact ih hparts
    | part hu => exact absurd hu List.not_mem_nil

/-- No run goes on forever. A step from a variable to its binding leaves the resolved type as it is, but
there are only finitely many of them in a row, and a step to a part lowers it. -/
theorem Triangular.wellFounded_below (hs : s.Triangular) : WellFounded (Below s) := by
  refine ⟨fun t => ?_⟩
  induction hn : (s.apply t).height using Nat.strong_induction_on generalizing t with
  | _ n ih =>
    refine (hs.walkEnds t).acc_below fun u hu => ih _ ?_ u rfl
    have hlt := height_apply_lt_of_mem_parts s hu
    rwa [hs.apply_walk, hn] at hlt

/-- The type that a variable is bound to holds another variable. -/
def Refers (s : Substitution) (x y : Nat) : Prop := ∃ t, s.Binds x t ∧ y ∈ t.vars

/-- The variables of a type lie below it. -/
theorem below_of_mem_vars (s : Substitution) {y : Nat} (hy : y ∈ t.vars) :
    Relation.ReflTransGen (Below s) (.var y) t := by
  induction t with
  | absent | base => exact absurd hy List.not_mem_nil
  | var x =>
    rw [List.mem_singleton.1 hy]
  | pair a d iha ihd =>
    rcases mem_vars_pair.1 hy with hy | hy
    · exact (iha hy).tail (.part (by simp [parts]))
    · exact (ihd hy).tail (.part (by simp [parts]))
  | proc ps r ihps ihr =>
    rcases mem_vars_proc.1 hy with ⟨p, hp, hy⟩ | hy
    · exact (ihps p hp hy).tail (.part (by simp [parts, hp]))
    · exact (ihr hy).tail (.part (by simp [parts]))

/-- No variable refers to itself, at any distance. -/
theorem Triangular.not_refers_self (hs : s.Triangular) (x : Nat) :
    ¬ Relation.TransGen s.Refers x x := by
  have hbelow {x y : Nat} (h : Relation.TransGen s.Refers x y) :
      Relation.TransGen (Below s) (.var y) (.var x) := by
    induction h with
    | single h =>
      obtain ⟨t, hb, hy⟩ := h
      exact .tail' (below_of_mem_vars s hy) (.bound hb)
    | tail _ h ih =>
      obtain ⟨t, hb, hy⟩ := h
      exact (Relation.TransGen.tail' (below_of_mem_vars s hy) (.bound hb)).trans ih
  intro h
  exact hs.wellFounded_below.transGen.irrefl.irrefl _ (hbelow h)

/-! ## Runs that make no bindings -/

theorem WalkEnds.reflTransGen_below (h : WalkEnds s t r) : Relation.ReflTransGen (Below s) r t := by
  induction h with
  | stop => exact .refl
  | follow hb _ ih => exact ih.tail (.bound hb)

/-- Induction along a run: from the parts of the head of a type to the type. -/
theorem Triangular.induction_on_parts (hs : s.Triangular) {motive : Ty → Prop}
    (h : ∀ t, (∀ u ∈ (s.walk t).parts, motive u) → motive t) (t : Ty) : motive t := by
  refine hs.wellFounded_below.transGen.induction t fun t ih => h t fun u hu => ih u ?_
  exact .head' (.part hu) (hs.walkEnds t).reflTransGen_below

theorem occurs_pair (s : Substitution) (x : Nat) (a d : Ty) :
    s.occurs x (.pair a d) = [a, d].any (s.occurs x) := by
  simp [occurs, mentions, vars]

theorem occurs_proc (s : Substitution) (x : Nat) (ps : List Ty) (r : Ty) :
    s.occurs x (.proc ps r) = (r :: ps).any (s.occurs x) := by
  rw [Bool.eq_iff_iff, occurs, mentions_iff, apply_proc, mem_vars_proc, List.any_cons, Bool.or_eq_true,
    List.any_eq_true, or_comm]
  simp only [occurs, mentions_iff, List.mem_map, exists_exists_and_eq_and]

/-- Looking for a variable in several types ends with the computed answer, if it does so in each. -/
theorem occursAnyEnds_iff {ts : List Ty} {found : Bool}
    (h : ∀ t ∈ ts, ∀ found, OccursEnds s x t found ↔ found = s.occurs x t) :
    OccursAnyEnds s x ts found ↔ found = ts.any (s.occurs x) := by
  induction ts generalizing found with
  | nil =>
    constructor
    · rintro ⟨⟩
      rfl
    · rintro rfl
      exact .nil
  | cons t ts ih =>
    obtain ⟨ht, hts⟩ := List.forall_mem_cons.1 h
    rw [List.any_cons]
    constructor
    · intro hends
      cases hends with
      | found hfound => rw [← (ht _).1 hfound, Bool.true_or]
      | next hnot hrest => rw [← (ht _).1 hnot, Bool.false_or, (ih hts).1 hrest]
    · rintro rfl
      cases ho : s.occurs x t with
      | true => exact .found ((ht _).2 ho.symm)
      | false => exact .next ((ht _).2 ho.symm) ((ih hts).2 rfl)

/-- Looking for a variable comes to an end. -/
theorem Triangular.occursEnds_iff (hs : s.Triangular) (x : Nat) (t : Ty) :
    ∀ found, OccursEnds s x t found ↔ found = s.occurs x t := by
  induction t using hs.induction_on_parts with
  | h t ih =>
    intro found
    -- Only the head matters: what the bindings of a variable lead to.
    have hwalk : ∀ r, WalkEnds s t r ↔ r = s.walk t := fun _ => hs.walkEnds_iff
    have hhead : s.occurs x t = s.occurs x (s.walk t) := by rw [occurs, occurs, hs.apply_walk]
    have hvar : ∀ y, s.walk t = .var y → s.occurs x (.var y) = decide (y = x) := by
      intro y hy
      rw [occurs, apply_var_of_not_mem_keys (hs.not_mem_keys_of_walk_eq_var hy)]
      simp [mentions, vars, eq_comm]
    rw [hhead]
    generalize s.walk t = head at ih hwalk hvar ⊢
    constructor
    · intro h
      cases h with
      | absent h | base h =>
        obtain rfl := (hwalk _).1 h
        simp [occurs, mentions, vars]
      | var h =>
        obtain rfl := (hwalk _).1 h
        exact (hvar _ rfl).symm
      | pair h hany =>
        obtain rfl := (hwalk _).1 h
        rw [occurs_pair]
        exact (occursAnyEnds_iff ih).1 hany
      | proc h hany =>
        obtain rfl := (hwalk _).1 h
        rw [occurs_proc]
        exact (occursAnyEnds_iff fun u hu => ih u (by simpa [parts, or_comm] using hu)).1 hany
    · rintro rfl
      cases head with
      | absent =>
        rw [occurs, apply_absent]
        exact .absent ((hwalk _).2 rfl)
      | base b =>
        rw [occurs, apply_base]
        exact .base ((hwalk _).2 rfl)
      | var y =>
        rw [hvar y rfl]
        exact .var ((hwalk _).2 rfl)
      | pair a d =>
        exact .pair ((hwalk _).2 rfl) ((occursAnyEnds_iff ih).2 (occurs_pair s x a d))
      | proc ps r =>
        refine .proc ((hwalk _).2 rfl) ((occursAnyEnds_iff fun u hu => ih u ?_).2 (occurs_proc s x ps r))
        simpa [parts, or_comm] using hu

/-- A relation that is a function on the members of a list is its map on the list. -/
theorem forall₂_iff_eq_map {R : Ty → Ty → Prop} {f : Ty → Ty} {ts us : List Ty}
    (h : ∀ t ∈ ts, ∀ u, R t u ↔ u = f t) : List.Forall₂ R ts us ↔ us = ts.map f := by
  induction ts generalizing us with
  | nil => simp
  | cons t ts ih =>
    obtain ⟨ht, hts⟩ := List.forall_mem_cons.1 h
    rw [List.forall₂_cons_left_iff, List.map_cons]
    constructor
    · rintro ⟨u, us, hu, hus, rfl⟩
      rw [(ht u).1 hu, (ih hts).1 hus]
    · rintro rfl
      exact ⟨_, _, (ht _).2 rfl, (ih hts).2 rfl, rfl⟩

/-- Resolving all bindings comes to an end. -/
theorem Triangular.applyEnds_iff (hs : s.Triangular) (t : Ty) :
    ∀ r, ApplyEnds s t r ↔ r = s.apply t := by
  induction t using hs.induction_on_parts with
  | h t ih =>
    intro r
    have hwalk : ∀ r, WalkEnds s t r ↔ r = s.walk t := fun _ => hs.walkEnds_iff
    -- A head without parts is what it is resolved to, since a variable there has no binding.
    have hleaf : (s.walk t).parts = [] → s.apply (s.walk t) = s.walk t := by
      intro hparts
      cases hhead : s.walk t with
      | absent => exact apply_absent s
      | base b => exact apply_base s b
      | var y => exact apply_var_of_not_mem_keys (hs.not_mem_keys_of_walk_eq_var hhead)
      | pair | proc => simp [hhead, parts] at hparts
    rw [← hs.apply_walk t]
    generalize s.walk t = head at ih hwalk hleaf ⊢
    constructor
    · intro h
      cases h with
      | leaf h hparts =>
        obtain rfl := (hwalk _).1 h
        exact (hleaf hparts).symm
      | pair h ha hd =>
        obtain rfl := (hwalk _).1 h
        rw [apply_pair, (ih _ (by simp [parts]) _).1 ha, (ih _ (by simp [parts]) _).1 hd]
      | proc h hps hu =>
        obtain rfl := (hwalk _).1 h
        rw [apply_proc, (forall₂_iff_eq_map fun p hp => ih p (by simp [parts, hp])).1 hps,
          (ih _ (by simp [parts]) _).1 hu]
    · rintro rfl
      cases head with
      | absent | base | var =>
        rw [hleaf rfl]
        exact .leaf ((hwalk _).2 rfl) rfl
      | pair a d =>
        rw [apply_pair]
        exact .pair ((hwalk _).2 rfl) ((ih a (by simp [parts]) _).2 rfl)
          ((ih d (by simp [parts]) _).2 rfl)
      | proc ps u =>
        rw [apply_proc]
        exact .proc ((hwalk _).2 rfl)
          ((forall₂_iff_eq_map fun p hp => ih p (by simp [parts, hp])).2 rfl)
          ((ih u (by simp [parts]) _).2 rfl)

/-! ## Matching -/

section Matching

variable {n : Nat} {a b : Ty} {r : Bool × Substitution}

/-- Binding a variable ends with the computed outcome. -/
theorem Triangular.assignEnds_iff (hs : s.Triangular) :
    AssignEnds s x t r ↔ r = s.bindVar x t := by
  unfold bindVar
  constructor
  · intro h
    cases h with
    | same => rw [if_pos rfl]
    | refuse hne ho => rw [if_neg hne, if_pos ((hs.occursEnds_iff x t _).1 ho).symm]
    | assign hne ho =>
      have ho : s.occurs x t = false := ((hs.occursEnds_iff x t _).1 ho).symm
      rw [if_neg hne, ho, if_neg Bool.false_ne_true]
  · rintro rfl
    split
    · next heq =>
      subst heq
      exact .same
    next hne =>
    split
    · next ho => exact .refuse hne ((hs.occursEnds_iff x t _).2 ho.symm)
    · next ho => exact .assign hne ((hs.occursEnds_iff x t _).2 (Bool.eq_false_iff.2 ho).symm)

theorem Triangular.matchEnds_iff_heads (hs : s.Triangular) :
    MatchEnds s a b r ↔ MatchHeadsEnds s (s.walk a) (s.walk b) r := by
  constructor
  · rintro ⟨ha, hb, h⟩
    rwa [← hs.walkEnds_iff.1 ha, ← hs.walkEnds_iff.1 hb]
  · exact .heads (hs.walkEnds a) (hs.walkEnds b)

theorem matchHeadsEnds_left : MatchHeadsEnds s (.var x) t r ↔ AssignEnds s x t r := by
  constructor
  · intro h
    cases h with
    | left h => exact h
    | right hne _ => exact absurd rfl (hne x)
    | clash h => exact absurd h id
  · exact .left

theorem matchHeadsEnds_right (ht : ∀ y, t ≠ .var y) :
    MatchHeadsEnds s t (.var x) r ↔ AssignEnds s x t r := by
  constructor
  · intro h
    cases h with
    | left _ => exact absurd rfl (ht _)
    | right _ h => exact h
    | clash h => cases t <;> exact absurd h id
  · exact .right ht

theorem matchHeadsEnds_base {p q : Base} :
    MatchHeadsEnds s (.base p) (.base q) r ↔ r = (decide (p = q), s) := by
  constructor
  · intro h
    cases h with
    | base => rfl
    | clash h => exact absurd h id
  · rintro rfl
    exact .base

theorem matchHeadsEnds_pair {d a' d' : Ty} :
    MatchHeadsEnds s (.pair a d) (.pair a' d') r ↔ MatchAllEnds s [a, d] [a', d'] r := by
  constructor
  · intro h
    cases h with
    | pair h => exact h
    | clash h => exact absurd h id
  · exact .pair

/-- Procedure types with as many parameters are matched parameter by parameter, and then by their
results. -/
theorem matchHeadsEnds_proc {ps qs : List Ty} (hlen : ps.length = qs.length) :
    MatchHeadsEnds s (.proc ps t) (.proc qs u) r ↔ MatchAllEnds s (ps ++ [t]) (qs ++ [u]) r := by
  constructor
  · intro h
    cases h with
    | proc _ h => exact h
    | arity hne => exact absurd hlen hne
    | clash h => exact absurd h id
  · exact .proc hlen

/-- Procedure types with different numbers of parameters do not match. -/
theorem matchHeadsEnds_arity {ps qs : List Ty} (hlen : ps.length ≠ qs.length) :
    MatchHeadsEnds s (.proc ps t) (.proc qs u) r ↔ r = (false, s) := by
  constructor
  · intro h
    cases h with
    | proc hlen' _ => exact absurd hlen' hlen
    | arity => rfl
    | clash h => exact absurd h id
  · rintro rfl
    exact .arity hlen

/-- Two types that are no variables and not of one form clash. -/
theorem clash_of_forms (hva : ∀ x, a ≠ .var x) (hvb : ∀ x, b ≠ .var x)
    (hbase : ∀ p q, a = .base p → b ≠ .base q)
    (hpair : ∀ c d c' d', a = .pair c d → b ≠ .pair c' d')
    (hproc : ∀ ps t qs u, a = .proc ps t → b ≠ .proc qs u) : Clash a b := by
  unfold Clash
  split
  · exact hva _ rfl
  · exact hvb _ rfl
  · exact hbase _ _ rfl rfl
  · exact hpair _ _ _ _ rfl rfl
  · exact hproc _ _ _ _ rfl rfl
  · trivial

/-- Types that clash do not match, and nothing is bound. -/
theorem matchHeadsEnds_clash (hclash : Clash a b) :
    MatchHeadsEnds s a b r ↔ r = (false, s) := by
  constructor
  · intro h
    cases h with
    | clash => rfl
    | arity => rfl
    | left | base | pair | proc => exact absurd hclash id
    | right => cases a <;> exact absurd hclash id
  · rintro rfl
    exact .clash hclash

/-! The parts of two types are matched in a row. -/

variable {one : Substitution → Ty → Ty → Bool × Substitution}

theorem matchLists_singleton : matchLists one s [a] [b] = one s a b := by
  cases h : (one s a b).1 with
  | false => simp [matchLists, andThen, h]
  | true => simp [matchLists, andThen, h, Prod.ext_iff]

/-- Lists in two parts are matched one part after the other. -/
theorem matchLists_append {as bs cs ds : List Ty} (hlen : as.length = bs.length) :
    matchLists one s (as ++ cs) (bs ++ ds) =
      andThen (matchLists one s as bs) fun s => matchLists one s cs ds := by
  induction as generalizing s bs with
  | nil =>
    obtain rfl := List.length_eq_zero_iff.1 hlen.symm
    rfl
  | cons a as ih =>
    cases bs with
    | nil => simp at hlen
    | cons b bs =>
      rw [List.cons_append, List.cons_append, matchLists, matchLists]
      cases h : (one s a b).1 with
      | false => simp [andThen, h]
      | true => simpa [andThen, h] using ih (by simpa using hlen)

/-- More bindings do not lower what a type is resolved to. -/
theorem Triangular.height_apply_mono {s' : Substitution} (hs : s.Triangular) (hs' : s'.Triangular)
    (h : s <:+ s') (t : Ty) : (s.apply t).height ≤ (s'.apply t).height := by
  have hres := hs'.respectedBy_of_suffix h hs'.respectedBy_apply
  rw [apply_eq_bind s' t, ← hs.bind_apply hres t]
  exact height_le_height_bind _ _

/-- Matching in a row comes to an end if no type is resolved, in the end, to a type higher than the
depth of the matching. -/
theorem Triangular.matchAllEnds_iff (hs : s.Triangular)
    (hone : ∀ {s a b}, s.Triangular → ((matchWithin n s a b).2.apply a).height ≤ n →
      ∀ r, MatchEnds s a b r ↔ r = matchWithin n s a b)
    {as bs : List Ty} (hlen : as.length = bs.length)
    (hheight : ∀ a ∈ as, ((matchLists (matchWithin n) s as bs).2.apply a).height ≤ n) :
    ∀ r, MatchAllEnds s as bs r ↔ r = matchLists (matchWithin n) s as bs := by
  induction as generalizing s bs with
  | nil =>
    obtain rfl := List.length_eq_zero_iff.1 hlen.symm
    intro r
    constructor
    · rintro ⟨⟩
      rfl
    · rintro rfl
      exact .nil
  | cons a as ih =>
    cases bs with
    | nil => simp at hlen
    | cons b bs =>
      have hlen' : as.length = bs.length := by simpa using hlen
      have hfirst := solved_matchWithin n (a := a) (b := b) hs
      obtain ⟨ha, has⟩ := List.forall_mem_cons.1 hheight
      intro r
      rw [matchLists] at ha has ⊢
      cases hflag : (matchWithin n s a b).1 with
      | false =>
        -- The first types do not match, and that is the end of it.
        have hstop : andThen (matchWithin n s a b) (fun s => matchLists (matchWithin n) s as bs) =
            matchWithin n s a b := by rw [andThen, if_neg (by simp [hflag])]
        rw [hstop] at ha ⊢
        have hends := hone hs ha
        constructor
        · intro h
          cases h with
          | stop h => exact (hends _).1 h
          | next h _ => simp [← (hends _).1 h] at hflag
        · rintro rfl
          rw [← Prod.mk.eta (p := matchWithin n s a b), hflag]
          exact .stop ((hends _).2 (Prod.ext hflag.symm rfl))
      | true =>
        -- The others are matched with the bindings of the first, which are among those in the end.
        have hnext : andThen (matchWithin n s a b) (fun s => matchLists (matchWithin n) s as bs) =
            matchLists (matchWithin n) (matchWithin n s a b).2 as bs := by
          rw [andThen, if_pos hflag]
        rw [hnext] at ha has ⊢
        have hrest : Solved n (matchWithin n s a b).2 (as.zip bs)
            (matchLists (matchWithin n) (matchWithin n s a b).2 as bs) :=
          solved_matchLists (fun hs => solved_matchWithin n hs) hfirst.triangular hlen'
        have hends := hone hs (Nat.le_trans
          (hfirst.triangular.height_apply_mono hrest.triangular hrest.suffix a) ha)
        have hends' := ih hfirst.triangular hlen' has
        constructor
        · intro h
          cases h with
          | stop h => simp [← (hends _).1 h] at hflag
          | next h h' =>
            obtain rfl := congrArg Prod.snd ((hends _).1 h)
            exact (hends' r).1 h'
        · intro h
          exact .next ((hends _).2 (Prod.ext hflag.symm rfl)) ((hends' r).2 h)

/-- Matching to a depth comes to an end if the depth is no less than the height of what the first type
is resolved to in the end. This does not ask the matching to succeed: the bindings it has made when it
fails bound the depth it has reached. -/
theorem Triangular.matchEnds_matchWithin_iff (n : Nat) (hs : s.Triangular)
    (hheight : ((matchWithin n s a b).2.apply a).height ≤ n) :
    ∀ r, MatchEnds s a b r ↔ r = matchWithin n s a b := by
  induction n generalizing s a b with
  | zero =>
    have := one_le_height ((matchWithin 0 s a b).2.apply a)
    omega
  | succ n ih =>
    intro r
    have hsolved := solved_matchWithin (n + 1) (a := a) (b := b) hs
    have hres := hsolved.triangular.respectedBy_of_suffix hsolved.suffix
      hsolved.triangular.respectedBy_apply
    -- What the type is resolved to in the end is what its head is resolved to.
    rw [apply_eq_bind, ← hs.bind_walk hres, ← apply_eq_bind] at hheight
    rw [hs.matchEnds_iff_heads]
    rw [matchWithin] at hheight ⊢
    generalize s.walk a = a' at hheight ⊢
    generalize s.walk b = b' at hheight ⊢
    split at hheight
    · rw [matchHeadsEnds_left]
      exact hs.assignEnds_iff
    · next hva =>
      rw [matchHeadsEnds_right hva]
      exact hs.assignEnds_iff
    · exact matchHeadsEnds_base
    · next c d c' d' =>
      have hparts : andThen (matchWithin n s c c') (fun s => matchWithin n s d d') =
          matchLists (matchWithin n) s [c, d] [c', d'] := by
        rw [matchLists]
        simp only [matchLists_singleton]
      rw [hparts, apply_pair, height_pair_le] at hheight
      rw [matchHeadsEnds_pair, hparts]
      have hheights : ∀ t ∈ [c, d],
          ((matchLists (matchWithin n) s [c, d] [c', d']).2.apply t).height ≤ n := by
        simpa using hheight
      have hlen : [c, d].length = [c', d'].length := rfl
      exact hs.matchAllEnds_iff ih hlen hheights r
    · next ps t qs u =>
      split at hheight
      · next hlen =>
        have hparts : andThen (matchLists (matchWithin n) s ps qs) (fun s => matchWithin n s t u) =
            matchLists (matchWithin n) s (ps ++ [t]) (qs ++ [u]) := by
          rw [matchLists_append hlen]
          simp only [matchLists_singleton]
        rw [hparts, apply_proc, height_proc_le] at hheight
        rw [matchHeadsEnds_proc hlen, if_pos hlen, hparts]
        refine hs.matchAllEnds_iff ih (by simp [hlen]) (fun p hp => ?_) r
        rcases List.mem_append.1 hp with hp | hp
        · exact hheight.1 _ (List.mem_map_of_mem hp)
        · rw [List.mem_singleton.1 hp]
          exact hheight.2
      · next hlen =>
        rw [matchHeadsEnds_arity hlen, if_neg hlen]
    · next hva hvb hbase hpair hproc =>
      exact matchHeadsEnds_clash (clash_of_forms hva hvb hbase hpair hproc)

/-- Matching comes to an end, whether it succeeds or fails. -/
theorem Triangular.matchEnds_iff (hs : s.Triangular) : MatchEnds s a b r ↔ r = s.unify a b :=
  hs.matchEnds_matchWithin_iff _ (solved_unify hs).height_apply_le r

/-- A match that fails at its second part keeps the binding that its first part made. -/
example : unify [] (.pair (.var 1) (.base .number)) (.pair (.base .string) (.base .boolean)) =
    (false, [(1, .base .string)]) := by
  decide

end Matching

/-! ## Any sequence of matches -/

/-- The bindings after types have been matched in pairs. A match that fails keeps the bindings it has
made, and the next one starts from them. -/
def matchPairs (s : Substitution) (calls : List (Ty × Ty)) : Substitution :=
  calls.foldl (fun (s : Substitution) call => (s.unify call.1 call.2).2) s

/-- Calls in two parts are made one after the other. -/
theorem matchPairs_append (s : Substitution) (calls more : List (Ty × Ty)) :
    s.matchPairs (calls ++ more) = (s.matchPairs calls).matchPairs more :=
  List.foldl_append

/-- One more match keeps the bindings triangular and only adds to them, and so does a sequence. -/
theorem Triangular.matchPairs (hs : s.Triangular) (calls : List (Ty × Ty)) :
    (s.matchPairs calls).Triangular ∧ s <:+ s.matchPairs calls := by
  induction calls generalizing s with
  | nil => exact ⟨hs, List.suffix_refl s⟩
  | cons call calls ih =>
    have hfirst := solved_unify (a := call.1) (b := call.2) hs
    obtain ⟨hlast, hsuffix⟩ := ih hfirst.triangular
    exact ⟨hlast, hfirst.suffix.trans hsuffix⟩

/-- The bindings that matching makes are free of circles, whatever has been matched and whether or not it
matched: no variable refers to itself through them, and no binding is ever changed or taken back. So
following bindings, looking for a variable, resolving a type and matching two more types all come to an
end, with the results of `walk`, `occurs`, `apply` and `unify`. A resolved type holds no bound variable
and stays as it is when it is resolved again. -/
theorem matchPairs_acyclic (calls : List (Ty × Ty)) :
    let s := matchPairs [] calls
    (∀ x, ¬ Relation.TransGen s.Refers x x) ∧
    (∀ more x t, s.Binds x t → (matchPairs [] (calls ++ more)).Binds x t) ∧
    (∀ t r, WalkEnds s t r ↔ r = s.walk t) ∧
    (∀ x t found, OccursEnds s x t found ↔ found = s.occurs x t) ∧
    (∀ t r, ApplyEnds s t r ↔ r = s.apply t) ∧
    (∀ a b r, MatchEnds s a b r ↔ r = s.unify a b) ∧
    (∀ t, ∀ x ∈ (s.apply t).vars, ∀ u, ¬ s.Binds x u) ∧
    ∀ t, s.apply (s.apply t) = s.apply t := by
  intro s
  have hs : s.Triangular := (Triangular.nil.matchPairs calls).1
  refine ⟨hs.not_refers_self, fun more x t hb => ?_, fun _ _ => hs.walkEnds_iff, hs.occursEnds_iff,
    hs.applyEnds_iff, fun _ _ _ => hs.matchEnds_iff, fun t x hx u hb => ?_, hs.apply_apply⟩
  · have hmore := hs.matchPairs more
    rw [matchPairs_append]
    exact hmore.1.binds_of_suffix hmore.2 hb
  · exact hs.not_mem_keys_of_mem_vars_apply hx hb.mem_keys

end Substitution

end TypedScheme
